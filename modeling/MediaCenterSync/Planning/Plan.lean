import MediaCenterSync.Naming.Service
import MediaCenterSync.Planning.Siblings
import MediaCenterSync.Planning.Space

/-!
# What a run would fetch, and where to

`plan` takes what `select` wants, one item after another, and gives each a path.  Items come in lots
(`lotOf`): the first of a lot is placed by the rule, and where it went is handed to the others
(`pinOf`).  A path that was given is reserved for the rest of the plan (`claimed`).  The ceilings of
the run cut what comes out.
-/

namespace MediaCenterSync.Planning

open Matching (MediaKind)
open Naming (NameableItem NamingScheme VersionMarks)
open Placement (Disk Folder PlacementLibrary PlacementPin PlacementRequest PlacementTarget)
open TransferManager (Dir PlacedBy)

/-! ### Data -/

structure PlanSettings extends Placement.Settings where
  namingOrder : List NamingScheme
  diskReserveBytes : ℕ

inductive SyncStopReason where
  | MAX_ITEMS
  | MAX_BYTES

structure SyncPlanning where
  items : List PlannedItem
  itemsPlanned : ℕ
  bytesPlanned : ℕ
  dropped : List PlannedItem
  scope : SyncScope
  estimate : SyncEstimate
  targets : List TargetSpace
  stoppedBy : Option SyncStopReason

/-! ### Lots -/

namespace Catalogue

variable (catalogue : Catalogue)

/-- What a root's lot comes to below a frontier, level by level. -/
def spread (root : String) : ℕ → List (String × String) → List String → List (String × String)
  | 0, lots, _ => lots
  | depth + 1, lots, frontier =>
    let frontier := ((catalogue.childrenOf frontier).map (·.id)).filter fun id =>
      (lots.lookup id).isNone
    if frontier = [] then lots
    else spread root depth (lots ++ frontier.map (·, root)) frontier

/-- The lots of the roots a scope names: a node belongs to the first that reaches it. -/
def rootLots (rootItemIds : List String) : List (String × String) :=
  rootItemIds.foldl (fun lots root =>
    if (lots.lookup root).isSome then lots
    else catalogue.spread root (catalogue.items.length + 1) (lots ++ [(root, root)]) [root]) []

/-- `_fillLotsFromParents`: the show an item belongs to, two hops up at most. -/
def lotFromParents (item : MediaItem) : Option String :=
  (catalogue.parentOf item).map fun parent => ((catalogue.parentOf parent).getD parent).id

/-- `_lotKeys`: the lot an item belongs to. -/
def lotOf (scope : SyncScope) (item : MediaItem) : String :=
  (((catalogue.rootLots scope.rootItemIds).lookup item.id).or
    (catalogue.lotFromParents item)).getD item.id

def ancestry : ℕ → MediaItem → List MediaItem
  | 0, item => [item]
  | depth + 1, item => item :: ((catalogue.parentOf item).map (ancestry depth)).getD []

end Catalogue

def ANCESTOR_DEPTH : ℕ := 4

/-! ### One item -/

/-- `{edition-…}` or `[edition-…]`, at the beginning of a text. -/
def editionTagAt (text : List Char) : Option (List Char) := do
  let mark ← text.head?
  let inside ← if mark.toNat ∈ [0x7B, 0x5B] then Naming.afterWord "edition-" text.tail else none
  let label := inside.takeWhile fun c => c.toNat ∉ [0x7D, 0x5D]
  if label ≠ [] ∧ (Matching.units (.ofList label)).length ≤ 80 ∧ label.length < inside.length then
    some label
  else none

def editionTag : List Char → Option (List Char)
  | [] => none
  | c :: rest => (editionTagAt (c :: rest)).or (editionTag rest)

def editionInPath (path : Option Dir) : Option String :=
  ((editionTag ((path.map Placement.text).getD "").toList).map fun label =>
    String.ofList (Naming.squeeze (Naming.trimChars label))).filter (· ≠ "")

/-- The label a copy's cut goes by, the service's own word winning. -/
def editionOf (file : Option MediaFile) : Option String :=
  file.bind fun file =>
    ((file.edition.map Quality.trim).filter (· ≠ "")).or (editionInPath file.path)

/-- What tells a copy apart from the one already sitting where it wants to land. -/
def marksOf (item : MediaItem) : VersionMarks where
  edition := editionOf item.file
  quality := Quality.resolutionLabel (item.file.bind (·.height)) (item.file.bind (·.width))

structure Placed where
  entry : WantedItem
  lot : String
  target : PlacementTarget

/-- Paths a plan has already handed out. -/
def claimed (placed : List Placed) : List Dir := placed.map (·.target.path)

/-- What the first item of a lot hands to the others. -/
def pinFrom (target : PlacementTarget) : PlacementPin where
  root := target.root
  libraryId := target.libraryId
  libraryName := target.libraryName
  strategy := target.strategy
  fallback := target.fallback
  placedBy := target.placedBy

/-- The destination a lot already has. -/
def pinOf (placed : List Placed) (lot : String) : Option PlacementPin :=
  (placed.find? (·.lot = lot)).map (pinFrom ·.target)

/-- What the placement of every item of a plan reads. -/
structure Planner where
  catalogue : Catalogue
  effective : EffectiveRequest
  settings : PlanSettings
  disk : Disk
  normalize : String → String
  /-- The case folding of the strings' own language. -/
  toLowerCase : String → String

namespace Planner

variable (planner : Planner)

def nameable (item : MediaItem) : NameableItem where
  kind := item.kind
  title := item.title
  year := item.year
  seasonNumber := item.seasonNumber
  episodeNumber := item.episodeNumber
  seriesTitle := (seriesFacts planner.catalogue item).map (·.title)
  seriesYear := (seriesFacts planner.catalogue item).bind (·.year)
  sourcePath := item.file.bind (·.path)

/-- Our own copy of the same show: the copy that is held, or a sibling. -/
def siblingPath (siblings : List (String × Dir)) (entry : WantedItem) : Option Dir :=
  match entry.heldAs.bind (·.file) with
  | some file => file.path
  | none => siblings.lookup (siblingKey planner.catalogue planner.normalize entry.item)

def folderOf (item : MediaItem) : Option Folder :=
  Naming.pinnedFolderOf ((planner.catalogue.ancestry ANCESTOR_DEPTH item).map (·.targetFolder))
    item.seasonNumber

def request (siblings : List (String × Dir)) (placed : List Placed) (entry : WantedItem) :
    PlacementRequest :=
  let pin := pinOf placed (planner.catalogue.lotOf planner.effective.scope entry.item)
  let heldPath := (entry.heldAs.bind (·.file)).bind (·.path)
  { kind := entry.item.kind
    categoryKey := planner.catalogue.categoryKeyOf entry.item.libraryId
    settings := planner.settings.toSettings
    libraries := planner.catalogue.placementLibraries
    relativeName := fun libraryRoot =>
      Naming.render planner.settings.namingOrder (planner.nameable entry.item)
        ⟨[], planner.siblingPath siblings entry, some libraryRoot, none⟩
    existingPath := heldPath
    pinnedPath := if pin = none then planner.folderOf entry.item else none
    preferredLibraryId := planner.effective.preferredLibraryId
    preferredBy := planner.effective.preferredBy
    requiredBytes := entry.item.bytes
    replacesPath := heldPath
    disambiguate := fun relativeName attempt =>
      Naming.disambiguate planner.toLowerCase relativeName (marksOf entry.item) attempt
    reserved := claimed placed
    pinned := pin }

def place (siblings : List (String × Dir)) (placed : List Placed) (entry : WantedItem) :
    Except Placement.Refusal Placed :=
  (Placement.resolve planner.disk (planner.request siblings placed entry)).map fun target =>
    ⟨entry, planner.catalogue.lotOf planner.effective.scope entry.item, target⟩

def placeAll (siblings : List (String × Dir)) :
    List Placed → List WantedItem → Except Placement.Refusal (List Placed)
  | placed, [] => .ok placed
  | placed, entry :: rest => do
    let next ← planner.place siblings placed entry
    placeAll siblings (placed ++ [next]) rest

def plannedItem (placed : Placed) : PlannedItem where
  itemId := placed.entry.item.id
  localItemId := placed.entry.heldAs.map (·.id)
  title := Naming.episodeLabel (planner.nameable placed.entry.item)
  kind := placed.entry.item.kind
  sourceServiceId := placed.entry.item.serviceId
  sourceServiceName := ((planner.catalogue.services.find? (·.id = placed.entry.item.serviceId)).map
    (·.name)).getD ""
  targetLibraryId := placed.target.libraryId
  targetLibraryName := placed.target.libraryName
  targetPath := placed.target.path
  placedBy := placed.target.placedBy
  lot := placed.lot
  bytes := placed.entry.item.bytes
  contentId := placed.entry.item.file.bind (·.contentId)
  state := placed.entry.state

end Planner

/-! ### The ceilings -/

def stopsAt (ceilings : RunCeilings) (count bytes : ℕ) (item : PlannedItem) :
    Option SyncStopReason :=
  if ceilings.maxItems.any (· ≤ count) then some .MAX_ITEMS
  else if ceilings.maxBytes.any (· < bytes + item.bytes) then some .MAX_BYTES
  else none

/-- `applyCeilings`: the items up to the first that does not fit, the others, and why. -/
def applyCeilings (ceilings : RunCeilings) : ℕ → ℕ → List PlannedItem →
    List PlannedItem × List PlannedItem × Option SyncStopReason
  | _, _, [] => ([], [], none)
  | count, bytes, item :: rest =>
    match stopsAt ceilings count bytes item with
    | some reason => ([], item :: rest, some reason)
    | none =>
      let (kept, dropped, stoppedBy) := applyCeilings ceilings (count + 1) (bytes + item.bytes) rest
      (item :: kept, dropped, stoppedBy)

/-! ### The plan -/

namespace Planner

variable (planner : Planner)

/-- Everything that is wanted, as far as one plan walks, with the path it was given. -/
def placements (wanted : List WantedItem) : Except Placement.Refusal (List Placed) :=
  let planned := wanted.take MAX_PLANNED_ITEMS
  planner.placeAll (localSiblings planner.catalogue planner.normalize (planned.map (·.item))) []
    planned

/-- What the ceilings leave of a plan, and the room it needs. -/
def planning (estimate : SyncEstimate) (placed : List Placed) : SyncPlanning :=
  let (kept, dropped, stoppedBy) :=
    applyCeilings planner.effective.ceilings 0 0 (placed.map planner.plannedItem)
  { items := kept
    itemsPlanned := kept.length
    bytesPlanned := (kept.map (·.bytes)).sum
    dropped := dropped
    scope := planner.effective.scope
    estimate := estimate
    targets := targets planner.disk planner.catalogue.placementLibraries
      (planner.catalogue.libraries.map planner.catalogue.placementLibrary)
      planner.settings.diskReserveBytes kept
    stoppedBy := stoppedBy }

/-- **The one computation preview and run share.** -/
def plan : Except PlanRefusal SyncPlanning := do
  let (wanted, estimate) ← select planner.toLowerCase planner.catalogue planner.effective
  match planner.placements wanted with
  | .error refusal => .error (.placement refusal)
  | .ok placed => .ok (planner.planning estimate placed)

end Planner

end MediaCenterSync.Planning
