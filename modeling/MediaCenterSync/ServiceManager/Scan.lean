import Mathlib.Data.String.Basic
import MediaCenterSync.Lib.Subtree
import MediaCenterSync.ServiceManager.Items

/-!
# One indexing pass

A pass walks the libraries of a service one after another, writing every item it is told about and,
on a full scan, dropping at the end of each library the rows that library's walk did not see
(`forgetStale`).  Then it links the rows to the parents they name (`reconcileParents`), files the
episodes under the seasons their numbers name (`refileService`) and recounts what hangs under every
row (`recompute`).

The climb of `reconcileParents`, which nothing but its own logic bounds, takes fuel and gives `none`
when it runs out, and so does the recursion of `collect`, whose fuel is the room there is on the
stack.  What the media server answers is a parameter: the items of each library's walk, and what
`getItem` says of an identifier.  So is the number of variables one statement may bind, since the
statements of a sweep bind one for every item and every row they are about.
-/

namespace MediaCenterSync.ServiceManager

open Matching (MediaKind MediaFileInfo)

def PARENT_HOPS : ℕ := 3

variable (normalize : String → String)

/-! ### Writing one item -/

/-- The row with what the service says written over it, before any correction. -/
def writeReport (row : MediaItem) (libraryId : String) (parent : Option MediaItem)
    (item : NormalisedMediaItem) : MediaItem :=
  { row with
    libraryId := libraryId
    parentId := (parent.map (·.id)) <|> row.parentId
    parentExternalId := item.parentExternalId <|> row.parentExternalId
    kind := item.kind
    title := item.title
    normalizedTitle := item.normalizedTitle
    year := item.year
    seasonNumber := item.seasonNumber
    episodeNumber := item.episodeNumber
    episodeNumberEnd := item.episodeNumberEnd
    externalIds := item.externalIds
    overview := item.overview
    artworkUrl := item.artworkUrl
    watchStates := item.watchStates
    file := item.file
    addedAt := item.addedAt }

/-- The row with what the service says, and the correction in force written over that. -/
def rewriteRow (row : MediaItem) (libraryId : String) (parent : Option MediaItem)
    (item : NormalisedMediaItem) : MediaItem :=
  let row := writeReport row libraryId parent item
  if row.overrides.isSome then applyOverride { row with reported := none } row.overrides normalize
  else row

theorem key_applyOverride (row : MediaItem) (override : Option MediaOverride) :
    (applyOverride row override normalize).key = row.key := by
  unfold applyOverride
  dsimp only
  split <;> rfl

theorem key_rewriteRow (row : MediaItem) (libraryId : String) (parent : Option MediaItem)
    (item : NormalisedMediaItem) :
    (rewriteRow normalize row libraryId parent item).key = row.key := by
  unfold rewriteRow
  dsimp only
  split
  · rw [key_applyOverride]
    rfl
  · rfl

def create (serviceId libraryId : String) (item : NormalisedMediaItem) : MediaItem where
  id := 0
  serviceId := serviceId
  libraryId := libraryId
  externalId := item.externalId
  synthetic := false
  parentId := none
  parentExternalId := none
  kind := item.kind
  title := item.title
  normalizedTitle := item.normalizedTitle
  year := none
  seasonNumber := none
  episodeNumber := none
  episodeNumberEnd := none
  externalIds := {}
  overview := none
  artworkUrl := none
  file := none
  addedAt := none
  watchStates := none
  overrides := none
  reported := none
  ignored := false
  childCount := 0

/-- The parent an item names, where the table already has it. -/
def parentOf (t : MediaItems) (serviceId : String) (item : NormalisedMediaItem) :
    Option MediaItem :=
  item.parentExternalId.bind (t.findByExternalId serviceId)

/-- `_persist`: writes one item, creating it the first time it is seen. -/
def persist (serviceId libraryId : String) (t : MediaItems) (item : NormalisedMediaItem) :
    MediaItems :=
  match hfind : t.findByExternalId serviceId item.externalId with
  | some existing =>
    t.modify existing.id
      (rewriteRow normalize · libraryId (parentOf t serviceId item) item)
      fun row => key_rewriteRow normalize row libraryId _ item
  | none =>
    t.insert (rewriteRow normalize (create serviceId libraryId item) libraryId
        (parentOf t serviceId item) item) <| by
      have hkey := key_rewriteRow normalize (create serviceId libraryId item) libraryId
        (parentOf t serviceId item) item
      have hservice := congrArg (·.2.1) hkey
      have hexternal := congrArg (·.2.2) hkey
      simp only [MediaItem.key] at hservice hexternal
      rw [hservice, hexternal]
      exact hfind

/-! ### Dropping what a full scan no longer saw -/

/-- The rows of a library a walk did not report.  A row of the gateway's own never is one. -/
def findStale (t : MediaItems) (libraryId : String) (seen : List String) : List MediaItem :=
  (t.ofLibrary libraryId).filter fun row => !row.synthetic && row.externalId ∉ seen

/-- The climb from one surviving row: what is above it survives, a bounded number of rows up. -/
def spare (byId : ℕ → Option MediaItem) : ℕ → Option ℕ → Finset ℕ → Finset ℕ
  | 0, _, doomed => doomed
  | _ + 1, none, doomed => doomed
  | hops + 1, some parentId, doomed =>
    if parentId ∈ doomed then
      spare byId hops ((byId parentId).bind (·.parentId)) (doomed.erase parentId)
    else doomed

/-- The identifiers still doomed once every row of the library has been looked at. -/
def stillDoomed (rows : List MediaItem) (doomed : Finset ℕ) : Finset ℕ :=
  let byId := fun id => rows.find? (·.id = id)
  rows.foldl
    (fun doomed row =>
      if row.id ∈ doomed then doomed else spare byId PARENT_HOPS row.parentId doomed)
    doomed

def withoutLivingChildren (t : MediaItems) (libraryId : String) (stale : List MediaItem) :
    List MediaItem :=
  let doomed := stillDoomed (t.ofLibrary libraryId) (stale.map (·.id)).toFinset
  stale.filter (·.id ∈ doomed)

/-- The database takes the statements of a sweep: `findStale` binds the library, the flag and every
item seen, and `deleteForItems` every row to go. -/
def Bindable (bindLimit : ℕ) (t : MediaItems) (libraryId : String) (seen : List String) : Prop :=
  seen.length + 2 ≤ bindLimit ∧
    (withoutLivingChildren t libraryId (findStale t libraryId seen)).length ≤ bindLimit

instance (bindLimit : ℕ) (t : MediaItems) (libraryId : String) (seen : List String) :
    Decidable (Bindable bindLimit t libraryId seen) :=
  inferInstanceAs (Decidable (_ ∧ _))

/-- `_forgetStale`, which fails with the first of its statements to bind too much. -/
def forgetStale (bindLimit : ℕ) (t : MediaItems) (libraryId : String) (seen : List String) :
    Option MediaItems :=
  if Bindable bindLimit t libraryId seen then
    some (t.remove ((withoutLivingChildren t libraryId (findStale t libraryId seen)).map (·.id)))
  else none

/-! ### The walk -/

/-- What the walk of one library was told: its items, and whether it then failed. -/
structure LibraryWalk where
  library : String
  items : List NormalisedMediaItem
  failed : Bool

/-- What one pass meets: what the media server answers, and how many variables the database lets a
statement bind. -/
structure Pass where
  serviceId : String
  full : Bool
  walks : List LibraryWalk
  getItem : String → Option NormalisedMediaItem
  bindLimit : ℕ

def written (pass : Pass) (t : MediaItems) (walk : LibraryWalk) : MediaItems :=
  walk.items.foldl (persist normalize pass.serviceId walk.library) t

/-- The end of a library's walk, which its own failure or that of its sweep keeps it from. -/
def finishLibrary (pass : Pass) (t : MediaItems) (walk : LibraryWalk) : Option MediaItems :=
  if walk.failed then none
  else if pass.full then
    forgetStale pass.bindLimit t walk.library (walk.items.map (·.externalId))
  else some t

def walkLibrary (pass : Pass) (t : MediaItems) (walk : LibraryWalk) : MediaItems :=
  let t := written normalize pass t walk
  (finishLibrary pass t walk).getD t

def walkLibraries (pass : Pass) (t : MediaItems) : MediaItems :=
  pass.walks.foldl (walkLibrary normalize pass) t

/-- `walked`: the libraries, of some that are walked one after another, that come to their end. -/
def walked (pass : Pass) : MediaItems → List LibraryWalk → List String
  | _, [] => []
  | t, walk :: walks =>
    let rest := walked pass (walkLibrary normalize pass t walk) walks
    if (finishLibrary pass (written normalize pass t walk) walk).isSome then walk.library :: rest
    else rest

/-- Nothing answered at all, which ends the pass before anything else runs. -/
def silent (pass : Pass) (t : MediaItems) : Bool :=
  walked normalize pass t pass.walks = [] && pass.walks ≠ []

/-! ### Linking the rows to the parents they name -/

/-- The parent an unlinked row names, where the table has it. -/
def knownParent (t : MediaItems) (serviceId : String) (row : MediaItem) : Option MediaItem :=
  if row.serviceId = serviceId ∧ row.parentId = none then
    row.parentExternalId.bind (t.findByExternalId serviceId)
  else none

def linkKnownParents (t : MediaItems) (serviceId : String) : MediaItems :=
  t.update
    (fun row =>
      match knownParent t serviceId row with
      | some parent => { row with parentId := some parent.id }
      | none => row)
    fun row => by split <;> rfl

/-- The rows whose parent the table does not have. -/
def unresolved (t : MediaItems) (serviceId : String) : List MediaItem :=
  t.rows.filter fun row =>
    row.serviceId = serviceId ∧ row.parentId = none ∧
      ∃ name ∈ row.parentExternalId, t.findByExternalId serviceId name = none

/-- The first library, in their order, of the rows that name a parent. -/
def minLibrary (rows : List MediaItem) (name : String) : Option String :=
  ((rows.filter (·.parentExternalId = some name)).map (·.libraryId)).min?

/-- `findUnresolvedParents`: the missing parents, each once, with a library to file it in. -/
def findUnresolvedParents (t : MediaItems) (serviceId : String) : List (String × String) :=
  let rows := unresolved t serviceId
  (rows.filterMap (·.parentExternalId)).eraseDups.filterMap fun name =>
    (minLibrary rows name).map fun library => (name, library)

/-- What one round of fetching has come to: the table, and how many parents were fetched. -/
def fetchParent (pass : Pass) (fetched : MediaItems × ℕ) (entry : String × String) :
    MediaItems × ℕ :=
  if entry.2 ∉ pass.walks.map (·.library) then fetched
  else
    match pass.getItem entry.1 with
    | some parent => (persist normalize pass.serviceId entry.2 fetched.1 parent, fetched.2 + 1)
    | none => fetched

/-- `_reconcileParents`, from one hop on, less the parents already asked for. -/
def reconcileParents (pass : Pass) : ℕ → ℕ → List String → MediaItems → Option MediaItems
  | 0, _, _, _ => none
  | fuel + 1, hop, asked, t =>
    let t := linkKnownParents t pass.serviceId
    if PARENT_HOPS ≤ hop then some t
    else
      let missing := (findUnresolvedParents t pass.serviceId).filter (·.1 ∉ asked)
      if missing = [] then some t
      else
        let (t, fetched) := missing.foldl (fetchParent normalize pass) (t, 0)
        if fetched = 0 then some t
        else reconcileParents pass fuel (hop + 1) (asked ++ missing.map (·.1)) t

/-! ### Filing the episodes -/

/-- The rows `findPlacements` reads. -/
def findPlacements (t : MediaItems) (serviceId : String) : List MediaItem :=
  t.rows.filter fun row =>
    row.serviceId = serviceId ∧ row.kind ∈ [MediaKind.SERIES, .SEASON, .EPISODE]

/-- `_seriesIdOf`: the series an episode hangs from, climbing at most one level. -/
def seriesIdOf (byId : ℕ → Option MediaItem) (episode : MediaItem) : Option ℕ :=
  match episode.parentId.bind byId with
  | none => none
  | some parent =>
    if parent.kind = .SERIES then some parent.id
    else
      match parent.parentId.bind byId with
      | some grandparent => if grandparent.kind = .SERIES then some grandparent.id else none
      | none => none

def seasonOf (rows : List MediaItem) (seriesId : ℕ) (season : ℤ) : Option MediaItem :=
  rows.find? fun row =>
    row.kind = .SEASON ∧ row.parentId = some seriesId ∧ row.seasonNumber = some season

/-- The season an episode's numbers name, where that is not its parent. -/
def target (rows : List MediaItem) (row : MediaItem) : Option ℕ :=
  if row.kind = .EPISODE then do
    let season ← row.seasonNumber
    let seriesId ← seriesIdOf (fun id => rows.find? (·.id = id)) row
    let found ← seasonOf rows seriesId season
    if some found.id = row.parentId then none else some found.id
  else none

/-- `_settle`: the child count of one end of a move, and no empty season of the gateway's own. -/
def settle (t : MediaItems) (id : ℕ) : MediaItems :=
  match t.findOne id with
  | none => t
  | some row =>
    if (t.childrenOf id).length = 0 ∧ row.synthetic then t.remove [id]
    else t.modify id (fun row => { row with childCount := (t.childrenOf id).length }) fun _ => rfl

/-- `moved`: the episodes to file elsewhere, each with where it hangs and where it goes. -/
def moves (t : MediaItems) (serviceId : String) : List (MediaItem × ℕ) :=
  let rows := findPlacements t serviceId
  rows.filterMap fun row => (target rows row).map fun season => (row, season)

def moveTo (t : MediaItems) (move : MediaItem × ℕ) : MediaItems :=
  t.modify move.1.id (fun row => { row with parentId := some move.2 }) fun _ => rfl

/-- `touched`: both ends of every move. -/
def touched (moved : List (MediaItem × ℕ)) : List ℕ :=
  (moved.flatMap fun move => move.1.parentId.toList ++ [move.2]).eraseDups

def refileService (t : MediaItems) (serviceId : String) : MediaItems :=
  let moved := moves t serviceId
  (touched moved).foldl settle (moved.foldl moveTo t)

/-! ### Recounting -/

/-- What the recount of one row found: its children, and the files its quality is summarised
from. -/
structure Recount where
  id : ℕ
  childCount : ℕ
  files : List MediaFileInfo

def children (items : List MediaItem) (item : MediaItem) : List MediaItem :=
  items.filter (·.parentId = some item.id)

/-- `collect`: the files at or below a row, kept by row once they are known.  No more than `stack`
calls of it fit inside one another. -/
def collect (items : List MediaItem) (stack : ℕ) :
    Subtree.Memo ℕ MediaFileInfo → MediaItem →
      Option (List MediaFileInfo × Subtree.Memo ℕ MediaFileInfo) :=
  Subtree.collect (·.id) (children items) (·.file.toList) stack

/-- `_recompute`, as far as what it derives the rows' summaries from. -/
def recompute (stack : ℕ) (t : MediaItems) (libraryId : String) : Option (List Recount) :=
  let items := t.ofLibrary libraryId
  (Subtree.collectAll (collect items stack) (fun _ => none) items).map fun collected =>
    items.zipWith (fun item files => ⟨item.id, (children items item).length, files⟩) collected.1

/-! ### The pass -/

/-- The table a pass leaves, up to the recount. -/
def index (fuel : ℕ) (pass : Pass) (t : MediaItems) : Option MediaItems :=
  let indexed := walkLibraries normalize pass t
  if silent normalize pass t then some indexed
  else (reconcileParents normalize pass fuel 0 [] indexed).map (refileService · pass.serviceId)

end MediaCenterSync.ServiceManager

/-!
## Making a correction

`setOverride` writes a correction into its row, and `seasonFor` is where `refile` then hangs an
episode: under the season of its series that carries its number, or straight under the series when
it has none.
-/

namespace MediaCenterSync.ServiceManager

open Matching (MediaKind)

def withoutCancelledPreference (override : Option MediaOverride) : Option MediaOverride :=
  override.map fun override =>
    if override.releasePreference = some none then { override with releasePreference := none }
    else override

/-- `setOverride`, as far as the corrected row's own columns. -/
def setOverride (normalize : String → String) (t : MediaItems) (id : ℕ)
    (override : Option MediaOverride) : MediaItems :=
  t.modify id (applyOverride · (withoutCancelledPreference override) normalize)
    fun row => key_applyOverride normalize row _

/-- The order of the numbers in a column, a missing one first. -/
def numberBefore : Option ℤ → Option ℤ → Bool
  | none, some _ => true
  | some a, some b => a < b
  | _, none => false

/-- The order children are read in: by season, then by episode, then by title. -/
def before (a b : MediaItem) : Bool :=
  numberBefore a.seasonNumber b.seasonNumber ||
    a.seasonNumber = b.seasonNumber &&
      (numberBefore a.episodeNumber b.episodeNumber ||
        a.episodeNumber = b.episodeNumber && a.title ≤ b.title)

def findChildren (t : MediaItems) (parentId : ℕ) : List MediaItem :=
  (t.childrenOf parentId).mergeSort before

/-- `_seriesOf`: the series an episode belongs to, through its season or directly. -/
def seriesOf (t : MediaItems) (item : MediaItem) : Option MediaItem :=
  match item.parentId.bind t.findOne with
  | none => none
  | some parent =>
    if parent.kind = .SERIES then some parent
    else
      match parent.parentId.bind t.findOne with
      | some grandparent => if grandparent.kind = .SERIES then some grandparent else none
      | none => none

/-- Where an episode belongs. -/
inductive Place where
  /-- Where it is: it has no series to be filed in. -/
  | unchanged
  | under (id : ℕ)
  /-- Under a season that has to be created. -/
  | created

def seasonFor (t : MediaItems) (item : MediaItem) : Place :=
  match seriesOf t item with
  | none => .unchanged
  | some series =>
    match item.seasonNumber with
    | none => .under series.id
    | some season =>
      match (findChildren t series.id).find? fun one =>
          one.kind = .SEASON ∧ one.seasonNumber = some season with
      | some existing => .under existing.id
      | none => .created

/-- The row is where `refile` would leave it. -/
def Filed (t : MediaItems) (item : MediaItem) : Prop :=
  item.kind = .EPISODE →
    seasonFor t item = .unchanged ∨ ∃ id, seasonFor t item = .under id ∧ item.parentId = some id

end MediaCenterSync.ServiceManager
