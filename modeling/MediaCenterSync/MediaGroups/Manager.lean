import Mathlib.Data.String.Basic
import MediaCenterSync.Grouping.MatchGraph
import MediaCenterSync.Lib.OrderedMap
import MediaCenterSync.Matching.Service

/-!
# The catalogue, as media groups read it

A media is one row for each service that reports it, and the rows of one media are a component of
the match graph.  Whether a copy means we have the media is `holds`; the state a group shows is
`groupStateOf`; and a file may be several episodes (`spanOf`).

The rows a statement answers with come in an order of the engine's own (`scan`).  Identifiers are
UUIDs, on which every order of texts is the same.
-/

namespace MediaCenterSync.MediaGroups

open Grouping (MatchGraph MatchPair)
open Matching (MediaKind)
open SyncManager (SyncState)

/-! ### Rows -/

/-- What the service last said, beside a correction. -/
structure Reported where
  title : String
  seasonNumber : Option ℕ
  episodeNumber : Option ℕ
  episodeNumberEnd : Option ℕ
deriving DecidableEq

/-- One row of `media_items`. -/
structure MediaItem where
  id : String
  serviceId : String
  parentId : Option String
  kind : MediaKind
  title : String
  seasonNumber : Option ℕ
  episodeNumber : Option ℕ
  /-- The last episode of a file that is several. -/
  episodeNumberEnd : Option ℕ
  syncState : SyncState
  ignored : Bool
  hasFile : Bool
  reported : Option Reported
deriving DecidableEq

structure MediaService where
  id : String
  priority : ℕ
  /-- `serviceMode(service) === LOCAL` -/
  isLocal : Bool

/-- What a listing needs to know about the world. -/
structure GroupContext where
  pairs : List (MatchPair String)
  services : List MediaService

namespace GroupContext

variable (context : GroupContext)

def graph : MatchGraph String := .create context.pairs

def root (id : String) : String := context.graph.root id

def members (id : String) : List String := (context.graph.members id).1

def besideAnotherCut (id : String) : Bool := context.graph.besideAnotherCut id

/-- `local.has(serviceId)` -/
def isLocal (serviceId : String) : Bool :=
  context.services.any fun service => service.id = serviceId && service.isLocal

def priority (serviceId : String) : Option ℕ :=
  (context.services.find? (·.id = serviceId)).map (·.priority)

end GroupContext

/-! ### What is read -/

def MediaItem.isUnder (item : MediaItem) (parentIds : List String) : Bool :=
  item.parentId.any (· ∈ parentIds)

/-- The rows at one moment, and how the engine answers with them. -/
structure Catalogue where
  rows : List MediaItem
  ids_nodup : (rows.map MediaItem.id).Nodup
  /-- The rows under some parents, in the engine's order. -/
  scan : List String → List MediaItem
  scan_perm : ∀ parentIds, (scan parentIds).Perm (rows.filter (·.isUnder parentIds))

/-- How many identifiers one statement carries. -/
def ID_CHUNK : ℕ := 400

/-- `_chunked`: the identifiers in slices. -/
def chunks (ids : List String) : List (List String) :=
  let unique := ids.eraseDups
  (List.range (unique.length / ID_CHUNK + 1)).map fun n => (unique.drop (n * ID_CHUNK)).take ID_CHUNK

namespace Catalogue

variable (catalogue : Catalogue)

def findChildDigests (parentIds : List String) : List MediaItem :=
  (chunks parentIds).flatMap catalogue.scan

/-- `findDigests`, `findByIds` -/
def findByIds (ids : List String) : List MediaItem := catalogue.rows.filter (·.id ∈ ids)

end Catalogue

/-! ### What a row says -/

/-- The states that mean "the bytes are on our disk", whatever any service says. -/
def LANDED_STATES : List SyncState := [.AWAITING_INDEX, .NOT_INDEXED]

def CARRIES_A_FILE : List MediaKind := [.EPISODE, .MOVIE]

/-- `_holds`: this copy means we have the media. -/
def holds (context : GroupContext) (copy : MediaItem) : Bool :=
  if copy.syncState ∈ LANDED_STATES then true
  else if copy.kind ∈ CARRIES_A_FILE ∧ copy.hasFile = false then false
  else context.isLocal copy.serviceId && !context.besideAnotherCut copy.id

/-- The numbers a row covers, in order. -/
def spanOf (episodeNumber episodeNumberEnd : Option ℕ) : List ℕ :=
  match episodeNumber with
  | none => []
  | some first =>
    match episodeNumberEnd with
    | none => [first]
    | some last => if last ≤ first then [first] else (List.range (last - first + 1)).map (first + ·)

def MediaItem.span (item : MediaItem) : List ℕ :=
  spanOf item.episodeNumber item.episodeNumberEnd

def episodesCovered (rows : List MediaItem) : List ℕ := rows.flatMap MediaItem.span

/-- A row of several episodes that we hold. -/
def holdsARange (context : GroupContext) (item : MediaItem) : Bool :=
  item.episodeNumberEnd ≠ none && holds context item

/-- `_insideARange`: this child is the second half of a neighbour's file. -/
def insideARange (child : MediaItem) (covered : List ℕ) : Bool :=
  child.episodeNumberEnd = none && child.episodeNumber.any (· ∈ covered)

/-- Which state a group shows when its copies disagree, most urgent first. -/
def GROUP_STATE_ORDER : List SyncState :=
  [.SYNCING, .CONFLICT, .OUTDATED, .MISSING, .IN_SYNC, .LOCAL_ONLY]

def groupStateOf (members : List MediaItem) (isLocal : String → Bool) : SyncState :=
  let held := members.filter (isLocal ·.serviceId)
  if held = [] then
    ((members.find? (·.syncState ∈ LANDED_STATES)).map (·.syncState)).getD .MISSING
  else (GROUP_STATE_ORDER.find? fun state => held.any (·.syncState = state)).getD .UNKNOWN

end MediaCenterSync.MediaGroups

/-!
## Media groups

A listing folds rows into groups: the rows a filter selected (`skeletons`), then the full groups of
one page of them (`read`).  How many children a group is short of is worked out twice.  The filters
read it off `gapCounts`, over every group of the result; a card shows what `childGroups` finds, for
the groups of one page.

Of a group this keeps its state, its coordinate and its counts.
-/

namespace MediaCenterSync.MediaGroups

open Matching (MediaKind)
open SyncManager (SyncState)

variable (catalogue : Catalogue) (context : GroupContext)

/-! ### Children -/

/-- The children of a page of groups, and every copy of each child. -/
structure ChildIndex where
  children : List MediaItem
  copies : List MediaItem

namespace ChildIndex

variable (index : ChildIndex)

def byParent (parentId : String) : List MediaItem :=
  index.children.filter (·.parentId = some parentId)

def byId (id : String) : Option MediaItem := index.copies.find? (·.id = id)

def copiesOf (child : MediaItem) : List MediaItem :=
  (context.members child.id).filterMap index.byId

end ChildIndex

def children (memberIds : List String) : ChildIndex :=
  let children := catalogue.findChildDigests memberIds
  let outsiders := (children.flatMap (context.members ·.id)).filter fun id =>
    children.all (·.id ≠ id)
  ⟨children, children ++ catalogue.findByIds outsiders⟩

/-- The body of the loops of `_childGroups`. -/
def addChild (index : ChildIndex) (covered : List ℕ) (groups : List (String × Bool))
    (child : MediaItem) : List (String × Bool) :=
  let root := context.root child.id
  if groups.any (·.1 = root) then groups
  else
    let copies := index.copiesOf context child
    if copies.any (·.ignored) then groups
    else groups ++ [(root, copies.any (holds context) || insideARange child covered)]

/-- `_childGroups`: the children of every copy, folded into child groups, and whether we hold
each. -/
def childGroups (members : List MediaItem) (index : ChildIndex) : List (String × Bool) :=
  -- flat over every copy that was read, whatever it is filed under
  let covered := episodesCovered (index.copies.filter (holdsARange context))
  (members.flatMap (index.byParent ·.id)).foldl (addChild context index covered) []

/-! ### A group -/

structure MediaGroup where
  id : String
  kind : MediaKind
  title : String
  seasonNumber : Option ℕ
  episodeNumber : Option ℕ
  episodeNumberEnd : Option ℕ
  sync : SyncState
  childCount : ℕ
  missingCount : ℕ
  parentId : Option String

/-- The order of `_rank`: ours first, then the priority of the service, then the identifier. -/
def ranksBefore (left right : MediaItem) : Prop :=
  let priority := fun (item : MediaItem) => (context.priority item.serviceId).getD (2 ^ 53 - 1)
  toLex (!context.isLocal left.serviceId, toLex (priority left, left.id)) ≤
    toLex (!context.isLocal right.serviceId, toLex (priority right, right.id))

instance : DecidableRel (ranksBefore context) := fun _ _ => inferInstanceAs (Decidable (_ ≤ _))

/-- `_rank`: the copies in the order the group prefers them. -/
def rank (members : List MediaItem) : List MediaItem :=
  members.insertionSort (ranksBefore context)

/-- `_corrected`: this copy carries a hand correction of this field. -/
def corrected {β : Type} [DecidableEq β] (field : MediaItem → β) (reported : Reported → β)
    (item : MediaItem) : Bool :=
  item.reported.any fun snapshot => field item ≠ reported snapshot

/-- `_preferring`: the copies somebody corrected this field on come first. -/
def preferring {β : Type} [DecidableEq β] (ranked : List MediaItem) (field : MediaItem → β)
    (reported : Reported → β) : List MediaItem :=
  ranked.filter (corrected field reported) ++ ranked.filter (!corrected field reported ·)

def group (members : List MediaItem) (index : ChildIndex) : Option MediaGroup :=
  let ranked := rank context members
  let first := fun (field : MediaItem → Option ℕ) reported =>
    (preferring ranked field reported).findSome? field
  let childGroups := childGroups context ranked index
  ranked.head?.map fun representative =>
    { id := representative.id
      kind := representative.kind
      title := (((preferring ranked (·.title) (·.title)).head?).getD representative).title
      seasonNumber := first (·.seasonNumber) (·.seasonNumber)
      episodeNumber := first (·.episodeNumber) (·.episodeNumber)
      episodeNumberEnd :=
        (preferring (ranked.filter (holds context)) (·.episodeNumberEnd)
          (·.episodeNumberEnd)).findSome? (·.episodeNumberEnd)
      sync := groupStateOf members context.isLocal
      childCount := childGroups.length
      missingCount := (childGroups.filter (!·.2)).length
      parentId := representative.parentId }

/-- The rows of one component, in its order. -/
def rowsOf (memberIds : List String) : List MediaItem :=
  memberIds.filterMap fun id => catalogue.rows.find? (·.id = id)

def readOne (page : List (List String)) (memberIds : List String) : Option MediaGroup :=
  group context (rowsOf catalogue memberIds) (children catalogue context page.flatten)

/-- `_read`: the full groups of one page. -/
def read (page : List (List String)) : List MediaGroup :=
  page.filterMap (readOne catalogue context page)

/-- One group, addressed by any item in it. -/
def groupById (id : String) : Option MediaGroup :=
  if catalogue.rows.any (·.id = id) then (read catalogue context [context.members id]).head?
  else none

/-! ### Gaps -/

/-- `_rangesUnder`, of one parent: the episodes held under it by a file that holds several. -/
def rangesUnder (children : List MediaItem) (parentRoot : String) : List ℕ :=
  episodesCovered (children.filter fun child =>
    child.parentId.any (context.root · = parentRoot) && holdsARange context child)

/-- What the loop of `_gapCounts` has seen, and counted. -/
structure Gaps where
  counted : List (String × String)
  gaps : List (String × ℕ)

def countChild (children : List MediaItem) (state : Gaps) (child : MediaItem) : Gaps :=
  match child.parentId with
  | none => state
  | some parentId =>
    let parentRoot := context.root parentId
    let childRoot := context.root child.id
    if state.counted.contains (parentRoot, childRoot) then state
    else
      let counted := state.counted ++ [(parentRoot, childRoot)]
      -- of the copies of the child, those that were read
      let copies := (context.members child.id).filterMap fun id => children.find? (·.id = id)
      if copies.any (·.ignored) then { state with counted := counted }
      else if copies.any (holds context) ∨
          insideARange child (rangesUnder context children parentRoot) then
        { state with counted := counted }
      else ⟨counted, OrderedMap.modify state.gaps parentRoot fun gaps => gaps.getD 0 + 1⟩

/-- `_gapCounts`: how many children each group is short of, by group root. -/
def gapCounts (memberIds : List String) : List (String × ℕ) :=
  let children := catalogue.findChildDigests memberIds
  (children.foldl (countChild context children) ⟨[], []⟩).gaps

/-! ### Skeletons -/

/-- One group before its rows are read. -/
structure GroupSkeleton where
  memberIds : List String
  sync : SyncState
  held : Bool
  missingCount : ℕ

/-- The components of some rows, each once, in the order their first rows came. -/
def components (seeds : List MediaItem) : List (String × List String) :=
  seeds.foldl (fun byRoot seed =>
    if byRoot.any (·.1 = context.root seed.id) then byRoot
    else byRoot ++ [(context.root seed.id, context.members seed.id)]) []

def skeletons (seeds : List MediaItem) (withGaps : Bool) : List GroupSkeleton :=
  let byRoot := components context seeds
  let gaps := if withGaps then gapCounts catalogue context (byRoot.flatMap (·.2)) else []
  byRoot.map fun (root, memberIds) =>
    let members := rowsOf catalogue memberIds
    { memberIds := memberIds
      sync := groupStateOf members context.isLocal
      held := members.any (holds context)
      missingCount := (OrderedMap.get gaps root).getD 0 }

/-! ### Filters -/

/-- "Hide what I already have": only when there is nothing left to fetch beneath it either. -/
def hideOwned (skeletons : List GroupSkeleton) : List GroupSkeleton :=
  skeletons.filter fun skeleton => !skeleton.held || 0 < skeleton.missingCount

/-- The reasons `_actionable` is asked with. -/
structure Actionable where
  gaps : Bool
  upgrades : Bool

/-- `_actionable`: a gap beneath them, or a copy worth having somewhere else; `absent` and `better`
are what `_inStates` answers. -/
def actionable (wanted : Actionable) (absent better : GroupSkeleton → Bool)
    (skeletons : List GroupSkeleton) : List GroupSkeleton :=
  skeletons.filter fun skeleton =>
    (wanted.gaps && (0 < skeleton.missingCount || absent skeleton)) ||
      (wanted.upgrades && better skeleton)

end MediaCenterSync.MediaGroups
