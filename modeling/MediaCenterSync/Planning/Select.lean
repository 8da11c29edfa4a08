import MediaCenterSync.Correlation.Matches
import MediaCenterSync.Lib.OrderedMap
import MediaCenterSync.Placement.Service

/-!
# What a request covers that nothing local holds

A run begins with the rows its scope covers (`candidates`).  Those that carry a file are gathered
into one group for each thing there is to pull (`groups`), and every group with a remote row in it
gives one transfer: from the row whose service comes first, against the local copy of it, if there
is one.  What the filter lets through is wanted (`select`).

A catalogue lists its services in the order of their priority and its rows in the order the database
gives them in; a path is the list of its components.  `toLowerCase` is the case folding of the
strings' own language.
-/

namespace MediaCenterSync.Planning

open Correlation (MediaMatch)
open Matching (ExternalIds MatchCandidate MediaKind SyncState)
open OrderedMap (groupBy)
open Placement (Folder Settings)
open TransferManager (Dir PlacedBy)

/-! ### Data -/

structure MediaFile where
  /-- Where the service says it is; `none` when it says nothing. -/
  path : Option Dir
  size : ℕ
  videoCodec : Option String
  width : Option ℚ
  height : Option ℚ
  durationMs : Option ℚ
  bitrate : Option ℚ
  contentId : Option String
  checksum : Option String
  edition : Option String
deriving DecidableEq

/-- A row of the catalogue. -/
structure MediaItem where
  id : String
  serviceId : String
  libraryId : String
  peerId : Option String
  parentId : Option String
  kind : MediaKind
  title : String
  normalizedTitle : String
  year : Option ℤ
  seasonNumber : Option ℤ
  episodeNumber : Option ℤ
  externalIds : ExternalIds
  file : Option MediaFile
  syncState : SyncState
  /-- The folder somebody pinned on this row. -/
  targetFolder : Option Folder
deriving DecidableEq

/-- One directory of a service, and where the gateway reaches it. -/
structure RootMapping where
  remoteRoot : Dir
  localRoot : Dir

structure MediaService where
  id : String
  name : String
  peerId : Option String
  filesMounted : Bool
  rootMappings : List RootMapping

structure Library where
  id : String
  name : String
  serviceId : String
  kind : Placement.LibraryKind
  /-- Roots as the media service reports them. -/
  paths : List Dir
  localPath : Option Dir
  writable : Bool
  isDefaultTarget : Bool

/-- A merged category, and the libraries behind it. -/
structure Category where
  key : String
  libraryIds : List String

structure Catalogue where
  items : List MediaItem
  services : List MediaService
  libraries : List Library
  categories : List Category
  matchRows : List MediaMatch
  /-- The identifier is the key of the rows. -/
  nodup : (items.map (·.id)).Nodup

structure SyncScope where
  categoryKeys : List String
  libraryIds : List String
  rootItemIds : List String
  itemIds : List String

structure SyncFilter where
  kinds : List String
  missingOnly : Bool
  replaceOutdated : Bool
  includeHeld : Bool
  minYear : Option ℤ
  maxBytes : Option ℕ
  titleMatches : Option String

structure RunCeilings where
  maxItems : Option ℕ
  maxBytes : Option ℕ

/-- The plan's fields, overridden by what the request said. -/
structure EffectiveRequest where
  scope : SyncScope
  sourceServiceIds : List String
  preferredLibraryId : Option String
  preferredBy : PlacedBy
  filter : SyncFilter
  ceilings : RunCeilings

/-- What is pulled, the local copy of it, and what the plan says of it. -/
structure WantedItem where
  item : MediaItem
  heldAs : Option MediaItem
  state : SyncState

structure SyncEstimate where
  itemCount : ℕ
  bytes : ℕ
  unbounded : Bool
  truncated : Bool

inductive PlanRefusal where
  | noSource
  | placement (refusal : Placement.Refusal)

def MAX_PLANNED_ITEMS : ℕ := 500

/-- States of a row whose file has landed and is not indexed. -/
def LANDED_SYNC_STATES : List SyncState := [.AWAITING_INDEX, .NOT_INDEXED]

/-! ### Rows -/

def MediaFile.info (file : MediaFile) : Matching.MediaFileInfo where
  size := some file.size
  videoCodec := file.videoCodec
  width := file.width
  height := file.height
  bitrate := file.bitrate
  path := (file.path.map Placement.text).getD ""
  durationMs := file.durationMs
  contentId := file.contentId
  checksum := file.checksum

namespace MediaItem

def candidate (item : MediaItem) : MatchCandidate where
  id := item.id
  serviceId := item.serviceId
  peerId := item.peerId
  parentId := item.parentId
  kind := item.kind
  title := item.title
  normalizedTitle := item.normalizedTitle
  year := item.year
  seasonNumber := item.seasonNumber
  episodeNumber := item.episodeNumber
  externalIds := item.externalIds
  file := item.file.map (·.info)

/-- `file?.size ?? 0` -/
def bytes (item : MediaItem) : ℕ := (item.file.map (·.size)).getD 0

end MediaItem

def versionIdOf (file : Option MediaFile) : Option String :=
  (file.bind (·.contentId)).filter (· ≠ "")

/-- The identities a file can be recognised by, the strongest first. -/
def contentKeys (file : Option MediaFile) : List String :=
  (((file.bind (·.checksum)).filter (· ≠ "")).map ("checksum:" ++ ·)).toList ++
    (((file.bind (·.contentId)).filter (· ≠ "")).map ("content:" ++ ·)).toList

def sameContent (left right : Option MediaFile) : Bool :=
  (contentKeys left).any (· ∈ contentKeys right)

/-- A different cut, which is another version. -/
def isConflicting (left right : MediaItem) : Bool :=
  Matching.isConflicting (left.file.map (·.info)) (right.file.map (·.info))

namespace Catalogue

variable (catalogue : Catalogue)

def find (id : String) : Option MediaItem := catalogue.items.find? (·.id = id)

def findLocal : List MediaService :=
  catalogue.services.filter fun service => service.filesMounted ∧ service.peerId = none

def isLocal (item : MediaItem) : Bool := item.serviceId ∈ catalogue.findLocal.map (·.id)

def childrenOf (ids : List String) : List MediaItem :=
  catalogue.items.filter fun item => item.parentId.any (· ∈ ids)

/-- What a frontier and the rows under it come to, level by level. -/
def below : ℕ → List String → List String → List String
  | 0, seen, _ => seen
  | depth + 1, seen, frontier =>
    let frontier := ((catalogue.childrenOf frontier).map (·.id)).filter (· ∉ seen)
    if frontier = [] then seen else below depth (seen ++ frontier) frontier

/-- Everything under these nodes, the nodes themselves included.  A level that is not the last
finds a row that was not seen. -/
def descendants (rootItemIds : List String) : List String :=
  catalogue.below (catalogue.items.length + 1) rootItemIds rootItemIds

def librariesOfCategory (key : String) : List String :=
  ((catalogue.categories.find? (·.key = key)).map (·.libraryIds)).getD []

/-! ### The scope -/

def sourceOrder (sourceServiceIds : List String) : List String :=
  if sourceServiceIds ≠ [] then sourceServiceIds else catalogue.services.map (·.id)

/-- The libraries a scope names; `none` is no restriction. -/
def scopedLibraries (scope : SyncScope) : Option (List String) :=
  if scope.categoryKeys = [] then
    if scope.libraryIds = [] then none else some scope.libraryIds
  else
    let merged := scope.categoryKeys.flatMap catalogue.librariesOfCategory
    if scope.libraryIds = [] then some merged else some (scope.libraryIds.filter (· ∈ merged))

/-- The items a scope names, subtrees expanded; `none` is no restriction. -/
def scopedItems (scope : SyncScope) : Option (List String) :=
  if scope.rootItemIds = [] then
    if scope.itemIds = [] then none else some scope.itemIds
  else
    let within := catalogue.descendants scope.rootItemIds
    if scope.itemIds = [] then some within else some (scope.itemIds.filter (· ∈ within))

def candidates (effective : EffectiveRequest) : Except PlanRefusal (List MediaItem) :=
  let order := catalogue.sourceOrder effective.sourceServiceIds
  if order = [] then .error .noSource
  else
    let libraryIds := catalogue.scopedLibraries effective.scope
    let itemIds := catalogue.scopedItems effective.scope
    .ok (catalogue.items.filter fun item =>
      item.serviceId ∈ order ∧ libraryIds.all (item.libraryId ∈ ·) ∧ itemIds.all (item.id ∈ ·))

/-! ### What stands in for what -/

/-- A correlated copy can stand in for the other, unless the two are in conflict and not the same
bytes. -/
def interchangeable (row : MediaMatch) (left right : MediaItem) : Bool :=
  row.state ≠ .CONFLICT ∨ sameContent left.file right.file

/-- The other side of a claim about an item. -/
def otherSide (row : MediaMatch) (id : String) : Option String :=
  if row.remoteItemId = id then row.localItemId
  else if row.localItemId = some id then some row.remoteItemId
  else none

/-- `_counterparts`: every item correlated with a candidate that can stand in for it. -/
def counterparts (item : MediaItem) : List MediaItem :=
  catalogue.matchRows.filterMap fun row =>
    (((otherSide row item.id).bind catalogue.find).filter (·.id ≠ item.id)).filter
      (interchangeable row item)

end Catalogue

/-! ### Groups -/

/-- `?? ''` -/
def numberText (number : Option ℤ) : String := (number.map toString).getD ""

/-- What makes two rows the same thing to pull. -/
def identity (item : MediaItem) : String :=
  "|".intercalate [item.kind.value, item.normalizedTitle, numberText item.seasonNumber,
    numberText item.episodeNumber, (versionIdOf item.file).getD ""]

def groups (candidates : List MediaItem) : List (String × List MediaItem) :=
  groupBy identity (fun candidate members => members.getD [] ++ [candidate])
    (candidates.filter (·.file.isSome))

/-- `Number.MAX_SAFE_INTEGER` -/
def MAX_SAFE_INTEGER : ℕ := 2 ^ 53 - 1

/-- The place of a service in the order; the last one counts. -/
def rank (order : List String) (serviceId : String) : ℕ :=
  if serviceId ∈ order then order.length - 1 - order.reverse.idxOf serviceId
  else MAX_SAFE_INTEGER

section

variable (catalogue : Catalogue) (order : List String) (members : List MediaItem)

/-- The remote row that is pulled: the first whose service comes first. -/
def sourceOf : Option MediaItem :=
  ((members.filter (!catalogue.isLocal ·)).insertionSort fun left right =>
    rank order left.serviceId ≤ rank order right.serviceId).head?

/-- Our own copies: local rows of the group that are the same cut, then correlated ones. -/
def localCopies (source : MediaItem) : List MediaItem :=
  (members.filter fun member => catalogue.isLocal member ∧ !isConflicting member source) ++
    (members.flatMap catalogue.counterparts).filter (catalogue.isLocal ·)

def stateOf (source : MediaItem) (heldAs : Option MediaItem) : SyncState :=
  if source.syncState ∈ LANDED_SYNC_STATES then source.syncState
  else if heldAs = none then .MISSING
  else source.syncState

/-- The transfer a group comes to; none without a remote row. -/
def transferOf : Option WantedItem :=
  (sourceOf catalogue order members).map fun source =>
    let heldAs := (localCopies catalogue members source).head?
    ⟨source, heldAs, stateOf source heldAs⟩

end

/-! ### The filter -/

section

variable (toLowerCase : String → String)

/-- `_keeps`: does a candidate survive the filter? -/
def keeps (filter : SyncFilter) (wanted : WantedItem) : Bool :=
  let candidate := wanted.item
  if wanted.state ∈ LANDED_SYNC_STATES then false
  else if wanted.heldAs ≠ none ∧ !filter.includeHeld ∧
      !(filter.replaceOutdated ∧ wanted.state = .OUTDATED) then false
  else if filter.missingOnly ∧ wanted.state ≠ .MISSING then false
  else if filter.kinds ≠ [] ∧ candidate.kind.value ∉ filter.kinds then false
  else if filter.minYear.any (candidate.year.getD 0 < ·) then false
  else if filter.maxBytes.any (· < candidate.bytes) then false
  else if (filter.titleMatches.filter (· ≠ "")).any fun text =>
      !((toLowerCase text).toList <:+: candidate.normalizedTitle.toList) then false
  else true

def wantedOf (catalogue : Catalogue) (effective : EffectiveRequest) (candidates : List MediaItem) :
    List WantedItem :=
  let order := catalogue.sourceOrder effective.sourceServiceIds
  (groups candidates).filterMap fun (_, members) =>
    (transferOf catalogue order members).filter (keeps toLowerCase effective.filter)

def isUnbounded (scope : SyncScope) : Bool :=
  scope.categoryKeys = [] ∧ scope.libraryIds = [] ∧ scope.rootItemIds = [] ∧ scope.itemIds = []

def estimateOf (scope : SyncScope) (wanted : List WantedItem) : SyncEstimate where
  itemCount := wanted.length
  bytes := (wanted.map (·.item.bytes)).sum
  unbounded := isUnbounded scope
  truncated := MAX_PLANNED_ITEMS < wanted.length

/-- `_select`: what the request covers that nothing local holds, and what that comes to. -/
def select (catalogue : Catalogue) (effective : EffectiveRequest) :
    Except PlanRefusal (List WantedItem × SyncEstimate) :=
  (catalogue.candidates effective).map fun candidates =>
    let wanted := wantedOf toLowerCase catalogue effective candidates
    (wanted, estimateOf effective.scope wanted)

end

end MediaCenterSync.Planning
