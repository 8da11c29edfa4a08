import Mathlib.Data.List.Sort
import Mathlib.Data.Rat.Defs

/-!
# The sources of a transfer

A transfer names the item it was planned for.  What may feed it is that item and every copy the
match table pairs with it, unless the pair is a conflict between two contents; the services that
hold them are ordered by priority (`resolveSources`).

The match table is a list of rows in the order it is read.  A row names two items, the one a
correlation pass was walking first, so a pair may have a row in each direction; `byOther` keeps
the last one read for each copy.
-/

namespace MediaCenterSync.SyncManager

/-! ### Data -/

inductive SyncState where
  | LOCAL_ONLY
  | MISSING
  | AWAITING_INDEX
  | NOT_INDEXED
  | IN_SYNC
  | OUTDATED
  | CONFLICT
  | SYNCING
  | UNKNOWN
deriving DecidableEq, Repr

inductive TransferTransport where
  | HTTP_RANGE
  | PEER_DIRECT
deriving DecidableEq, Repr

inductive MediaServiceType where
  | JELLYFIN
  | PLEX
  | OVERSEERR
deriving DecidableEq, Repr

structure MediaFileInfo where
  size : ℕ
  contentId : Option String
  checksum : Option String
deriving DecidableEq, Repr

structure MediaItem where
  id : String
  serviceId : String
  externalId : String
  file : Option MediaFileInfo
deriving DecidableEq, Repr

structure MediaService where
  id : String
  name : String
  type : MediaServiceType
  baseUrl : String
  token : Option String
  username : Option String
  password : Option String
  priority : Int
  peerId : Option String
deriving Repr

/-- A row of the match table; `confirmedAt` is a time. -/
structure MediaMatch where
  localItemId : Option String
  remoteItemId : String
  confidence : ℚ
  state : SyncState
  confirmedAt : Option ℕ
deriving DecidableEq, Repr

structure ServiceConnection where
  id : String
  type : MediaServiceType
  baseUrl : String
  token : Option String
  username : Option String
  password : Option String
deriving DecidableEq, Repr

structure TransferSourceRef where
  serviceId : String
  serviceName : String
  peerId : Option String
  transport : TransferTransport
  connection : Option ServiceConnection
  externalId : String
  contentId : Option String
  sizeHint : Option ℕ
deriving DecidableEq, Repr

/-- What the gateway knows: the items, the services, and the match table as it is read. -/
structure Catalogue where
  items : List MediaItem
  services : List MediaService
  matchRows : List MediaMatch
deriving Repr

/-! ### Contents -/

def contentKeys : Option MediaFileInfo → List String
  | none => []
  | some file =>
    (file.checksum.filter (· ≠ "")).toList.map ("checksum:" ++ ·) ++
      (file.contentId.filter (· ≠ "")).toList.map ("content:" ++ ·)

/-- Two files are the same bytes when anything that identifies their content agrees. -/
def sameContent (left right : Option MediaFileInfo) : Bool :=
  (contentKeys left).any (contentKeys right).contains

def interchangeable (m : MediaMatch) (left right : MediaItem) : Bool :=
  m.state ≠ .CONFLICT || sameContent left.file right.file

/-! ### Correlated copies -/

/-- What is known of each other item, by its identifier: the last row read. -/
abbrev ByOther := String → Option MediaMatch

/-- `Map.set` -/
def ByOther.set (map : ByOther) (id : String) (m : MediaMatch) : ByOther :=
  Function.update map id (some m)

/-- The body of the loop over the rows. -/
def noteMatch (itemId : String) (map : ByOther) (m : MediaMatch) : ByOther :=
  let map := match m.localItemId with
    | some localItemId => if localItemId ≠ itemId then map.set localItemId m else map
    | none => map
  if m.remoteItemId ≠ itemId then map.set m.remoteItemId m else map

/-- The rows that name an item, folded in the order they are read. -/
def byOther (matchRows : List MediaMatch) (itemId : String) : ByOther :=
  (matchRows.filter fun m => m.localItemId = some itemId ∨ m.remoteItemId = itemId).foldl
    (noteMatch itemId) fun _ => none

/-- The copies correlated with an item that can serve its bytes. -/
def correlatedItems (catalogue : Catalogue) (item : MediaItem) : List MediaItem :=
  let map := byOther catalogue.matchRows item.id
  catalogue.items.filter fun other =>
    match map other.id with
    | some m => interchangeable m item other
    | none => false

/-! ### Sources -/

def serviceOf (catalogue : Catalogue) (item : MediaItem) : Option MediaService :=
  catalogue.services.find? (·.id = item.serviceId)

/-- Everything that can feed a transfer of an item, with its service, best first. -/
def candidates (catalogue : Catalogue) (itemId : String) : List (MediaItem × MediaService) :=
  match catalogue.items.find? (·.id = itemId) with
  | none => []
  | some item =>
    ((item :: correlatedItems catalogue item).filterMap fun candidate =>
      (serviceOf catalogue candidate).map (candidate, ·)).insertionSort
        fun left right => left.2.priority ≤ right.2.priority

/-- What the engine is told of one candidate. -/
def toRef (candidate : MediaItem) (service : MediaService) : TransferSourceRef where
  serviceId := service.id
  serviceName := service.name
  peerId := service.peerId
  transport := if service.peerId = none then .HTTP_RANGE else .PEER_DIRECT
  connection :=
    if service.peerId = none then
      some ⟨service.id, service.type, service.baseUrl, service.token, service.username,
        service.password⟩
    else none
  externalId := candidate.externalId
  contentId := candidate.file.bind (·.contentId)
  sizeHint := candidate.file.map (·.size)

/-- **The sources of a transfer** of an item. -/
def resolveSources (catalogue : Catalogue) (itemId : String) : List TransferSourceRef :=
  (candidates catalogue itemId).map fun entry => toRef entry.1 entry.2

end MediaCenterSync.SyncManager
