import Mathlib.Data.String.Basic
import MediaCenterSync.Matching.Service
import MediaCenterSync.PeerExchange.Catalogue
import MediaCenterSync.Share.Visibility

/-!
# The side of the gateway another gateway talks to

A peer calls a method with parameters nothing is known about; the answer is a value, a stream or an
error.  What the caller may see is decided by the share policies on every route: an item is looked
up and then the policy of its library, and a hidden item answers as a missing one does.

What the gateway cannot answer from its tables is a `World`: the links to its friends, the media
servers behind it, and the tokens it signs.
-/

namespace MediaCenterSync.PeerExchange

open Matching (MediaKind MediaFileInfo)
open Peers Share

/-- How many rows one catalogue answer carries. -/
def CATALOGUE_PAGE : ℕ := 500

/-- A parameter as it is read off the wire: a string, a finite number, or anything else. -/
inductive Value where
  | string (value : String)
  | number (value : ℚ)
  | other
deriving DecidableEq

abbrev Params := List (String × Value)

def Params.string (params : Params) (key : String) : Option String :=
  match params.lookup key with
  | some (.string value) => if value = "" then none else some value
  | _ => none

def Params.number (params : Params) (key : String) : Option ℚ :=
  match params.lookup key with
  | some (.number value) => some value
  | _ => none

/-- `_itemId`: the item is named by the identifier we published for it. -/
def Params.itemId (params : Params) : String := (params.string "externalId").getD ""

structure ByteRange where
  start : ℚ
  stop : ℚ

def Params.range (params : Params) : Option ByteRange := do
  let start ← params.number "start"
  let stop ← params.number "end"
  if stop < start then none else some ⟨start, stop⟩

structure MediaItem where
  id : String
  libraryId : String
  serviceId : String
  externalId : String
  kind : MediaKind
  title : String
  year : Option ℤ
  seasonNumber : Option ℤ
  episodeNumber : Option ℤ
  episodeNumberEnd : Option ℤ
  parentId : Option String
  externalIds : List (String × Value)
  file : Option MediaFileInfo
  quality : Option String
  updatedAt : ℤ
deriving DecidableEq

/-- An item as a peer is shown it. -/
structure CatalogueEntry where
  externalId : String
  libraryId : String
  kind : MediaKind
  title : String
  year : Option ℤ
  seasonNumber : Option ℤ
  episodeNumber : Option ℤ
  episodeNumberEnd : Option ℤ
  parentExternalId : Option String
  externalIds : List (String × String)
  contentId : Option String
  size : Option ℚ
  quality : Option String
deriving DecidableEq

structure PeerLibrary where
  externalId : String
  name : String
  kind : LibraryKind
  itemCount : ℕ
deriving DecidableEq

structure PeerIntroduction where
  token : String
  fingerprint : String
  address : Option String
  expiresAt : ℤ
  depth : ℤ
deriving DecidableEq

inductive Answer where
  | entries (entries : List CatalogueEntry)
  | libraries (libraries : List PeerLibrary)
  | holders (holders : List ContentHolder)
  | introduction (introduction : PeerIntroduction)
  | description (entry : CatalogueEntry) (size : Option ℚ) (resumable : Bool)
  | revalidation (externalId : String) (file : Option MediaFileInfo)
  /-- Null, which means all of it. -/
  | pieces
deriving DecidableEq

/-- Why a call failed: a key of ours, or what a media server's handler threw. -/
inductive Failure where
  | key (key : ErrorKey)
  | handler (message : String)
deriving DecidableEq

structure Gateway where
  peers : List Peer
  items : List MediaItem
  shares : Shares
  itemIds : (items.map (·.id)).Nodup

/-- What lies outside the gateway's tables. -/
structure World where
  /-- `new Date(raw).getTime()`, where it is a number. -/
  parseDate : String → Option ℤ
  isLinked : String → Bool
  /-- What a friend answers to `catalogue.holders`: the friend, the file and the budget. -/
  askHolders : String → String → ℤ → Option (List HolderAnswer)
  /-- The file a media server has for an item now; the outer `none` is a call that failed. -/
  getItem : MediaService → String → Option (Option MediaFileInfo)
  openStream : MediaService → String → MediaFileInfo → Option ByteRange →
    Except Failure (List UInt8)
  /-- A token for subject and holder at that distance, and when it expires. -/
  issue : String → String → ℤ → String × ℤ

def entry (item : MediaItem) : CatalogueEntry :=
  { externalId := item.id
    libraryId := item.libraryId
    kind := item.kind
    title := item.title
    year := item.year
    seasonNumber := item.seasonNumber
    episodeNumber := item.episodeNumber
    episodeNumberEnd := item.episodeNumberEnd
    parentExternalId := item.parentId
    -- `provider` is the identifier the media server uses internally.
    externalIds := item.externalIds.filterMap fun (key, value) =>
      match value with
      | .string value => if key ≠ "provider" ∧ value ≠ "" then some (key, value) else none
      | _ => none
    contentId := item.file.bind (·.contentId)
    size := item.file.bind (·.size)
    quality := item.quality }

namespace Gateway

variable (w : World) (g : Gateway)

def requirePeer (id : String) : Except Failure Peer :=
  match g.peers.find? (·.id = id) with
  | none => .error (.key .PEER_NOT_FOUND)
  | some peer => .ok peer

def itemsOf (policies : List CataloguePolicy) : List MediaItem :=
  g.items.filter (·.libraryId ∈ policies.map (·.libraryId))

def visible (peerId itemId : String) : Except Failure (MediaItem × CataloguePolicy) := do
  let peer ← g.requirePeer peerId
  match g.items.find? (·.id = itemId) with
  | none => .error (.key .MEDIA_NOT_FOUND)
  | some item =>
    match (g.shares.visiblePolicies peer).find? (·.libraryId = item.libraryId) with
    -- Not found, not forbidden.
    | none => .error (.key .MEDIA_NOT_FOUND)
    | some policy => .ok (item, policy)

def since (raw : Option String) : Option ℤ := raw.bind w.parseDate

/-- The rows of one page, in the order of their stamps. -/
def pageOf (policies : List CataloguePolicy) (page : ℕ) : List MediaItem :=
  let sorted := (g.itemsOf policies).insertionSort fun left right =>
    toLex (left.updatedAt, left.id) ≤ toLex (right.updatedAt, right.id)
  (sorted.drop ((page - 1) * CATALOGUE_PAGE)).take CATALOGUE_PAGE

def catalogue (peerId : String) (sinceRaw : Option String) (page : ℚ) (libraryId : Option String) :
    Except Failure (List CatalogueEntry) := do
  let peer ← g.requirePeer peerId
  let wanted := (g.shares.visiblePolicies peer).filter fun policy =>
    libraryId = none ∨ libraryId = some policy.libraryId
  let items := g.pageOf wanted (max 1 ⌊page⌋).toNat
  let changed (item : MediaItem) : Bool := (since w sinceRaw).all (· ≤ item.updatedAt)
  return (items.filter changed).map entry

def libraries (peerId : String) : Except Failure (List PeerLibrary) := do
  let peer ← g.requirePeer peerId
  let policies := g.shares.visiblePolicies peer
  let rows := g.shares.libraries.filter (·.id ∈ policies.map (·.libraryId))
  return rows.map fun library =>
    { externalId := library.id
      name := library.alias.getD library.name
      kind := library.kind
      itemCount := library.itemCount }

def findLinked : List Peer := (g.peers.filter (·.isSettled)).insertionSort (·.name ≤ ·.name)

/-- The peers a search on behalf of `peer` may ask. -/
def friendsFor (peer : Peer) : List CataloguePeer :=
  (g.findLinked.filter (·.id ≠ peer.id)).map fun candidate =>
    { id := candidate.id
      name := candidate.name
      trust := candidate.trust
      viaPeerId := candidate.viaPeerId
      maxDepth := candidate.maxDepth }

def reach (budget : ℚ) : ℤ := min (max 0 (trunc budget)) (g.shares.settings.peerMaxDepth - 1)

/-- The holders `announce` answers with. -/
def announce (peerId contentId : String) (budget : ℚ) : Except Failure (List ContentHolder) := do
  let peer ← g.requirePeer peerId
  -- A caller who may see none of our libraries is asked nothing on their behalf.
  if g.shares.visiblePolicies peer = [] then return []
  let reach := g.reach budget
  return if 0 < reach then
    findHolders w.isLinked (w.askHolders · contentId) (g.friendsFor peer) reach
  else []

/-- `holders`: everybody we know of who holds the file, ourselves included. -/
def holders (peerId contentId : String) (budget : ℚ) : Except Failure (List ContentHolder) := do
  if contentId = "" then return []
  let peer ← g.requirePeer peerId
  let answer ← g.announce w peerId contentId budget
  let mine := g.itemsOf (g.shares.visiblePolicies peer)
  let own := mine.filterMap fun item => do
    let file ← item.file
    -- Distance zero: the caller adds their own hop.
    if file.contentId = some contentId then
      some
        { peerId := "", peerName := "", serviceId := item.serviceId, externalId := item.id
          size := file.size, trust := .FRIEND, depth := 0, viaPeerId := none }
    else none
  return own ++ answer

/-- `_findHolder`: a peer named by our row identifier or by their fingerprint. -/
def findHolder (holderId fingerprint : Option String) : Option Peer :=
  match holderId with
  | some id => g.peers.find? (·.id = id)
  | none => fingerprint.bind fun fingerprint => g.peers.find? (·.fingerprint = fingerprint)

def introduce (peerId : String) (holderId fingerprint : Option String) :
    Except Failure PeerIntroduction := do
  let caller ← g.requirePeer peerId
  match g.findHolder holderId fingerprint with
  | none => .error (.key .PEER_INTRODUCTION_REFUSED)
  | some holder =>
    if holder.id = caller.id ∨ !holder.isSettled then .error (.key .PEER_INTRODUCTION_REFUSED)
    else if caller.readingForbidden then .error (.key .PEER_INTRODUCTION_REFUSED)
    else
      let ceiling := g.shares.settings.peerMaxDepth
      let depth := caller.depth + holder.depth
      -- The smallest budget along the chain wins.
      let allowed := min ceiling (min (holder.maxDepth.getD ceiling) (caller.maxDepth.getD ceiling))
      if allowed < depth then .error (.key .PEER_INTRODUCTION_REFUSED)
      else
        let (token, expiresAt) := w.issue caller.fingerprint holder.fingerprint depth
        .ok ⟨token, holder.fingerprint, holder.address, expiresAt, depth⟩

def describe (peerId itemId : String) : Except Failure CatalogueEntry := do
  let (item, _) ← g.visible peerId itemId
  return entry item

/-- `findWithSecrets` -/
def findService (id : String) : Except Failure MediaService :=
  match g.shares.services.find? (·.id = id) with
  | none => .error (.key .SERVICE_NOT_FOUND)
  | some service => .ok service

/-- `revalidate`: what the media server says it holds now. -/
def revalidate (peerId itemId : String) : Except Failure (String × Option MediaFileInfo) := do
  let (item, _) ← g.visible peerId itemId
  let service ← g.findService item.serviceId
  match w.getItem service item.externalId with
  | none => .error (.key .SERVICE_UNREACHABLE)
  | some file => .ok (item.id, file)

/-- `content`: the bytes, ranged. -/
def content (peerId itemId : String) (range : Option ByteRange) :
    Except Failure (List UInt8) := do
  let (item, _) ← g.visible peerId itemId
  match item.file with
  | none => .error (.key .MEDIA_NOT_FOUND)
  | some file =>
    let service ← g.findService item.serviceId
    w.openStream service item.externalId file range

/-- `call`: a method call from a peer, answered with a value. -/
def call (peerId method : String) (params : Params) : Except Failure Answer :=
  match method with
  | "catalogue.list" =>
    .entries <$> g.catalogue w peerId (params.string "since") ((params.number "page").getD 1)
      (params.string "libraryId")
  | "catalogue.libraries" => .libraries <$> g.libraries peerId
  | "catalogue.holders" =>
    .holders <$> g.holders w peerId ((params.string "contentId").getD "")
      ((params.number "depth").getD 0)
  | "peer.introduce" =>
    .introduction <$> g.introduce w peerId (params.string "holderId") (params.string "fingerprint")
  | "media.describe" =>
    (fun entry => .description entry entry.size true) <$> g.describe peerId params.itemId
  | "media.revalidate" =>
    (fun answer => .revalidation answer.1 answer.2) <$> g.revalidate w peerId params.itemId
  | "swarm.bitfield" => .ok .pieces
  | _ => .error (.key .PEER_METHOD_UNSUPPORTED)

/-- `stream`: a method call whose answer is bytes. -/
def stream (peerId method : String) (params : Params) : Except Failure (List UInt8) :=
  if method = "media.range" ∨ method = "swarm.piece" then
    g.content w peerId params.itemId params.range
  else .error (.key .PEER_METHOD_UNSUPPORTED)

end Gateway

end MediaCenterSync.PeerExchange

/-!
## A search across gateways

While a gateway answers `catalogue.holders` it sends the same request to its friends, who are
gateways too.  `Gateway.requests` is what one gateway sends for one request, `Network.sent` the same
between the gateways of a network, and `Network.answer` the search as far as `fuel` requests deep.
-/

namespace MediaCenterSync.PeerExchange

open Peers Share

namespace Gateway

variable (w : World) (g : Gateway)

def asked (peerId contentId : String) (budget : ℚ) : List CataloguePeer :=
  match g.requirePeer peerId with
  | .error _ => []
  | .ok peer =>
    if contentId = "" ∨ g.shares.visiblePolicies peer = [] ∨ g.reach budget ≤ 0 then []
    else ((g.friendsFor peer).filter (·.trust = .FRIEND)).filter fun friend => w.isLinked friend.id

/-- The requests that are sent while one is answered: the friend, and the budget they are given. -/
def requests (peerId contentId : String) (budget : ℚ) : List (CataloguePeer × ℤ) :=
  (g.asked w peerId contentId budget).map fun friend =>
    (friend, limitFor (g.reach budget) friend - 1)

end Gateway

/-- Gateways that are linked to each other. -/
structure Network (Node : Type*) where
  gateway : Node → Gateway
  world : Node → World
  peerOf : Node → String → Node
  /-- The row that gateway keeps of us. -/
  callerOf : Node → String → String

/-- A `catalogue.holders` request, at the gateway that answers it. -/
structure Request (Node : Type*) where
  node : Node
  peerId : String
  contentId : String
  budget : ℚ

namespace Network

variable {Node : Type*} (net : Network Node)

def forwarded (r : Request Node) (friendId : String) (budget : ℤ) : Request Node :=
  ⟨net.peerOf r.node friendId, net.callerOf r.node friendId, r.contentId, budget⟩

def sent (r : Request Node) : List (Request Node) :=
  ((net.gateway r.node).requests (net.world r.node) r.peerId r.contentId r.budget).map
    fun (friend, budget) => net.forwarded r friend.id budget

def Sends (r r' : Request Node) : Prop := r' ∈ net.sent r

def ceiling (r : Request Node) : ℤ := (net.gateway r.node).shares.settings.peerMaxDepth

/-- The answer to a request, where no chain of requests it gives rise to is `fuel` long. -/
def answer : (fuel : ℕ) → Request Node → Option (Except Failure (List ContentHolder))
  | 0, _ => none
  | fuel + 1, r =>
    if (net.sent r).all fun r' => (answer fuel r').isSome then
      let world := net.world r.node
      let ask (friendId : String) (_ : String) (budget : ℤ) : Option (List HolderAnswer) :=
        -- A request that fails is one without holders.
        ((answer fuel (net.forwarded r friendId budget)).bind (·.toOption)).map (·.map (·.toAnswer))
      some ((net.gateway r.node).holders { world with askHolders := ask } r.peerId r.contentId
        r.budget)
    else none

end Network

end MediaCenterSync.PeerExchange

/-!
## Refreshing a friend's library

`refreshLibrary` walks the catalogue of a friend's library from a cursor, which is our own stamp of
the moment the last walk was over.  Meanwhile the rows over there are written, and each write stamps
its row, with the clock as their database keeps it: to the millisecond, or cut to the second.  A
`Refreshing` is the two sides together, with one clock.
-/

namespace MediaCenterSync.PeerExchange

open Peers Share

namespace Gateway

/-- The policies a catalogue is made from: of what the peer may see, what was asked for. -/
def wanted (g : Gateway) (peer : Peer) (libraryId : Option String) : List CataloguePolicy :=
  (g.shares.visiblePolicies peer).filter fun policy =>
    libraryId = none ∨ libraryId = some policy.libraryId

def changed (since : Option ℤ) (item : MediaItem) : Bool := since.all (· ≤ item.updatedAt)

/-- `catalogue`, once the caller and the parameters were read. -/
def cataloguePage (g : Gateway) (policies : List CataloguePolicy) (since : Option ℤ) (page : ℕ) :
    List CatalogueEntry :=
  ((g.pageOf policies page).filter (changed since)).map entry

/-- `save`: the row is replaced or inserted, and stamped. -/
def write (g : Gateway) (item : MediaItem) (stamp : ℤ) : Gateway :=
  let saved := { item with updatedAt := stamp }
  if h : saved.id ∈ g.items.map (·.id) then
    { g with
      items := overwrite (·.id) g.items saved
      itemIds := (map_overwrite (·.id) g.items saved).symm ▸ g.itemIds }
  else
    { g with
      items := g.items ++ [saved]
      itemIds := nodup_map_concat g.itemIds h }

end Gateway

/-- A row that was written and that no refresh contains yet. -/
structure Update where
  itemId : String
  /-- How many writes came before. -/
  serial : ℕ
  /-- How many refreshes had begun by then. -/
  begun : ℕ

/-- A page on its way back: its rows, and how many writes there had been when they were read. -/
structure PageAnswer where
  entries : List CatalogueEntry
  writes : ℕ

structure Refreshing where
  gateway : Gateway
  clock : ℤ
  cursor : Option ℤ
  walk : Option (PageWalk CatalogueEntry)
  answer : Option PageAnswer
  /-- How many rows were written, how many refreshes were begun, and the last that was complete. -/
  writes : ℕ
  begun : ℕ
  completed : ℕ
  /-- A row was written since the walk had its first page read. -/
  moved : Bool
  /-- The updates of the library that no refresh contains. -/
  waiting : List Update

namespace Refreshing

inductive Event where
  | tick (milliseconds : ℕ)
  /-- A row of theirs is written, with the stamp their database gives it. -/
  | write (item : MediaItem) (stamp : ℤ)
  | begin
  /-- The page that was asked for is read from their tables. -/
  | read
  | receive
  /-- The page that was asked for does not come back. -/
  | fail

/-- The walk had a page read. -/
def isUnderWay (s : Refreshing) : Bool :=
  match s.walk with
  | none => false
  | some walk => 1 < walk.page ∨ s.answer.isSome

/-- The walk goes on, or `refreshLibrary` returns: the cursor only moves on a walk that finished. -/
def advance (s : Refreshing) (outcome : PageWalk CatalogueEntry ⊕ List CatalogueEntry × Bool) :
    Refreshing :=
  match outcome with
  | .inl walk => { s with walk := some walk, answer := none }
  | .inr (_, true) =>
    { s with walk := none, answer := none, cursor := some s.clock, completed := s.begun }
  | .inr (_, false) => { s with walk := none, answer := none }

/-- What a page contains is not waited for any more, unless it was written since. -/
def deliver (s : Refreshing) (answer : PageAnswer) : Refreshing :=
  { s with
    waiting := s.waiting.filter fun update =>
      ¬ (update.serial < answer.writes ∧ update.itemId ∈ answer.entries.map (·.externalId)) }

/-- One step of a refreshing of the library, or of every library, by that peer. -/
def step (peer : Peer) (libraryId : Option String) (s : Refreshing) : Event → Option Refreshing
  | .tick milliseconds => some { s with clock := s.clock + milliseconds }
  | .write item stamp =>
    -- A row stays in its library, and is stamped with no time to come.
    if (∀ row ∈ s.gateway.items, row.id = item.id → row.libraryId = item.libraryId) ∧
        stamp ≤ s.clock then
      some { s with
        gateway := s.gateway.write item stamp
        writes := s.writes + 1
        moved := s.moved ∨ s.isUnderWay
        waiting :=
          if item.libraryId ∈ (s.gateway.wanted peer libraryId).map (·.libraryId) then
            s.waiting ++ [⟨item.id, s.writes, s.begun⟩]
          else s.waiting }
    else none
  | .begin =>
    match s.walk with
    | some _ => none
    | none => some { s with walk := some .start, begun := s.begun + 1, moved := false }
  | .read =>
    match s.walk, s.answer with
    | some walk, none =>
      let entries := s.gateway.cataloguePage (s.gateway.wanted peer libraryId) s.cursor walk.page
      some { s with answer := some ⟨entries, s.writes⟩ }
    | _, _ => none
  | .receive =>
    match s.walk, s.answer with
    | some walk, some answer => some ((s.deliver answer).advance (walk.next (some answer.entries)))
    | _, _ => none
  | .fail =>
    match s.walk with
    | some walk => some (s.advance (walk.next none))
    | none => none

end Refreshing

end MediaCenterSync.PeerExchange
