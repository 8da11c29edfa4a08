import Mathlib.Data.List.Sort
import Mathlib.Data.Rat.Floor
import MediaCenterSync.Peers.Entity

/-!
# What a peer is asked

A catalogue is asked page by page, until a page comes back empty.  The holders of a file are asked
of each friend we are linked to, with a budget of their own; what a friend answers is stamped with
the friend's name and one hop more than the friend reported.
-/

namespace MediaCenterSync.PeerExchange

open Peers

/-- `Math.trunc` -/
def trunc (q : ℚ) : ℤ := if 0 ≤ q then ⌊q⌋ else ⌈q⌉

/-! ### The catalogue -/

/-- How many pages of a peer's catalogue one import will walk. -/
def MAX_CATALOGUE_PAGES : ℕ := 500

/-- A walk through the pages: the page to ask for, and what the ones before it held. -/
structure PageWalk (Entry : Type*) where
  page : ℕ
  entries : List Entry

namespace PageWalk

variable {Entry : Type*}

def start : PageWalk Entry := ⟨1, []⟩

/-- What one answer makes of a walk: another page is asked for, or the walk is over and `complete`
or not.  `none` is a request that failed. -/
def next (walk : PageWalk Entry) (answer : Option (List Entry)) :
    PageWalk Entry ⊕ List Entry × Bool :=
  match answer with
  | none => .inr (walk.entries, false)
  | some [] => .inr (walk.entries, true)
  | some rows =>
    let entries := walk.entries ++ rows
    if walk.page < MAX_CATALOGUE_PAGES then .inl ⟨walk.page + 1, entries⟩
    -- The ceiling, which is a peer answering full pages for ever.
    else .inr (entries, false)

end PageWalk

/-- `fetchCatalogue`, once `fuel` pages may still be asked for. -/
def walkPages {Entry : Type*} (ask : ℕ → Option (List Entry)) :
    (fuel : ℕ) → PageWalk Entry → List Entry × Bool
  | 0, walk => (walk.entries, false)
  | fuel + 1, walk =>
    match walk.next (ask walk.page) with
    | .inl walk => walkPages ask fuel walk
    | .inr answer => answer

/-- `fetchCatalogue`: what was collected, and whether the walk came to an end. -/
def fetchCatalogue {Entry : Type*} (ask : ℕ → Option (List Entry)) : List Entry × Bool :=
  walkPages ask MAX_CATALOGUE_PAGES .start

/-! ### The holders of a file -/

structure ContentHolder where
  peerId : String
  peerName : String
  serviceId : String
  externalId : String
  size : Option ℚ
  trust : PeerTrust
  /-- How many hops away they are, counted from us. -/
  depth : ℤ
  viaPeerId : Option String
deriving DecidableEq

/-- A holder as a peer answers it; a depth that is not a finite number is `none`. -/
structure HolderAnswer where
  peerId : String
  peerName : Option String
  serviceId : String
  externalId : String
  size : Option ℚ
  depth : Option ℚ

def ContentHolder.toAnswer (holder : ContentHolder) : HolderAnswer :=
  { peerId := holder.peerId
    peerName := some holder.peerName
    serviceId := holder.serviceId
    externalId := holder.externalId
    size := holder.size
    depth := some holder.depth }

/-- The columns of a peer a search reads. -/
structure CataloguePeer where
  id : String
  name : String
  trust : PeerTrust
  viaPeerId : Option String
  maxDepth : Option ℤ
deriving DecidableEq

/-- `_attribute`: who an answer came through, and how far away that puts it. -/
def attributed (via : CataloguePeer) (holder : HolderAnswer) : ContentHolder :=
  let isSelf : Bool := holder.peerId = via.id ∨ holder.peerId = ""
  let reported := (holder.depth.map trunc).getD 1
  let depth := if isSelf then 1 else 1 + max 1 reported
  { peerId := if isSelf then via.id else holder.peerId
    peerName := if isSelf then via.name else holder.peerName.getD "unknown"
    serviceId := holder.serviceId
    externalId := holder.externalId
    size := holder.size
    trust := if depth = 1 then .FRIEND else .FRIEND_OF_FRIEND
    depth := depth
    viaPeerId := if isSelf then none else some via.id }

def limitFor (maxDepth : ℤ) (peer : CataloguePeer) : ℤ := max 1 (peer.maxDepth.getD maxDepth)

/-- The holders found so far, one for each file; the nearer attribution wins. -/
def keepNearest (holders : List ContentHolder) (holder : ContentHolder) : List ContentHolder :=
  let key (holder : ContentHolder) :=
    holder.peerId ++ ":" ++ holder.serviceId ++ ":" ++ holder.externalId
  if holders.any (key · = key holder) then
    holders.map fun known =>
      if key known = key holder ∧ holder.depth < known.depth then holder else known
  else holders ++ [holder]

/-- The friends a search asks, each with the budget it is sent. -/
def searchRequests (isLinked : String → Bool) (maxDepth : ℤ) (peers : List CataloguePeer) :
    List (CataloguePeer × ℤ) :=
  ((peers.filter (·.trust = .FRIEND)).filter fun peer => isLinked peer.id).map fun peer =>
    -- The friend being asked is already the first hop.
    (peer, limitFor maxDepth peer - 1)

/-- `findHolders`: everybody who holds a file, out to `maxDepth` hops, nearest first.  `ask` is what
a friend answers to a budget, `none` where the request fails. -/
def findHolders (isLinked : String → Bool) (ask : String → ℤ → Option (List HolderAnswer))
    (peers : List CataloguePeer) (maxDepth : ℤ) : List ContentHolder :=
  let answers := (searchRequests isLinked maxDepth peers).flatMap fun (peer, budget) =>
    ((ask peer.id budget).getD []).map (attributed peer)
  ((answers.filter (·.depth ≤ maxDepth)).foldl keepNearest []).insertionSort fun left right =>
    left.depth ≤ right.depth

end MediaCenterSync.PeerExchange
