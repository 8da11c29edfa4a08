import Mathlib.Data.Int.Notation

/-!
# Peers

The row a gateway keeps of another gateway, and the settings that are read with it.  A peer is its
fingerprint; `id` is the row's own identifier, which the links and the services refer to.
-/

namespace MediaCenterSync.Peers

inductive PeerStatus where
  | PENDING
  | LINKED
  | UNREACHABLE
deriving DecidableEq

inductive PeerTrust where
  | FRIEND
  | FRIEND_OF_FRIEND
deriving DecidableEq

inductive PeerDirection where
  | OUTGOING
  | INCOMING
deriving DecidableEq

structure Peer where
  id : String
  name : String
  fingerprint : String
  publicKey : Option String
  status : PeerStatus
  direction : Option PeerDirection
  trust : PeerTrust
  depth : ℤ
  /-- How far introductions through them may travel; `none` follows the gateway's own ceiling. -/
  maxDepth : Option ℤ
  readingForbidden : Bool
  /-- Met through an introduction, and not being kept. -/
  discovered : Bool
  address : Option String
  viaPeerId : Option String

/-- `create`: the columns nobody named take their defaults. -/
def Peer.create (id name fingerprint : String) : Peer :=
  { id := id
    name := name
    fingerprint := fingerprint
    publicKey := none
    status := .PENDING
    direction := none
    trust := .FRIEND
    depth := 1
    maxDepth := none
    readingForbidden := false
    discovered := false
    address := none
    viaPeerId := none }

/-- `_isSettled`, `_isLinked` and `findLinked`: agreed, whether or not we reach them right now. -/
def Peer.isSettled (peer : Peer) : Bool := peer.status = .LINKED ∨ peer.status = .UNREACHABLE

/-- The error keys a peer or a caller may be answered with. -/
inductive ErrorKey where
  | LIBRARY_NOT_FOUND
  | MEDIA_NOT_FOUND
  | SERVICE_NOT_FOUND
  | SERVICE_UNREACHABLE
  | PEER_NOT_FOUND
  | PEER_METHOD_UNSUPPORTED
  | PEER_INTRODUCTION_REFUSED
deriving DecidableEq

inductive ShareVisibility where
  | PRIVATE
  | FRIENDS
  | FRIENDS_OF_FRIENDS
deriving DecidableEq

structure Settings where
  defaultShareVisibility : ShareVisibility
  peerMaxDepth : ℤ
  keepDiscoveredPeers : Bool
  relayForPeers : Bool

end MediaCenterSync.Peers
