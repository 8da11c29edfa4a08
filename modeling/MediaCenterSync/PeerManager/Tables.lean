import Mathlib.Data.Int.Order.Basic
import MediaCenterSync.Peers.Entity

/-!
# The tables of the peer manager

The rows of the peers, the fingerprints that are banned and the invitations that were minted or
redeemed, with what the manager reads of a credential and of the token that may come with it, and
the rows it writes.  A row can be written by four doors (`accept`, `add`, `requested` and an
introduction), and each of them sets columns of its own and leaves the others as they are.
-/

namespace MediaCenterSync.PeerManager

open Peers

inductive ErrorKey where
  | PEER_INVITE_INVALID
  | PEER_INVITE_EXPIRED
  | PEER_BANNED
  | PEER_AWAITING_THEM
  | PEER_NOT_FOUND
  | PEER_BAN_NOT_FOUND

/-- Why a call throws: with a key of its own, or because the database refused to write. -/
inductive Failure where
  | key (key : ErrorKey)
  | database

/-! ### What is presented -/

/-- `_decode`: what an invitation says. -/
structure ParsedInvite where
  code : String
  fingerprint : Option String
  address : Option String
  secret : Option String
  expiresAt : Option ℤ

structure AddPeerRequest where
  fingerprint : String
  name : Option String
  address : Option String

structure PeerIntroductionClaim where
  v : ℤ
  introducer : String
  subject : String
  holder : String
  depth : ℤ
  issuedAt : ℤ
  expiresAt : ℤ

/-- The two segments of an introduction. -/
structure Token where
  payload : String
  signature : Option String

structure PeerCredential where
  fingerprint : String
  publicKey : String
  challenge : String
  signature : String
  introduction : Option Token
  address : Option String

structure PeerAdmission where
  peerId : String
  name : String

structure PeerRelayGrant where
  holderPeerId : String
  holderName : String
  subjectName : String

inductive IntroductionRefusal where
  | MALFORMED
  | EXPIRED
  | UNVERIFIED
  | UNKNOWN_INTRODUCER
  | NOT_ADDRESSED
  | TOO_FAR

def PROTOCOL_VERSION : ℕ := 1

def INTRODUCTION_VERSION : ℤ := 1

def INTRODUCTION_TTL_MS : ℤ := 2 * 60000

def INTRODUCTION_CLOCK_SKEW_MS : ℤ := 5 * 60000

def CHALLENGE_MAX_AGE_MS : ℤ := 5 * 60000

/-- Our own key, and what the libraries for keys, hashes and texts answer. -/
structure World where
  fingerprint : String
  publicKey : String
  hash : String → String
  /-- The hash of a key, where it is one. -/
  fingerprintOf : String → Option String
  /-- The number a challenge ends with. -/
  issued : String → Option ℤ
  /-- A signature, of a payload and by a key. -/
  verify : String → String → String → Bool
  /-- The payload of a token, where it has all the fields. -/
  parse : String → Option PeerIntroductionClaim

namespace World

variable (w : World)

def isChallengeFresh (challenge : String) (now : ℤ) : Bool :=
  (w.issued challenge).any fun issued => (now - issued).natAbs ≤ CHALLENGE_MAX_AGE_MS

/-- `verifyCredential`; a key that is not one throws, which admits nobody either. -/
def verifyCredential (credential : PeerCredential) (now : ℤ) : Bool :=
  w.fingerprintOf credential.publicKey = some credential.fingerprint ∧
    w.isChallengeFresh credential.challenge now ∧
    w.verify credential.publicKey credential.challenge credential.signature

/-- `PeerIntroductionService.read` -/
def read (token : Token) : Option PeerIntroductionClaim :=
  if token.payload = "" then none
  else (w.parse token.payload).filter (·.v = INTRODUCTION_VERSION)

/-- `PeerIntroductionService.verify` -/
def verifyToken (token : Token) (introducerPublicKey : String) (now : ℤ) :
    Except IntroductionRefusal PeerIntroductionClaim :=
  match w.read token, token.signature.filter (· ≠ "") with
  | some claim, some signature =>
    if !w.verify introducerPublicKey token.payload signature then .error .UNVERIFIED
    -- An issuer may have claimed a longer life than is honoured here.
    else if INTRODUCTION_TTL_MS < claim.expiresAt - claim.issuedAt then .error .EXPIRED
    else if claim.expiresAt + INTRODUCTION_CLOCK_SKEW_MS < now ∨
        now < claim.issuedAt - INTRODUCTION_CLOCK_SKEW_MS then .error .EXPIRED
    else .ok claim
  | _, _ => .error .MALFORMED

/-- The token names who may present it, and the gateway it opens. -/
def addressed (credential : PeerCredential) (token : Token) :
    Except IntroductionRefusal PeerIntroductionClaim :=
  match w.read token with
  | none => .error .MALFORMED
  | some claim =>
    if claim.subject ≠ credential.fingerprint ∨ claim.holder ≠ w.fingerprint then
      .error .NOT_ADDRESSED
    else .ok claim

/-- How far away somebody is whom this introducer vouches for: the larger of their arithmetic and
ours, as far as both the settings and the introducer's own row let introductions travel. -/
def distance (settings : Settings) (introducer : Peer) (publicKey : Option String)
    (claim : PeerIntroductionClaim) (token : Token) (now : ℤ) : Except IntroductionRefusal ℤ :=
  match publicKey with
  | none => .error .UNKNOWN_INTRODUCER
  | some key =>
    match w.verifyToken token key now with
    | .error refusal => .error refusal
    | .ok _ =>
      let depth := max claim.depth (introducer.depth + 1)
      let allowed := min settings.peerMaxDepth (introducer.maxDepth.getD settings.peerMaxDepth)
      if allowed < depth then .error .TOO_FAR else .ok depth

end World

/-! ### The rows that are written -/

def defaultName (fingerprint : String) : String :=
  "peer-" ++ String.ofList (fingerprint.toList.take 8)

/-- What `accept` saves. -/
def acceptedRow (id fingerprint : String) (parsed : ParsedInvite) (name : Option String) :
    Option Peer → Peer
  | none =>
    { Peer.create id (name.getD (defaultName fingerprint)) fingerprint with
      address := parsed.address.filter (· ≠ "")
      status := .LINKED
      trust := .FRIEND }
  | some existing =>
    { existing with
      name := name.getD existing.name
      address := existing.address.or (parsed.address.filter (· ≠ ""))
      status := .LINKED
      trust := .FRIEND
      discovered := false }

/-- What `add` saves, when nobody of that fingerprint has asked us. -/
def addedRow (id fingerprint : String) (request : AddPeerRequest) : Option Peer → Peer
  | none =>
    { Peer.create id (request.name.getD (defaultName fingerprint)) fingerprint with
      address := request.address
      status := .PENDING
      direction := some .OUTGOING
      trust := .FRIEND }
  | some existing =>
    { existing with
      name := request.name.getD existing.name
      address := request.address.or existing.address
      status := .PENDING
      direction := some .OUTGOING
      discovered := false }

/-- `_settle`: what a pending row is turned into. -/
def settledRow (peer : Peer) : Peer :=
  { peer with
    status := .LINKED
    direction := none
    trust := .FRIEND
    depth := 1
    discovered := false }

/-- What `requested` saves, when nobody here has asked them. -/
def requestedRow (id fingerprint name : String) (address : Option String) : Option Peer → Peer
  | none =>
    { Peer.create id (if name ≠ "" then name else defaultName fingerprint) fingerprint with
      address := address
      status := .PENDING
      direction := some .INCOMING
      trust := .FRIEND }
  | some existing => existing

/-- What `_admitIntroduced` saves. -/
def introducedRow (id : String) (credential : PeerCredential) (introducer : Peer) (depth : ℤ)
    (keep : Bool) : Option Peer → Peer
  | none =>
    { Peer.create id (defaultName credential.fingerprint) credential.fingerprint with
      address := credential.address
      status := .LINKED
      direction := none
      trust := .FRIEND_OF_FRIEND
      depth := depth
      viaPeerId := some introducer.id
      discovered := !keep }
  | some known =>
    -- The depth is not among what is written.
    { known with
      status := .LINKED
      direction := none
      address := credential.address.or known.address
      trust := if known.trust = .FRIEND then known.trust else .FRIEND_OF_FRIEND
      viaPeerId := known.viaPeerId.or (some introducer.id)
      discovered := known.discovered && !keep }

/-! ### The tables -/

structure PeerInvite where
  code : String
  secretHash : String
  expiresAt : ℤ
  usedAt : Option ℤ
  peerId : Option String

structure Tables where
  peers : List Peer
  banned : List String
  invites : List PeerInvite
  settings : Settings

namespace Tables

variable (t : Tables)

def findByFingerprint (fingerprint : String) : Option Peer :=
  t.peers.find? (·.fingerprint = fingerprint)

/-- `findOne`, by id -/
def findOne (id : String) : Option Peer := t.peers.find? (·.id = id)

/-- `findWithPublicKey`, of which the key is read -/
def publicKeyOf (id : String) : Option String := (t.findOne id).bind (·.publicKey)

def isBanned (fingerprint : String) : Bool := fingerprint ∈ t.banned

/-- `save`: every column but the key is written over the row of that id, and a row that is gone is
put back; the index refuses two rows of one fingerprint. -/
def save (peer : Peer) : Except Failure Tables :=
  if t.peers.any (·.id = peer.id) then
    .ok { t with
      peers := t.peers.map fun row =>
        if row.id = peer.id then { peer with publicKey := row.publicKey } else row }
  else if t.peers.any (·.fingerprint = peer.fingerprint) then .error .database
  else .ok { t with peers := t.peers ++ [{ peer with publicKey := none }] }

def setStatus (id : String) (status : PeerStatus) (address : Option String) : Tables :=
  { t with
    peers := t.peers.map fun row =>
      if row.id = id then { row with status := status, address := address } else row }

/-- `recordHandshake`: the key is learned where the handshake brought one. -/
def recordHandshake (id : String) (publicKey : Option String) : Tables :=
  { t with
    peers := t.peers.map fun row =>
      if row.id = id then { row with publicKey := publicKey.or row.publicKey } else row }

/-- `delete`, by id -/
def delete (id : String) : Tables := { t with peers := t.peers.filter (·.id ≠ id) }

/-- What is checked of an invitation before the ban list is. -/
def checkInvite (w : World) (parsed : ParsedInvite) (now : ℤ) : Except ErrorKey String :=
  match parsed.fingerprint with
  | none => .error .PEER_INVITE_INVALID
  | some fingerprint =>
    match t.invites.find? (·.code = parsed.code) with
    | some known =>
      if known.usedAt ≠ none then .error .PEER_INVITE_INVALID
      else if known.expiresAt ≤ now then .error .PEER_INVITE_EXPIRED
      else if known.secretHash ≠ w.hash (parsed.secret.getD "") then .error .PEER_INVITE_INVALID
      else .ok fingerprint
    | none =>
      -- Somebody else minted it, and its expiry is all that can be checked.
      if parsed.expiresAt.all (· ≤ now) then .error .PEER_INVITE_EXPIRED else .ok fingerprint

def burn (w : World) (parsed : ParsedInvite) (peerId : String) (now : ℤ) : Tables :=
  { t with
    invites :=
      if t.invites.any (·.code = parsed.code) then
        t.invites.map fun invite =>
          if invite.code = parsed.code then
            { invite with usedAt := some now, peerId := some peerId }
          else invite
      else
        t.invites ++ [{
          code := parsed.code
          secretHash := w.hash (parsed.secret.getD "")
          expiresAt := parsed.expiresAt.getD now
          usedAt := some now
          peerId := some peerId }] }

end Tables

end MediaCenterSync.PeerManager
