import MediaCenterSync.PeerManager.Tables
import MediaCenterSync.Quality.Comparison

/-!
# Who becomes a peer

What happens to the rows when a person accepts an invitation, adds, approves, removes or bans
somebody, when a gateway asks to be linked or opens a socket, and when links and the process come
and go.  Every event here runs to its end before the next one; how the calls run into one another is
the subject of `Calls`.

A `Manager` is the tables, the peers whose links are being looked after, and a record of what was
done to the rows that is kept for the theorems alone: which of them a person here settled, which of
them `add` asked, and at which distance an introduction was let in.
-/

namespace MediaCenterSync.PeerManager

open Peers
open Quality (trim)

namespace Tables

variable (t : Tables) (w : World)

/-! ### A person's decisions -/

def accept (id : String) (parsed : ParsedInvite) (name : Option String) (now : ℤ) :
    Except Failure (Tables × Peer) :=
  match t.checkInvite w parsed now with
  | .error key => .error (.key key)
  | .ok fingerprint =>
    if t.isBanned fingerprint then .error (.key .PEER_BANNED)
    else
      let peer := acceptedRow id fingerprint parsed name (t.findByFingerprint fingerprint)
      (t.save peer).map fun t => (t.burn w parsed peer.id now, peer)

def settle (peer : Peer) : Except Failure (Tables × Peer) :=
  (t.save (settledRow peer)).map fun t => (t, settledRow peer)

def add (id : String) (request : AddPeerRequest) : Except Failure (Tables × Peer) :=
  let fingerprint := trim request.fingerprint
  if fingerprint = "" then .error (.key .PEER_INVITE_INVALID)
  else if t.isBanned fingerprint then .error (.key .PEER_BANNED)
  else
    let existing := t.findByFingerprint fingerprint
    match existing.filter (·.direction = some .INCOMING) with
    -- Adding somebody who has asked us is answering.
    | some asking => t.settle asking
    | none =>
      let peer := addedRow id fingerprint request existing
      (t.save peer).map fun t => (t, peer)

def approve (id : String) : Except Failure (Tables × Peer) :=
  match t.findOne id with
  | none => .error (.key .PEER_NOT_FOUND)
  | some peer =>
    if peer.direction = some .OUTGOING then .error (.key .PEER_AWAITING_THEM) else t.settle peer

def remove (id : String) : Except Failure Tables :=
  match t.findOne id with
  | none => .error (.key .PEER_NOT_FOUND)
  | some peer => .ok (t.delete peer.id)

def recordBan (fingerprint : String) : Tables :=
  { t with banned := if t.isBanned fingerprint then t.banned else fingerprint :: t.banned }

def ban (id : String) : Except Failure Tables :=
  match t.findOne id with
  | none => .error (.key .PEER_NOT_FOUND)
  | some peer => (t.recordBan peer.fingerprint).remove peer.id

def banFingerprint (fingerprint : String) : Except Failure Tables :=
  let trimmed := trim fingerprint
  if trimmed = "" then .error (.key .PEER_INVITE_INVALID)
  else
    match t.findByFingerprint trimmed with
    | some existing => t.ban existing.id
    | none => .ok (t.recordBan trimmed)

def unban (fingerprint : String) : Except Failure Tables :=
  if t.isBanned (trim fingerprint) then
    .ok { t with banned := t.banned.filter (· ≠ trim fingerprint) }
  else .error (.key .PEER_BAN_NOT_FOUND)

/-! ### What a gateway may do -/

def requested (id fingerprint name : String) (address : Option String) : Except Failure Tables :=
  if t.isBanned fingerprint then .ok t
  else
    let existing := t.findByFingerprint fingerprint
    match existing.filter (·.direction = some .OUTGOING) with
    -- They answer a request of ours.
    | some asked => (t.settle asked).map (·.1)
    | none => t.save (requestedRow id fingerprint name address existing)

/-- What an introduction has to pass: who gave it, and how far away it puts its bearer.  Which check
refused it goes to the log only. -/
def introduction (credential : PeerCredential) (token : Token) (now : ℤ) : Option (Peer × ℤ) :=
  match w.addressed credential token with
  | .error _ => none
  | .ok claim =>
    if t.isBanned credential.fingerprint then none
    else
      match (t.findByFingerprint claim.introducer).filter (·.isSettled) with
      | none => none
      | some introducer =>
        match w.distance t.settings introducer (t.publicKeyOf introducer.id) claim token now with
        | .error _ => none
        | .ok depth => some (introducer, depth)

def admitIntroduced (id : String) (credential : PeerCredential) (token : Token)
    (known : Option Peer)
    (now : ℤ) : Except Failure (Tables × Option PeerAdmission) :=
  match t.introduction w credential token now with
  | none => .ok (t, none)
  | some (introducer, depth) =>
    let peer := introducedRow id credential introducer depth t.settings.keepDiscoveredPeers known
    (t.save peer).map fun t => (t, some ⟨peer.id, peer.name⟩)

/-- Somebody comes without an introduction, or with one that is not let in. -/
def admitKnown (id : String) (credential : PeerCredential) :
    Except Failure (Tables × Option PeerAdmission) :=
  (t.requested id credential.fingerprint "" credential.address).map fun t =>
    (t, ((t.findByFingerprint credential.fingerprint).filter (·.isSettled)).map fun peer =>
      ⟨peer.id, peer.name⟩)

/-- The token a credential is judged by: none, for somebody we have settled with. -/
def tokenOf (credential : PeerCredential) : Option Token :=
  if (t.findByFingerprint credential.fingerprint).any (·.isSettled) then none
  else credential.introduction

/-- `admit` -/
def admitCredential (id : String) (credential : PeerCredential) (now : ℤ) :
    Except Failure (Tables × Option PeerAdmission) :=
  if !w.verifyCredential credential now then .ok (t, none)
  else
    match t.tokenOf credential with
    | none => t.admitKnown id credential
    | some token =>
      match t.admitIntroduced w id credential token
          (t.findByFingerprint credential.fingerprint) now with
      | .error failure => .error failure
      | .ok (t, some admission) => .ok (t, some admission)
      | .ok (t, none) => t.admitKnown id credential

def greet (peerId : String) (protocol : ℕ) : Tables :=
  if protocol = PROTOCOL_VERSION then t.recordHandshake peerId none else t

/-! ### Links that come and go -/

/-- `_forgetIfDiscovered`, with what the link service says about a link of ours. -/
def forgetIfDiscovered (id : String) (linked : Bool) : Option Tables :=
  match t.findOne id with
  | none => none
  | some peer => if peer.discovered ∧ !linked then some (t.delete peer.id) else none

def sweepDiscovered : Tables := { t with peers := t.peers.filter (!·.discovered) }

def findLinked : List Peer := t.peers.filter (·.isSettled)

end Tables

structure Manager where
  tables : Tables
  /-- The peers a timer is armed for, those that are being dialled and those a link of ours was
  opened to. -/
  timers : List String
  dials : List String
  reached : List String
  /-- Every identifier a row was ever given. -/
  ids : List String
  /-- The rows a person settled: by `accept`, by `approve`, or by an `add` that was answered. -/
  chosen : List String
  /-- The rows `add` made a request of ours. -/
  asked : List String
  /-- The rows an introduction was let in for, and how far away it put them. -/
  introduced : List (String × ℤ)

namespace Manager

inductive DialOutcome where
  | LINKED (address : Option String)
  | UNREACHABLE
  | REFUSED

inductive Event where
  | accept (id : String) (parsed : ParsedInvite) (name : Option String) (now : ℤ)
  | add (id : String) (request : AddPeerRequest)
  | approve (id : String)
  | remove (id : String)
  | ban (id : String)
  | banFingerprint (fingerprint : String)
  | unban (fingerprint : String)
  | settings (settings : Settings)
  | requested (id fingerprint name : String) (address : Option String)
  | admitCredential (id : String) (credential : PeerCredential) (now : ℤ)
  | greet (peerId : String) (protocol : ℕ)
  /-- A handshake is recorded.  Nobody who does hands the key over. -/
  | handshake (peerId : String)
  | lost (peerId : String) (linked : Bool)
  /-- A link of theirs went away. -/
  | released (peerId : String) (linked : Bool)
  | restart (autoConnect : Bool)
  /-- A timer goes off, and its peer is dialled. -/
  | timer (peerId : String)
  | dialled (peerId : String) (outcome : DialOutcome)

def boot (settings : Settings) : Manager :=
  { tables := { peers := [], banned := [], invites := [], settings := settings }
    timers := []
    dials := []
    reached := []
    ids := []
    chosen := []
    asked := []
    introduced := [] }

/-- The requests of ours that are settled now. -/
def answered (before after : Tables) : List String :=
  (before.peers.filter fun peer => peer.direction = some .OUTGOING ∧
    after.peers.any fun row => row.id = peer.id ∧ row.isSettled ∧ row.direction = none).map (·.id)

/-- The distance an introduction is let in at. -/
def introducedAt (w : World) (t : Tables) (credential : PeerCredential) (now : ℤ) : Option ℤ :=
  if w.verifyCredential credential now then
    (t.tokenOf credential).bind fun token => (t.introduction w credential token now).map (·.2)
  else none

/-- Who was let in by an introduction, and at which distance. -/
def letIn : Option PeerAdmission → Option ℤ → List (String × ℤ)
  | some admission, some depth => [(admission.peerId, depth)]
  | _, _ => []

variable (w : World) (s : Manager)

/-- What is left of the timers, once the ones of the rows that went are cancelled. -/
def armed (after : Tables) : List String :=
  s.timers.filter fun id => (s.tables.findOne id).isNone ∨ (after.findOne id).isSome

/-- What a call leaves: everything as it was, where it throws. -/
def after : Except Failure Tables → Manager
  | .error _ => s
  | .ok tables => { s with tables := tables, timers := s.armed tables }

/-- A dial whose row went meanwhile is tried again, whatever came of it. -/
def retry (peerId : String) : List String :=
  if (s.tables.findOne peerId).isSome then s.timers else peerId :: s.timers

def step (w : World) (s : Manager) : Event → Option Manager
  | .accept id parsed name now =>
    if id ∈ s.ids then none
    else
      match s.tables.accept w id parsed name now with
      | .error _ => some s
      | .ok (tables, peer) =>
        some { s with tables := tables, ids := id :: s.ids, chosen := peer.id :: s.chosen }
  | .add id request =>
    if id ∈ s.ids then none
    else
      match s.tables.add id request with
      | .error _ => some s
      | .ok (tables, peer) =>
        let s := { s with tables := tables, ids := id :: s.ids }
        if peer.direction = some .OUTGOING then some { s with asked := peer.id :: s.asked }
        else some { s with chosen := peer.id :: s.chosen }
  | .approve id =>
    match s.tables.approve id with
    | .error _ => some s
    | .ok (tables, peer) => some { s with tables := tables, chosen := peer.id :: s.chosen }
  | .remove id => some (s.after (s.tables.remove id))
  | .ban id => some (s.after (s.tables.ban id))
  | .banFingerprint fingerprint => some (s.after (s.tables.banFingerprint fingerprint))
  | .unban fingerprint => some (s.after (s.tables.unban fingerprint))
  | .settings settings => some { s with tables := { s.tables with settings := settings } }
  | .requested id fingerprint name address =>
    if id ∈ s.ids then none
    else
      match s.tables.requested id fingerprint name address with
      | .error _ => some s
      | .ok tables =>
        some { s with
          tables := tables
          ids := id :: s.ids
          chosen := (answered s.tables tables).filter (· ∈ s.asked) ++ s.chosen }
  | .admitCredential id credential now =>
    if id ∈ s.ids then none
    else
      match s.tables.admitCredential w id credential now with
      | .error _ => some s
      | .ok (tables, admission) =>
        some { s with
          tables := tables
          ids := id :: s.ids
          chosen := (answered s.tables tables).filter (· ∈ s.asked) ++ s.chosen
          introduced :=
            letIn admission (introducedAt w s.tables credential now) ++ s.introduced }
  | .greet peerId protocol => some { s with tables := s.tables.greet peerId protocol }
  | .handshake peerId => some { s with tables := s.tables.recordHandshake peerId none }
  | .lost peerId linked =>
    if peerId ∈ s.reached then
      match s.tables.forgetIfDiscovered peerId linked with
      | some tables => some (s.after (.ok tables))
      | none =>
        some { s with
          tables := s.tables.setStatus peerId .UNREACHABLE none
          timers := peerId :: s.timers }
    else none
  | .released peerId linked =>
    match s.tables.forgetIfDiscovered peerId linked with
    | some tables => some (s.after (.ok tables))
    | none => some s
  | .restart autoConnect =>
    let tables := s.tables.sweepDiscovered
    some { s with
      tables := tables
      timers := if autoConnect then tables.findLinked.map (·.id) else []
      dials := []
      reached := [] }
  | .timer peerId =>
    if peerId ∈ s.timers then
      let s := { s with timers := s.timers.filter (· ≠ peerId) }
      match s.tables.findOne peerId with
      | none => some s
      | some peer =>
        if s.tables.isBanned peer.fingerprint then some s
        else some { s with dials := peerId :: s.dials }
    else none
  | .dialled peerId outcome =>
    if peerId ∈ s.dials then
      let s := { s with dials := s.dials.erase peerId }
      match outcome with
      | .LINKED address =>
        some { s with
          tables := s.tables.setStatus peerId .LINKED address
          timers := s.retry peerId
          reached := peerId :: s.reached }
      | .UNREACHABLE =>
        some { s with
          tables := s.tables.setStatus peerId .UNREACHABLE none
          timers := peerId :: s.timers }
      | .REFUSED =>
        some { s with
          tables := s.tables.setStatus peerId .UNREACHABLE none
          timers := s.retry peerId }
    else none

end Manager

end MediaCenterSync.PeerManager
