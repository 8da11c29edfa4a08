import MediaCenterSync.PeerManager.Manager

/-!
# Calls that run into one another

The same doors, taken apart: every call waits for the database before each of its steps, and other
calls run meanwhile.  A `Call` is where one has come to, with what it has read so far.  A step reads
or writes one table, and may throw instead, which ends the call where it stands: a `ban` that throws
once the ban is recorded leaves its peer behind.

Adding and accepting somebody, and recording a request, ask the ban list first, look the fingerprint
up next and save last (`Door`); `admit` does the third of these before it looks at what it has got.
Looking up whether a row may be approved asks no list at all.
-/

namespace MediaCenterSync.PeerManager

open Peers
open Quality (trim)

/-- What somebody saves who asks the list, looks a fingerprint up and saves. -/
inductive Door where
  | accept (parsed : ParsedInvite) (name : Option String) (now : ℤ) (minted : Bool)
  | add (request : AddPeerRequest)
  | requested (name : String) (address : Option String)
  /-- The request that `admit` makes of a credential. -/
  | admitCredential (credential : PeerCredential)

/-- Where a call has come to: what it does next, and what it knows by now. -/
inductive Call where
  /-- `accept` reads the invitation of that code. -/
  | invite (parsed : ParsedInvite) (name : Option String) (now : ℤ)
  | check (door : Door) (fingerprint : String)
  | find (door : Door) (fingerprint : String)
  | save (door : Door) (fingerprint : String) (existing : Option Peer)
  | burn (parsed : ParsedInvite) (minted : Bool) (peerId : String) (now : ℤ)
  /-- `approve` reads the row, and saves it. -/
  | approve (id : String)
  | settle (peer : Peer)
  /-- `admit` looks somebody up who has a token. -/
  | admitCredential (credential : PeerCredential) (token : Token) (now : ℤ)
  /-- `_admitIntroduced` asks the list, reads the introducer, their key and the settings, and
  saves. -/
  | introduction (credential : PeerCredential) (token : Token) (now : ℤ) (known : Option Peer)
      (claim : PeerIntroductionClaim)
  | findIntroducer (credential : PeerCredential) (token : Token) (now : ℤ) (known : Option Peer)
      (claim : PeerIntroductionClaim)
  | key (credential : PeerCredential) (token : Token) (now : ℤ) (known : Option Peer)
      (claim : PeerIntroductionClaim) (introducer : Peer)
  | reach (credential : PeerCredential) (token : Token) (now : ℤ) (known : Option Peer)
      (claim : PeerIntroductionClaim) (introducer : Peer) (publicKey : Option String)
  | introduce (credential : PeerCredential) (known : Option Peer) (introducer : Peer) (depth : ℤ)
      (keep : Bool)
  /-- `admit` looks once more, and answers what it finds. -/
  | answering (credential : PeerCredential)
  /-- `carry` reads the settings, asks the list and reads the two ends. -/
  | carry (credential : PeerCredential) (token : Token) (now : ℤ)
  | carried (credential : PeerCredential) (claim : PeerIntroductionClaim)
  | findSubject (credential : PeerCredential) (claim : PeerIntroductionClaim)
  | findHolder (credential : PeerCredential) (claim : PeerIntroductionClaim) (subject : Option Peer)
  /-- `_dial` reads the row, asks the list, dials and writes how it went. -/
  | dial (id : String)
  | dialCheck (peer : Peer)
  | dialling (peer : Peer)
  | dialled (peer : Peer) (outcome : Manager.DialOutcome)
  /-- `ban` reads the row, records the ban, and `remove` reads the row again and deletes it. -/
  | ban (id : String)
  | recordBan (fingerprint : String) (remove : Option String)
  | remove (id : String)
  | delete (id : String)
  | banFingerprint (fingerprint : String)
  | unban (fingerprint : String)
  | over
  /-- `admit` answered. -/
  | admitted (fingerprint : String) (answer : Option PeerAdmission)
  /-- `carry` answered. -/
  | granted (fingerprint : String) (answer : Option PeerRelayGrant)

namespace Door

def row (id fingerprint : String) (existing : Option Peer) : Door → Peer
  | .accept parsed name _ _ => acceptedRow id fingerprint parsed name existing
  | .add request =>
    match existing.filter (·.direction = some .INCOMING) with
    | some asking => settledRow asking
    | none => addedRow id fingerprint request existing
  | .requested name address =>
    match existing.filter (·.direction = some .OUTGOING) with
    | some asked => settledRow asked
    | none => requestedRow id fingerprint name address existing
  | .admitCredential credential =>
    match existing.filter (·.direction = some .OUTGOING) with
    | some asked => settledRow asked
    | none => requestedRow id fingerprint "" credential.address existing

/-- What becomes of a call whose fingerprint is on the list: nobody is told, but a person here. -/
def refused : Door → Call
  | .admitCredential credential => .answering credential
  | _ => .over

/-- What is still to do once the row is saved. -/
def saved (peerId : String) : Door → Call
  | .accept parsed _ now minted => .burn parsed minted peerId now
  | .admitCredential credential => .answering credential
  | _ => .over

end Door

inductive Request where
  | accept (parsed : ParsedInvite) (name : Option String) (now : ℤ)
  | add (request : AddPeerRequest)
  | approve (id : String)
  | requested (fingerprint name : String) (address : Option String)
  | admitCredential (credential : PeerCredential) (now : ℤ)
  | carry (credential : PeerCredential) (now : ℤ)
  | dial (id : String)
  | ban (id : String)
  | banFingerprint (fingerprint : String)
  | unban (fingerprint : String)

/-- Where a call begins: what needs no table is done at once. -/
def Request.begin (w : World) : Request → Call
  | .accept parsed name now => .invite parsed name now
  | .add request =>
    if trim request.fingerprint = "" then .over
    else .check (.add request) (trim request.fingerprint)
  | .approve id => .approve id
  | .requested fingerprint name address => .check (.requested name address) fingerprint
  | .admitCredential credential now =>
    if !w.verifyCredential credential now then .admitted credential.fingerprint none
    else
      match credential.introduction with
      | some token => .admitCredential credential token now
      | none => .check (.admitCredential credential) credential.fingerprint
  | .carry credential now =>
    match credential.introduction with
    | some token =>
      if w.verifyCredential credential now then .carry credential token now
      else .granted credential.fingerprint none
    | none => .granted credential.fingerprint none
  | .dial id => .dial id
  | .ban id => .ban id
  | .banFingerprint fingerprint =>
    if trim fingerprint = "" then .over else .banFingerprint (trim fingerprint)
  | .unban fingerprint => .unban (trim fingerprint)

namespace Call

/-- `admit`, once the token was of no use. -/
def unintroduced (credential : PeerCredential) : Call :=
  .check (.admitCredential credential) credential.fingerprint

/-- One step of a call; a row that is new is given `id`. -/
def advance (w : World) (t : Tables) (id : String) : Call → Tables × Call
  | .invite parsed name now =>
    match t.checkInvite w parsed now with
    | .error _ => (t, .over)
    | .ok fingerprint =>
      (t, .check (.accept parsed name now (t.invites.any (·.code = parsed.code))) fingerprint)
  | .check door fingerprint =>
    if t.isBanned fingerprint then (t, door.refused) else (t, .find door fingerprint)
  | .find door fingerprint => (t, .save door fingerprint (t.findByFingerprint fingerprint))
  | .save door fingerprint existing =>
    let row := door.row id fingerprint existing
    match t.save row with
    | .error _ => (t, .over)
    | .ok t => (t, door.saved row.id)
  | .burn parsed minted peerId now =>
    -- Marked where it was minted here, and put down as used where it was not.
    if t.invites.any (·.code = parsed.code) = minted then (t.burn w parsed peerId now, .over)
    else (t, .over)
  | .approve id =>
    match t.findOne id with
    | none => (t, .over)
    | some peer => if peer.direction = some .OUTGOING then (t, .over) else (t, .settle peer)
  | .settle peer =>
    match t.save (settledRow peer) with
    | .error _ => (t, .over)
    | .ok t => (t, .over)
  | .admitCredential credential token now =>
    let known := t.findByFingerprint credential.fingerprint
    if known.any (·.isSettled) then (t, unintroduced credential)
    else
      match w.addressed credential token with
      | .error _ => (t, unintroduced credential)
      | .ok claim => (t, .introduction credential token now known claim)
  | .introduction credential token now known claim =>
    if t.isBanned credential.fingerprint then (t, unintroduced credential)
    else (t, .findIntroducer credential token now known claim)
  | .findIntroducer credential token now known claim =>
    match (t.findByFingerprint claim.introducer).filter (·.isSettled) with
    | none => (t, unintroduced credential)
    | some introducer => (t, .key credential token now known claim introducer)
  | .key credential token now known claim introducer =>
    (t, .reach credential token now known claim introducer (t.publicKeyOf introducer.id))
  | .reach credential token now known claim introducer publicKey =>
    match w.distance t.settings introducer publicKey claim token now with
    | .error _ => (t, unintroduced credential)
    | .ok depth => (t, .introduce credential known introducer depth t.settings.keepDiscoveredPeers)
  | .introduce credential known introducer depth keep =>
    let row := introducedRow id credential introducer depth keep known
    match t.save row with
    | .error _ => (t, .over)
    | .ok t => (t, .admitted credential.fingerprint (some ⟨row.id, row.name⟩))
  | .answering credential =>
    (t, .admitted credential.fingerprint
      (((t.findByFingerprint credential.fingerprint).filter (·.isSettled)).map fun peer =>
        ⟨peer.id, peer.name⟩))
  | .carry credential token now =>
    if !t.settings.relayForPeers then (t, .granted credential.fingerprint none)
    else
      match w.verifyToken token w.publicKey now with
      | .error _ => (t, .granted credential.fingerprint none)
      | .ok claim =>
        if claim.introducer = w.fingerprint ∧ claim.subject = credential.fingerprint then
          (t, .carried credential claim)
        else (t, .granted credential.fingerprint none)
  | .carried credential claim =>
    if t.isBanned credential.fingerprint then (t, .granted credential.fingerprint none)
    else (t, .findSubject credential claim)
  | .findSubject credential claim =>
    (t, .findHolder credential claim (t.findByFingerprint credential.fingerprint))
  | .findHolder credential claim subject =>
    let answer := do
      let subject ← subject.filter (·.isSettled)
      let holder ← (t.findByFingerprint claim.holder).filter (·.isSettled)
      some ⟨holder.id, holder.name, subject.name⟩
    (t, .granted credential.fingerprint answer)
  | .dial id =>
    match t.findOne id with
    | none => (t, .over)
    | some peer => (t, .dialCheck peer)
  | .dialCheck peer => if t.isBanned peer.fingerprint then (t, .over) else (t, .dialling peer)
  -- The far end is waited for.
  | .dialling peer => (t, .dialling peer)
  | .dialled peer outcome =>
    match outcome with
    | .LINKED address => (t.setStatus peer.id .LINKED address, .over)
    | .UNREACHABLE | .REFUSED => (t.setStatus peer.id .UNREACHABLE none, .over)
  | .ban id =>
    match t.findOne id with
    | none => (t, .over)
    | some peer => (t, .recordBan peer.fingerprint (some peer.id))
  | .recordBan fingerprint peerId =>
    (t.recordBan fingerprint, peerId.elim .over .remove)
  | .remove id =>
    match t.findOne id with
    | none => (t, .over)
    | some peer => (t, .delete peer.id)
  | .delete id => (t.delete id, .over)
  | .banFingerprint fingerprint =>
    match t.findByFingerprint fingerprint with
    | some existing => (t, .ban existing.id)
    | none => (t, .recordBan fingerprint none)
  | .unban fingerprint => ({ t with banned := t.banned.filter (· ≠ fingerprint) }, .over)
  | .over => (t, .over)
  | .admitted fingerprint answer => (t, .admitted fingerprint answer)
  | .granted fingerprint answer => (t, .granted fingerprint answer)

/-- The fingerprint a new row is made for by the step that is next. -/
def creates : Call → Option String
  | .save _ fingerprint none => some fingerprint
  | .introduce credential none _ _ _ => some credential.fingerprint
  | _ => none

end Call

structure Calls where
  tables : Tables
  calls : List Call
  /-- The identifiers that rows were given, with the fingerprints of those rows. -/
  ids : List (String × String)

namespace Calls

inductive Action where
  | call (request : Request)
  /-- The next step of a call. -/
  | advance (i : ℕ) (id : String)
  /-- The far end of a dial answers, or does not. -/
  | connected (i : ℕ) (outcome : Manager.DialOutcome)
  /-- What a call waits for throws. -/
  | fail (i : ℕ)
  /-- A key is learned, and the settings are edited. -/
  | handshake (id : String) (publicKey : Option String)
  | settings (settings : Settings)

def boot (settings : Settings) : Calls :=
  { tables := { peers := [], banned := [], invites := [], settings := settings }
    calls := []
    ids := [] }

def step (w : World) (s : Calls) : Action → Option Calls
  | .call request => some { s with calls := s.calls ++ [request.begin w] }
  | .advance i id =>
    (s.calls[i]?).bind fun call =>
      let (tables, next) := call.advance w s.tables id
      match call.creates with
      | none => some { s with tables := tables, calls := s.calls.set i next }
      | some fingerprint =>
        if id ∈ s.ids.map (·.1) then none
        else
          some {
            tables := tables
            calls := s.calls.set i next
            ids := (id, fingerprint) :: s.ids }
  | .connected i outcome =>
    match s.calls[i]? with
    | some (.dialling peer) => some { s with calls := s.calls.set i (.dialled peer outcome) }
    | _ => none
  | .fail i => if i < s.calls.length then some { s with calls := s.calls.set i .over } else none
  | .handshake id publicKey => some { s with tables := s.tables.recordHandshake id publicKey }
  | .settings settings => some { s with tables := { s.tables with settings := settings } }

end Calls

end MediaCenterSync.PeerManager
