import Mathlib.Data.Nat.Notation
import Mathlib.Logic.Function.Basic

/-!
# The table of links

The service holds one link for each peer (`_links`).  `connect` looks into the table, climbs a
ladder of dials that each open a socket and wait for the far end to prove itself, and then writes
the link it has got over whatever the table holds.  A link that is lost takes the entry of its peer
out, and `disconnect` closes the link it finds there.  A `Table` is the links that were made, the
table, and how far every `connect` under way has come; what the network and the far end answer is
part of an event.
-/

namespace MediaCenterSync.PeerLink

/-- How many friends are asked for an introduction to one peer. -/
def MAX_INTRODUCERS_ASKED : ℕ := 3

inductive PeerLinkMode where
  | DIRECT
  | RELAY

/-- The capabilities the ladder asks for. -/
inductive PeerCapability where
  | INTRODUCE
  | RELAY
deriving DecidableEq

structure PeerDescriptor where
  id : String
  address : Option String

structure PeerDialOptions where
  /-- A token that is at hand, and who gave it. -/
  introduction : Option String
  via : Option String
  introducers : List String

structure TableLink where
  peerId : String
  mode : PeerLinkMode
  address : String
  capabilities : List PeerCapability
  /-- `readyState` of the socket is `OPEN`. -/
  isOpen : Bool
  closedByUs : Bool
  /-- `_reported`: the socket went away, and this was said. -/
  reported : Bool
  /-- `connect` has returned it. -/
  opened : Bool

def TableLink.connected (link : TableLink) : Bool := link.isOpen

/-- Which dial of the ladder is made. -/
inductive Rung where
  | direct
  /-- The address an introducer gave, and the introducers that are left. -/
  | punched (via address : String) (rest : List String) (asked : ℕ)
  | relayed (via address : String) (rest : List String) (asked : ℕ)

inductive Phase where
  /-- The socket is to open. -/
  | dialling (rung : Rung)
  /-- What we say of ourselves is looked up. -/
  | greeting (rung : Rung) (link : ℕ)
  /-- The far end is to prove itself. -/
  | handshaking (rung : Rung) (link : ℕ)
  /-- It did, and the link is to be held. -/
  | proved (link : ℕ)
  | introducing (candidates : List String) (asked : ℕ)
  /-- An introducer was asked. -/
  | asking (via : String) (rest : List String) (asked : ℕ)
  | over

/-- A `connect` that was called. -/
structure Connect where
  peer : PeerDescriptor
  options : PeerDialOptions
  phase : Phase
  /-- The peer was disconnected since. -/
  hungUp : Bool

structure Table where
  made : List TableLink
  /-- `_links`, by peer. -/
  links : String → Option ℕ
  connects : List Connect
  /-- The peers that were disconnected, and not connected to again. -/
  quiet : String → Bool

namespace Table

inductive Event where
  | connect (peer : PeerDescriptor) (options : PeerDialOptions)
  /-- The socket of a dial opens, or does not. -/
  | socketOpen (connect : ℕ)
  | socketFails (connect : ℕ)
  /-- Our hello is ready, and sent. -/
  | greets (connect : ℕ)
  /-- The far end proves itself, or is refused. -/
  | proves (connect : ℕ) (capabilities : List PeerCapability)
  | refused (connect : ℕ)
  /-- `connect` holds the link and returns. -/
  | held (connect : ℕ)
  /-- The next introducer is looked at. -/
  | introduce (connect : ℕ)
  /-- An introducer answers with a token and an address, or with nothing. -/
  | introduced (connect : ℕ) (answer : Option (Option String))
  /-- The socket of a link is open no more. -/
  | drops (link : ℕ)
  /-- That is said: `close` or `error` of the socket. -/
  | lost (link : ℕ)
  | disconnect (peerId : String)

def boot : Table := ⟨[], fun _ => none, [], fun _ => false⟩

variable (s : Table)

def link (peerId : String) : Option TableLink := (s.links peerId).bind (s.made[·]?)

def isLinked (peerId : String) : Bool := (s.link peerId).any (·.connected)

def supports (peerId : String) (capability : PeerCapability) : Bool :=
  (s.link peerId).any (capability ∈ ·.capabilities)

/-- `_relay`: the friend in the middle is dialled, where they agreed to carry; otherwise the next
introducer is looked at. -/
def relay (via : String) (rest : List String) (asked : ℕ) : Phase :=
  match s.link via with
  | some link =>
    if link.connected ∧ link.address ≠ "" ∧ s.supports via .RELAY then
      .dialling (.relayed via link.address rest asked)
    else .introducing rest asked
  | none => .introducing rest asked

/-- A token was given, and perhaps an address: it is dialled only when it is somewhere new. -/
def introduction (peer : PeerDescriptor) (address : Option String) (via : String)
    (rest : List String) (asked : ℕ) : Phase :=
  match address with
  | some address =>
    if address ≠ "" ∧ some address ≠ peer.address then .dialling (.punched via address rest asked)
    else s.relay via rest asked
  | none => s.relay via rest asked

/-- One round of `_viaIntroducers`. -/
def nextIntroducer (connect : Connect) (candidates : List String) (asked : ℕ) : Phase :=
  match candidates with
  | [] => .over
  | via :: rest =>
    if MAX_INTRODUCERS_ASKED ≤ asked then .over
    -- A friend whose link dropped is skipped without counting.
    else if !s.isLinked via ∨ !s.supports via .INTRODUCE then .introducing rest asked
    else if connect.options.via = some via ∧ connect.options.introduction.any (· ≠ "") then
      s.introduction connect.peer connect.peer.address via rest (asked + 1)
    else .asking via rest (asked + 1)

/-- What follows a dial whose socket did not open, or was gone before the hello. -/
def afterFailure (connect : Connect) : Rung → Phase
  | .direct => .introducing connect.options.introducers 0
  | .punched via _ rest asked => s.relay via rest asked
  | .relayed _ _ rest asked => .introducing rest asked

/-- What follows a far end that was refused: dialled directly, that is a rejection, which is
thrown. -/
def afterRefusal : Rung → Phase
  | .direct => .over
  | .punched via _ rest asked => s.relay via rest asked
  | .relayed _ _ rest asked => .introducing rest asked

def dialled (peer : PeerDescriptor) : Rung → TableLink
  | .direct => ⟨peer.id, .DIRECT, peer.address.getD "", [], true, false, false, false⟩
  | .punched _ address _ _ => ⟨peer.id, .DIRECT, address, [], true, false, false, false⟩
  | .relayed _ address _ _ => ⟨peer.id, .RELAY, address, [], true, false, false, false⟩

/-- A `connect` goes on. -/
def goOn (c : ℕ) (phase : Phase) : Table :=
  { s with connects := s.connects.modify c fun connect => { connect with phase := phase } }

def close (l : ℕ) : Table :=
  { s with made := s.made.modify l fun link => { link with isOpen := false, closedByUs := true } }

def step : Event → Option Table
  | .connect peer options =>
    -- A link that is live is handed back.
    if s.isLinked peer.id then some s
    else
      let phase := if peer.address.any (· ≠ "") then .dialling .direct
        else .introducing options.introducers 0
      some { s with
        connects := s.connects ++ [⟨peer, options, phase, false⟩]
        quiet := Function.update s.quiet peer.id false }
  | .socketOpen c => do
    let connect ← s.connects[c]?
    match connect.phase with
    | .dialling rung =>
      let s' := { s with made := s.made ++ [dialled connect.peer rung] }
      some (s'.goOn c (.greeting rung s.made.length))
    | _ => none
  | .socketFails c => do
    let connect ← s.connects[c]?
    match connect.phase with
    | .dialling rung => some (s.goOn c (s.afterFailure connect rung))
    | _ => none
  | .greets c => do
    let connect ← s.connects[c]?
    match connect.phase with
    | .greeting rung l =>
      -- A request on a link that is gone throws, and nobody was rejected.
      if (s.made[l]?).any (·.connected) then some (s.goOn c (.handshaking rung l))
      else some (s.goOn c (s.afterFailure connect rung))
    | _ => none
  | .proves c capabilities => do
    let connect ← s.connects[c]?
    match connect.phase with
    | .handshaking _ l =>
      -- A link that is gone has failed its request.
      if (s.made[l]?).any (·.connected) then
        let s' :=
          { s with made := s.made.modify l fun link => { link with capabilities := capabilities } }
        some (s'.goOn c (.proved l))
      else none
    | _ => none
  | .refused c => do
    let connect ← s.connects[c]?
    match connect.phase with
    | .handshaking rung l =>
      let s' := s.close l
      some (s'.goOn c (s'.afterRefusal rung))
    | _ => none
  | .held c => do
    let connect ← s.connects[c]?
    match connect.phase with
    | .proved l =>
      let s' := { s with
        made := s.made.modify l fun link => { link with opened := true }
        links := Function.update s.links connect.peer.id (some l) }
      some (s'.goOn c .over)
    | _ => none
  | .introduce c => do
    let connect ← s.connects[c]?
    match connect.phase with
    | .introducing candidates asked => some (s.goOn c (s.nextIntroducer connect candidates asked))
    | _ => none
  | .introduced c answer => do
    let connect ← s.connects[c]?
    match connect.phase with
    | .asking via rest asked =>
      match answer with
      | none => some (s.goOn c (.introducing rest asked))
      | some address => some (s.goOn c (s.introduction connect.peer address via rest asked))
    | _ => none
  | .drops l => some
      { s with made := s.made.modify l fun link => { link with isOpen := false } }
  | .lost l => do
    let link ← s.made[l]?
    if link.closedByUs ∨ link.reported then some s
    else
      -- The entry goes by the peer, whatever link it names.
      some { s with
        made := s.made.modify l fun link => { link with isOpen := false, reported := true }
        links := Function.update s.links link.peerId none }
  | .disconnect peerId =>
    let s' := match s.links peerId with
      | some l => s.close l
      | none => s
    some { s' with
      links := Function.update s.links peerId none
      connects := s.connects.map fun connect =>
        if connect.peer.id = peerId then { connect with hungUp := true } else connect
      quiet := Function.update s.quiet peerId true }

end Table

end MediaCenterSync.PeerLink
