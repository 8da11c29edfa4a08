import MediaCenterSync.PeerRelay.Registration

/-!
# The relay service

The registrations of a gateway, and the calls of `reserve` that have still to hear whether the
household agreed to carry anything.  The bytes of a link go through its reader; a frame read off
them is dispatched by an action of its own, so every order of frames and other events is a run.
-/

namespace MediaCenterSync.PeerRelay

/-- A `reserve` that waits for the settings. -/
structure Asking where
  holderPeerId : String
  payload : List UInt8

structure Service where
  links : List Registration
  endpoint : Bool
  stopping : Bool
  asking : List Asking

namespace Service

inductive Act where
  | bind
  | register (peerId : String) (dialled : Bool)
  /-- The transport of a link can carry a frame from now on, or no more. -/
  | transport (link : ℕ) (isOpen : Bool)
  | unregister (link : ℕ)
  | onModuleDestroy
  | reserve (holderPeerId : String) (payload : List UInt8)
  /-- The settings have answered; the transport may throw at the `OPEN`. -/
  | carrying (call : ℕ) (relayForPeers throws : Bool)
  /-- A binary message of relayed traffic. -/
  | receive (link : ℕ) (data : List UInt8)
  /-- The next frame that was read. -/
  | dispatch (link : ℕ)
  | at (link : ℕ) (act : Registration.Act)

def boot : Service := { links := [], endpoint := false, stopping := false, asking := [] }

def carriedCount (s : Service) : ℕ :=
  ((s.links.filter (·.linked)).map fun r => r.carried.length).sum

/-- `_routeTo`: a link to the holder, in whichever direction one exists. -/
def routeTo (s : Service) (peerId : String) : Option ℕ :=
  s.links.findIdx? fun r => r.linked && r.peerId = peerId && r.isOpen

def modifyLink (s : Service) (link : ℕ) (f : Registration → Registration) : Service :=
  { s with links := s.links.modify link f }

/-- `reserve`, once the settings have answered; a refusal leaves nothing behind. -/
def carrying (s : Service) (call : ℕ) (relayForPeers throws : Bool) : Option Service := do
  let ask ← s.asking[call]?
  let s : Service := { s with asking := s.asking.eraseIdx call }
  some <|
    if !relayForPeers then s
    else if RELAY_MAX_SESSIONS ≤ s.carriedCount then s
    else
      match s.routeTo ask.holderPeerId with
      | none => s
      | some link => s.modifyLink link (·.reserve ask.payload throws)

/-- `deliver`, up to its frames; a link that cannot be read is let go of. -/
def receive (r : Registration) (data : List UInt8) : Registration :=
  let (frames, reader) := Framing.Reader.push scanRelayFrame r.reader data
  if reader.failed then { r with reader := reader }.unregister
  else { r with reader := reader, arrived := r.arrived ++ frames }

/-- The next frame of `deliver`. -/
def dispatchNext (ready : Bool) (parses : List UInt8 → Bool) (r : Registration) : Registration :=
  match r.arrived with
  | [] => r
  | frame :: rest => { r with arrived := rest }.dispatch ready parses frame

variable (parses : List UInt8 → Bool)

def step (s : Service) : Act → Option Service
  | .bind => some { s with endpoint := true }
  | .register peerId dialled =>
    some { s with links := s.links ++ [Registration.create peerId dialled] }
  | .transport link isOpen => some (s.modifyLink link ({ · with isOpen := isOpen }))
  | .unregister link => some (s.modifyLink link (·.unregister))
  | .onModuleDestroy =>
    some { s with stopping := true, links := s.links.map (·.unregister) }
  | .reserve holderPeerId payload =>
    some { s with asking := s.asking ++ [⟨holderPeerId, payload⟩] }
  | .carrying call relayForPeers throws => s.carrying call relayForPeers throws
  | .receive link data => some (s.modifyLink link (receive · data))
  | .dispatch link =>
    some (s.modifyLink link (dispatchNext (s.endpoint && !s.stopping) parses))
  | .at link act => do
    let r ← s.links[link]?
    let r ← r.step act
    return { s with links := s.links.set link r }

end Service

end MediaCenterSync.PeerRelay

/-!
## A link between two gateways

Both ends of one link run the relay: `ends true` is the registration of the side that dialled,
`ends false` that of the side that answered.  Each carries sessions to the other.  The frames one
end has handed to its transport are under way, in order and without loss, until the other end
dispatches them.
-/

namespace MediaCenterSync.PeerRelay

structure Link where
  ends : Bool → Registration

namespace Link

inductive Act where
  /-- A `reserve` that was agreed to and has this link as its route. -/
  | reserve (side : Bool) (payload : List UInt8)
  | at (side : Bool) (act : Registration.Act)
  /-- The next frame under way to `side`; `ready` is whether it can take a session just now. -/
  | deliver (side ready : Bool)

def boot (peers : Bool → String) : Link :=
  ⟨fun side => Registration.create (peers !side) side⟩

def setEnd (l : Link) (side : Bool) (r : Registration) : Link :=
  ⟨Function.update l.ends side r⟩

variable (parses : List UInt8 → Bool)

def step (l : Link) : Act → Option Link
  | .reserve side payload => some (l.setEnd side ((l.ends side).reserve payload false))
  | .at side act => do
    let r ← (l.ends side).step act
    return l.setEnd side r
  | .deliver side ready =>
    match (l.ends !side).outbox with
    | [] => none
    | frame :: rest =>
      let sent := l.setEnd (!side) { l.ends !side with outbox := rest }
      some (sent.setEnd side ((l.ends side).dispatch ready parses frame))

end Link

end MediaCenterSync.PeerRelay
