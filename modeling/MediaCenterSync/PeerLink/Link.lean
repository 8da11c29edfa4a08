import MediaCenterSync.PeerRelay.Frames

/-!
# One live link to another gateway

A link owns a socket and multiplexes requests over it: each gets an identifier, a timer and an entry
in `_pending`, and its answer is either one value or a stream of bytes.  A request for a stream
resolves as soon as it is sent; the bytes come afterwards in binary frames, and a text frame with
`end` closes the stream.

`requests` remembers every request made, so that what became of a stream can be said after its entry
is gone; `pending` is the keys of `_pending`.
-/

namespace MediaCenterSync.PeerLink

open PeerRelay (isRelayFrame readUInt32BE)

def FRAME_HEADER_BYTES : ℕ := 4

/-- What has become of a stream; the caller may destroy it as well. -/
inductive StreamState where
  | live
  | ended
  | destroyed
deriving DecidableEq

structure PassThrough where
  written : List UInt8
  state : StreamState

namespace PassThrough

def write (stream : PassThrough) (data : List UInt8) : PassThrough :=
  if stream.state = .live then { stream with written := stream.written ++ data } else stream

/-- `end` -/
def finish (stream : PassThrough) : PassThrough :=
  if stream.state = .live then { stream with state := .ended } else stream

def destroy (stream : PassThrough) : PassThrough := { stream with state := .destroyed }

end PassThrough

/-- The promise of a request; `streaming` when it was resolved with its stream. -/
inductive Outcome (V : Type*) where
  | waiting
  | streaming
  | resolved (result : V)
  | rejected (error : String)
deriving DecidableEq

def Outcome.settle {V : Type*} (outcome next : Outcome V) : Outcome V :=
  match outcome with
  | .waiting => next
  | settled => settled

structure Request (V : Type*) where
  method : String
  stream : Option PassThrough
  timer : Bool
  outcome : Outcome V

/-- A text frame.  An identifier that is not a number, or one no request can have, is `none`; so is
an `error` that is not truthy. -/
structure Message (V : Type*) where
  id : Option ℕ
  result : V
  error : Option String
  final : Bool

structure Link (V : Type*) where
  requests : ℕ → Option (Request V)
  pending : List ℕ
  nextRequestId : ℕ
  connected : Bool
  /-- Whether there is a channel for relayed traffic. -/
  relays : Bool
  closedByUs : Bool
  reported : Bool
  /-- How often `_onLost` was called. -/
  reports : ℕ

inductive Act (V : Type*) where
  /-- `request` or `requestStream`; serialising it or handing it to the socket may throw. -/
  | send (method : String) (streaming : Bool) (throws : Option String)
  | binary (data : List UInt8)
  /-- A text frame; `none` when nothing can be read from it. -/
  | text (message : Option (Message V))
  | timeout (id : ℕ)
  /-- The socket's `close` or `error`, and whether the socket is still open after it. -/
  | lost (error : String) (connected : Bool)
  | close
  /-- The caller destroys its stream. -/
  | destroy (id : ℕ)

namespace Link

variable {V : Type*}

def boot (relays : Bool) : Link V :=
  { requests := fun _ => none, pending := [], nextRequestId := 1, connected := true
    relays := relays, closedByUs := false, reported := false, reports := 0 }

def update (s : Link V) (id : ℕ) (f : Request V → Request V) : Link V :=
  { s with requests := Function.update s.requests id ((s.requests id).map f) }

/-- `_pending.delete` -/
def forget (s : Link V) (id : ℕ) : Link V := { s with pending := s.pending.filter (· ≠ id) }

def failed (error : String) (request : Request V) : Request V :=
  { request with
    timer := false
    stream := request.stream.map .destroy
    outcome := request.outcome.settle (.rejected error) }

def failAll (s : Link V) (error : String) : Link V :=
  { s with
    requests := fun id =>
      if id ∈ s.pending then (s.requests id).map (failed error) else s.requests id
    pending := [] }

def send (s : Link V) (method : String) (streaming : Bool) (throws : Option String) : Link V :=
  if s.connected then
    let id := s.nextRequestId
    let request : Request V :=
      { method := method
        stream := if streaming then some ⟨[], .live⟩ else none
        timer := true
        outcome :=
          match throws with
          | some error => .rejected error
          | none => if streaming then .streaming else .waiting }
    { s with
      nextRequestId := id + 1
      requests := Function.update s.requests id (some request)
      pending := s.pending ++ [id] }
  else s

/-- `_onMessage` on a binary frame. -/
def onBinary (s : Link V) (data : List UInt8) : Link V :=
  if data.length < FRAME_HEADER_BYTES then s
  else if s.relays ∧ isRelayFrame data then s
  else
    let id := readUInt32BE data 0
    if id ∈ s.pending then
      s.update id fun request =>
        { request with stream := request.stream.map (·.write (data.drop FRAME_HEADER_BYTES)) }
    else s

/-- `_onMessage` on a text frame. -/
def onText (s : Link V) (message : Message V) : Link V :=
  match message.id with
  | none => s
  | some id =>
    if id ∈ s.pending then
      match s.requests id with
      | none => s
      | some pending =>
        match message.error with
        | some error => (s.forget id).update id (failed error)
        | none =>
          if pending.stream.isSome then
            -- Only an explicit end closes a byte stream.
            if message.final then
              (s.forget id).update id fun request =>
                { request with timer := false, stream := request.stream.map .finish }
            else s
          else
            (s.forget id).update id fun request =>
              { request with
                timer := false
                outcome := request.outcome.settle (.resolved message.result) }
    else s

def onTimeout (s : Link V) (id : ℕ) : Option (Link V) := do
  let request ← s.requests id
  if request.timer then
    let error := "peer request \"" ++ request.method ++ "\" timed out"
    (s.forget id).update id fun request =>
      { request with timer := false, outcome := request.outcome.settle (.rejected error) }
  else none

def lost (s : Link V) (error : String) (connected : Bool) : Link V :=
  let s := { s.failAll error with connected := s.connected && connected }
  if s.closedByUs ∨ s.reported then s else { s with reported := true, reports := s.reports + 1 }

def close (s : Link V) : Link V :=
  { s.failAll "link closed" with closedByUs := true, connected := false }

def step (s : Link V) : Act V → Option (Link V)
  | .send method streaming throws => some (s.send method streaming throws)
  | .binary data => some (s.onBinary data)
  | .text none => some s
  | .text (some message) => some (s.onText message)
  | .timeout id => s.onTimeout id
  | .lost error connected => some (s.lost error connected)
  | .close => some s.close
  | .destroy id =>
    some (s.update id fun request => { request with stream := request.stream.map .destroy })

end Link

end MediaCenterSync.PeerLink
