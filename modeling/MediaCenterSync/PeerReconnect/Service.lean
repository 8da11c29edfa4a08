import Mathlib.Algebra.Group.Nat.Defs
import Mathlib.Logic.Function.Basic

/-!
# Dialling a peer again

A link that drops is dialled again after a delay that doubles with each attempt, up to a cap.  The
service keeps one timer for each peer (`_timers`) and counts its attempts; whether a peer is still
welcome is for the dial to say, and what it says decides whether there is a next attempt.

A dial takes its time: everything else the service can be asked for may come between its start and
its answer.  A `Service` is therefore its two maps, the timers the runtime still holds, and the
dials that were begun.
-/

namespace MediaCenterSync.PeerReconnect

def RECONNECT_FIRST_DELAY_MS : ℕ := 5000

/-- The cap. -/
def RECONNECT_MAX_DELAY_MS : ℕ := 15 * 60000

/-- How long to wait before attempt number `attempt`, counting from one. -/
def reconnectDelay (attempt : ℕ) : ℕ :=
  min (RECONNECT_FIRST_DELAY_MS * 2 ^ (attempt - 1)) RECONNECT_MAX_DELAY_MS

inductive PeerDialOutcome where
  | LINKED
  | UNREACHABLE
  | REFUSED

/-- What `setTimeout` was given. -/
structure Timer where
  peerId : String
  delay : ℕ

structure Service where
  /-- `_dial`: somebody registered. -/
  dial : Bool
  /-- `_timers`, by peer. -/
  timers : String → Option ℕ
  /-- `_attempts`, by peer; a peer without an entry has made none. -/
  attempts : String → ℕ
  /-- The timers that were armed, until they fire or are cleared. -/
  armed : List (Option Timer)
  /-- The dials that were begun, by the peer they are of, until they answer. -/
  dials : List (Option String)
  /-- The peers that were cancelled, or refused us, and were not asked for since. -/
  stopped : String → Bool

inductive Event where
  | onDial
  | schedule (peerId : String)
  | now (peerId : String)
  | cancel (peerId : String)
  | onModuleDestroy
  /-- The delay of a timer is over. -/
  | fires (timer : ℕ)
  /-- A dial answers; one that throws is `UNREACHABLE`. -/
  | answers (dial : ℕ) (outcome : PeerDialOutcome)

namespace Service

def boot : Service := ⟨false, fun _ => none, fun _ => 0, [], [], fun _ => false⟩

variable (s : Service)

def clear (peerId : String) : Service :=
  match s.timers peerId with
  | none => s
  | some timer =>
    { s with
      armed := s.armed.set timer none
      timers := Function.update s.timers peerId none }

/-- `_arm`: replacing rather than adding. -/
def arm (peerId : String) (delay : ℕ) : Service :=
  let cleared := s.clear peerId
  { cleared with
    armed := cleared.armed ++ [some ⟨peerId, delay⟩]
    timers := Function.update cleared.timers peerId (some cleared.armed.length) }

def schedule (peerId : String) : Service :=
  let attempt := s.attempts peerId + 1
  { s with attempts := Function.update s.attempts peerId attempt }.arm peerId
    (reconnectDelay attempt)

/-- `_attempt`, up to its dial. -/
def attempt (peerId : String) : Service :=
  if s.dial then { s with dials := s.dials ++ [some peerId] } else s

def now (peerId : String) : Service := (s.clear peerId).attempt peerId

def forget (peerId : String) : Service :=
  { s with attempts := Function.update s.attempts peerId 0 }

def cancel (peerId : String) : Service :=
  { (s.clear peerId).forget peerId with stopped := Function.update s.stopped peerId true }

def onModuleDestroy : Service :=
  { s with
    timers := fun _ => none
    attempts := fun _ => 0
    armed := s.armed.mapIdx fun id timer =>
      timer.filter fun timer => s.timers timer.peerId ≠ some id }

def fired (id : ℕ) (timer : Timer) : Service :=
  { s with
    armed := s.armed.set id none
    timers := Function.update s.timers timer.peerId none }.attempt timer.peerId

/-- `_attempt`, from the answer of its dial. -/
def answered (id : ℕ) (peerId : String) : PeerDialOutcome → Service
  | .LINKED => { s with dials := s.dials.set id none }.forget peerId
  | .REFUSED => { s with dials := s.dials.set id none }.cancel peerId
  | .UNREACHABLE => { s with dials := s.dials.set id none }.schedule peerId

def asked (peerId : String) : Service :=
  { s with stopped := Function.update s.stopped peerId false }

/-- A timer fires while it is armed, and a dial answers while it is in flight. -/
def step (s : Service) : Event → Option Service
  | .onDial => some { s with dial := true }
  | .schedule peerId => some ((s.schedule peerId).asked peerId)
  | .now peerId => some ((s.now peerId).asked peerId)
  | .cancel peerId => some (s.cancel peerId)
  | .onModuleDestroy => some s.onModuleDestroy
  | .fires id => (s.armed[id]?.join).map (s.fired id)
  | .answers id outcome => (s.dials[id]?.join).map (s.answered id · outcome)

end Service

end MediaCenterSync.PeerReconnect
