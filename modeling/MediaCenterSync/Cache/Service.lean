import Mathlib.Algebra.Order.Field.Rat

/-!
# The cache service

A cache with a lifetime over the memory backend: the values serialised to strings, and a table of
the factory calls in flight, so that concurrent misses of one key make one call.

Everything runs on one thread, which gives way at each `await`.  An action of the model is what runs
between two of these: a call up to its first `await`, the rest of a `get` or of a `wrap` once it is
resumed, a factory that settles, and the two callbacks chained to it (`keep`, which stores the
answer, and `release`, which frees the slot).  The environment chooses the order.

Three fields are for the statements only and nothing reads them: an entry's and an answer's `origin`
is the factory call the value came from, and `barrier key` is how many factory calls had been
started when the key was last deleted.
-/

namespace MediaCenterSync.Cache

/-! ### The memory backend -/

structure Entry where
  value : String
  expiresAt : ℚ
  origin : Option ℕ

/-- The entries are in the order of the map, least recently read first. -/
structure MemoryBackend where
  entries : List (String × Entry)
  held : ℤ

/-- How much the in-process cache may hold, in characters of stored value. -/
def memoryCeiling : ℤ := 64 * 1024 * 1024

/-- `value.length`: the code units of a string. -/
def codeUnits (s : String) : ℕ := (s.toList.map fun c => if c.toNat < 0x10000 then 1 else 2).sum

/-- `key.startsWith(prefix)` -/
def startsWith (key start : String) : Bool := start.toList.isPrefixOf key.toList

namespace MemoryBackend

def forget (b : MemoryBackend) (key : String) : MemoryBackend :=
  match b.entries.lookup key with
  | none => b
  | some entry =>
    { entries := b.entries.filter (·.1 ≠ key), held := b.held - codeUnits entry.value }

def get (b : MemoryBackend) (key : String) (now : ℚ) : Option Entry × MemoryBackend :=
  match b.entries.lookup key with
  | none => (none, b)
  | some entry =>
    if entry.expiresAt ≤ now then (none, b.forget key)
    else (some entry, { b with entries := b.entries.filter (·.1 ≠ key) ++ [(key, entry)] })

/-- The loop of `_trim`, on what is left of the map. -/
def trimLoop : List (String × Entry) → ℤ → MemoryBackend
  | [], held => ⟨[], if memoryCeiling < held then 0 else held⟩
  | (key, entry) :: rest, held =>
    if memoryCeiling < held then trimLoop rest (held - codeUnits entry.value)
    else ⟨(key, entry) :: rest, held⟩

/-- `_trim`: back under the ceiling, least recently read first. -/
def trim (b : MemoryBackend) : MemoryBackend := trimLoop b.entries b.held

def set (b : MemoryBackend) (key : String) (entry : Entry) : MemoryBackend :=
  let b := b.forget key
  trim { entries := b.entries ++ [(key, entry)], held := b.held + codeUnits entry.value }

/-- `_forget` for each of some keys. -/
def forgetAll (b : MemoryBackend) (keys : List String) : MemoryBackend := keys.foldl forget b

def keys (b : MemoryBackend) : List String := b.entries.map (·.1)

def clear (b : MemoryBackend) : Option String → MemoryBackend
  | none => ⟨[], 0⟩
  | some start => b.forgetAll (b.keys.filter (startsWith · start))

def evict (b : MemoryBackend) (now : ℚ) : MemoryBackend :=
  b.forgetAll ((b.entries.filter (·.2.expiresAt ≤ now)).map (·.1))

end MemoryBackend

/-! ### The service -/

/-- `JSON`, for values of type `V`; `none` is `null`. -/
structure Json (V : Type*) where
  stringify : Option V → String
  parse : String → Option (Option V)

/-- What a factory answers: `none` is `undefined`, `some none` is `null`. -/
abbrev Answer (V : Type*) := Option (Option V)

/-- How far a factory call and its two callbacks have come; a rejection settles to `none`. -/
inductive Phase (V : Type*) where
  | running
  | answered (value : Answer V)
  | rejected
  | kept (value : Answer V)
  | settled (result : Option (Answer V))

/-- What the promise is to settle to, once the last callback has run. -/
def Phase.result {V : Type*} : Phase V → Option (Option (Answer V))
  | .kept value => some (some value)
  | .rejected => some none
  | _ => none

structure Call (V : Type*) where
  key : String
  ttlSeconds : ℚ
  phase : Phase V

/-- How far a caller of `get` or `wrap` has come. -/
inductive Stage (V : Type*) where
  /-- The backend has answered, and `get` is to be resumed. -/
  | reading (raw : Option String) (origin : Option ℕ)
  /-- `get` has returned into `wrap`. -/
  | read (cached : Option V) (origin : Option ℕ)
  /-- `wrap` waits for a factory call. -/
  | awaiting (call : ℕ)
  | returned (value : Answer V) (origin : Option ℕ)
  | threw
deriving DecidableEq

/-- A `get`, or a `wrap` when there is a lifetime; `since` is the barrier when it was called. -/
structure Caller (V : Type*) where
  key : String
  ttlSeconds : Option ℚ
  since : ℕ
  stage : Stage V

structure State (V : Type*) where
  backend : MemoryBackend
  inFlight : String → Option ℕ
  defaultTtl : ℚ
  calls : List (Call V)
  callers : List (Caller V)
  barrier : String → ℕ

inductive Act (V : Type*) where
  | get (key : String) (now : ℚ)
  | wrap (key : String) (ttlSeconds now : ℚ)
  | set (key : String) (value : Answer V) (ttlSeconds : Option ℚ) (now : ℚ)
  | delete (key : String)
  | clear (start : Option String)
  | setDefaultTtl (seconds : ℚ)
  | evict (now : ℚ)
  | onModuleDestroy
  /-- The rest of a `get`. -/
  | parse (caller : ℕ)
  /-- The rest of a `wrap`; the factory it calls may throw at once. -/
  | resume (caller : ℕ) (throws : Bool)
  /-- A factory answers or rejects. -/
  | settle (call : ℕ) (outcome : Option (Answer V))
  | keep (call : ℕ) (now : ℚ)
  | release (call : ℕ)
  /-- The promise a `wrap` waits for has settled. -/
  | deliver (caller : ℕ)

/-- What `get` has come to: the end of it, or the rest of the `wrap` that called it. -/
def Caller.answered {V : Type*} (caller : Caller V) (value : Option V) (origin : Option ℕ) :
    Stage V :=
  match caller.ttlSeconds with
  | none => .returned (some value) origin
  | some _ => .read value origin

namespace State

variable {V : Type*} (json : Json V)

def boot : State V :=
  { backend := ⟨[], 0⟩, inFlight := fun _ => none, defaultTtl := 60, calls := [], callers := []
    barrier := fun _ => 0 }

/-- The in-flight slots and the barriers of the keys that are deleted. -/
def invalidate (s : State V) (hit : String → Bool) : State V :=
  { s with
    inFlight := fun key => if hit key then none else s.inFlight key
    barrier := fun key => if hit key then s.calls.length else s.barrier key }

def delete (s : State V) (key : String) : State V :=
  let s := s.invalidate (· = key)
  { s with backend := s.backend.forget key }

def clear (s : State V) (start : Option String) : State V :=
  let s := s.invalidate fun key => start.all (startsWith key)
  { s with backend := s.backend.clear start }

/-- `set`; `undefined` is not stored. -/
def set (s : State V) (key : String) (value : Answer V) (ttlSeconds : Option ℚ) (now : ℚ)
    (origin : Option ℕ) : State V :=
  match value with
  | none => s
  | some value =>
    let entry : Entry :=
      { value := json.stringify value
        expiresAt := now + ttlSeconds.getD s.defaultTtl * 1000
        origin := origin }
    { s with backend := s.backend.set key entry }

/-- The first part of `get`, on its own or called by `wrap`. -/
def startReading (s : State V) (key : String) (ttlSeconds : Option ℚ) (now : ℚ) : State V :=
  let (entry, backend) := s.backend.get key now
  let caller : Caller V :=
    { key := key, ttlSeconds := ttlSeconds, since := s.barrier key
      stage := .reading (entry.map (·.value)) (entry.bind (·.origin)) }
  { s with backend := backend, callers := s.callers ++ [caller] }

def setStage (s : State V) (i : ℕ) (caller : Caller V) (stage : Stage V) : State V :=
  { s with callers := s.callers.set i { caller with stage := stage } }

def setPhase (s : State V) (i : ℕ) (call : Call V) (phase : Phase V) : State V :=
  { s with calls := s.calls.set i { call with phase := phase } }

/-- The factory is called, and its promise registered. -/
def startFactory (s : State V) (key : String) (ttlSeconds : ℚ) : State V :=
  { s with
    calls := s.calls ++ [{ key := key, ttlSeconds := ttlSeconds, phase := .running }]
    inFlight := Function.update s.inFlight key (some s.calls.length) }

/-- The rest of `wrap`, after its `get`. -/
def resume (s : State V) (i : ℕ) (throws : Bool) : Option (State V) := do
  let caller ← s.callers[i]?
  match caller.stage, caller.ttlSeconds with
  | .read cached origin, some ttlSeconds =>
    match cached with
    | some value => s.setStage i caller (.returned (some (some value)) origin)
    | none =>
      match s.inFlight caller.key with
      | some call => s.setStage i caller (.awaiting call)
      | none =>
        if throws then s.setStage i caller .threw
        else (s.startFactory caller.key ttlSeconds).setStage i caller (.awaiting s.calls.length)
  | _, _ => none

/-- The rest of `get`: a value that cannot be read is dropped. -/
def parse (s : State V) (i : ℕ) : Option (State V) := do
  let caller ← s.callers[i]?
  match caller.stage with
  | .reading none _ => s.setStage i caller (caller.answered none none)
  | .reading (some raw) origin =>
    match json.parse raw with
    | some value => s.setStage i caller (caller.answered value origin)
    | none => (s.delete caller.key).setStage i caller (caller.answered none none)
  | _ => none

/-- The callback that stores what the factory answered. -/
def keep (s : State V) (i : ℕ) (now : ℚ) : Option (State V) := do
  let call ← s.calls[i]?
  match call.phase with
  | .answered value =>
    (s.set json call.key value call.ttlSeconds now (some i)).setPhase i call (.kept value)
  | _ => none

/-- The callback that frees the slot, whoever holds it. -/
def release (s : State V) (i : ℕ) : Option (State V) := do
  let call ← s.calls[i]?
  let result ← call.phase.result
  let s := { s with inFlight := Function.update s.inFlight call.key none }
  s.setPhase i call (.settled result)

def deliver (s : State V) (i : ℕ) : Option (State V) := do
  let caller ← s.callers[i]?
  match caller.stage with
  | .awaiting j =>
    match (← s.calls[j]?).phase with
    | .settled (some value) => s.setStage i caller (.returned value (some j))
    | .settled none => s.setStage i caller .threw
    | _ => none
  | _ => none

def settle (s : State V) (i : ℕ) (outcome : Option (Answer V)) : Option (State V) := do
  let call ← s.calls[i]?
  match call.phase with
  | .running => s.setPhase i call (outcome.elim .rejected .answered)
  | _ => none

def step (s : State V) : Act V → Option (State V)
  | .get key now => s.startReading key none now
  | .wrap key ttlSeconds now => s.startReading key (some ttlSeconds) now
  | .set key value ttlSeconds now => s.set json key value ttlSeconds now none
  | .delete key => s.delete key
  | .clear start => s.clear start
  | .setDefaultTtl seconds => if 0 < seconds then some { s with defaultTtl := seconds } else s
  | .evict now => some { s with backend := s.backend.evict now }
  | .onModuleDestroy => some { s with backend := ⟨[], 0⟩ }
  | .parse caller => s.parse json caller
  | .resume caller throws => s.resume caller throws
  | .settle call outcome => s.settle call outcome
  | .keep call now => s.keep json call now
  | .release call => s.release call
  | .deliver caller => s.deliver caller

end State

end MediaCenterSync.Cache

/-!
## The memory backend on its own

The calls of the memory backend and the sweep of its timer, one after another on one clock, and the
loop of `_trim` a turn at a time.

Two fields are for the statements only and nothing reads them: how many calls there were, and the
call that last read or wrote a key.
-/

namespace MediaCenterSync.Cache

namespace MemoryBackend

/-- `set`, up to its `_trim`. -/
def place (b : MemoryBackend) (key : String) (entry : Entry) : MemoryBackend :=
  let b := b.forget key
  { entries := b.entries ++ [(key, entry)], held := b.held + codeUnits entry.value }

/-- One turn of the loop of `_trim`; none when the loop is over. -/
def trimTurn (b : MemoryBackend) : Option MemoryBackend :=
  if memoryCeiling < b.held then
    match b.entries with
    | [] => some { b with held := 0 }
    | (key, _) :: _ => some (b.forget key)
  else none

def trimTurns : ℕ → MemoryBackend → Option MemoryBackend
  | 0, b => some b
  | turns + 1, b => b.trimTurn.bind (trimTurns turns)

end MemoryBackend

/-! ### Calls on one clock -/

structure Memory where
  backend : MemoryBackend
  now : ℚ
  calls : ℕ
  /-- The call a key was last read or written by. -/
  lastUse : String → ℕ

inductive MemoryAct where
  | get (key : String)
  | set (key value : String) (ttlSeconds : ℚ)
  | delete (key : String)
  | clear (start : Option String)
  /-- The timer fires. -/
  | sweep
  | dispose
  /-- The clock is read again; it may have been set back. -/
  | clock (now : ℚ)

namespace Memory

/-- The backend as it is built. -/
def fresh (now : ℚ) : Memory where
  backend := ⟨[], 0⟩
  now := now
  calls := 0
  lastUse _ := 0

/-- This call reads or writes a key. -/
def use (m : Memory) (key : String) : Memory :=
  { m with lastUse := Function.update m.lastUse key m.calls }

def withBackend (m : Memory) (backend : MemoryBackend) : Memory :=
  { m with backend := backend, calls := m.calls + 1 }

/-- `set`, at the time it is. -/
def entryOf (m : Memory) (value : String) (ttlSeconds : ℚ) : Entry where
  value := value
  expiresAt := m.now + ttlSeconds * 1000
  origin := none

def step (m : Memory) : MemoryAct → Option Memory
  | .get key =>
    match m.backend.get key m.now with
    | (none, backend) => some (m.withBackend backend)
    | (some _, backend) => some ((m.use key).withBackend backend)
  | .set key value ttlSeconds =>
    some ((m.use key).withBackend (m.backend.set key (m.entryOf value ttlSeconds)))
  | .delete key => some (m.withBackend (m.backend.forget key))
  | .clear start => some (m.withBackend (m.backend.clear start))
  | .sweep => some (m.withBackend (m.backend.evict m.now))
  | .dispose => some (m.withBackend ⟨[], 0⟩)
  | .clock now => some { m with now := now }

end Memory

end MediaCenterSync.Cache
