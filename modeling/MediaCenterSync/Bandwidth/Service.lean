import Mathlib.Data.Rat.Floor

/-!
# What the gateway is allowed to send out

One token bucket, which everything that sends bytes draws from.  Whoever wants to send calls `take`,
which looks at the bucket a turn at a time and waits for a timer in between.

Everything runs on one thread, and a turn is one action: the first turn of a call, or the next one
once its timer has fired.  A timer waits for whole milliseconds, and no less than it is asked for;
how much longer is up to the environment, as the clock is.  Times are in milliseconds.

`grants` is for the statements only: what was paid for, and when.
-/

namespace MediaCenterSync.Bandwidth

structure TokenBucket where
  bytesPerSecond : ℚ
  tokens : ℚ
  last : ℚ
deriving DecidableEq

namespace TokenBucket

def new (bytesPerSecond now : ℚ) : TokenBucket := ⟨bytesPerSecond, 0, now⟩

def setLimit (bucket : TokenBucket) (bytesPerSecond : ℚ) : TokenBucket :=
  { bucket with bytesPerSecond := max 0 bytesPerSecond }

/-- What is in the bucket by now, for somebody who is to pay so many bytes. -/
def refilled (bucket : TokenBucket) (bytes : ℕ) (now : ℚ) : ℚ :=
  min (max bucket.bytesPerSecond bytes)
    (bucket.tokens + (now - bucket.last) / 1000 * bucket.bytesPerSecond)

/-- One turn of the loop of `take`: what it leaves, and for how long it waits when it could not
pay. -/
def turn (bucket : TokenBucket) (bytes : ℕ) (now : ℚ) : TokenBucket × Option ℚ :=
  if bucket.bytesPerSecond ≤ 0 then (bucket, none)
  else
    let tokens := bucket.refilled bytes now
    if bytes ≤ tokens then ({ bucket with tokens := tokens - bytes, last := now }, none)
    else
      let missing := bytes - tokens
      let waitMs := max 5 (missing / bucket.bytesPerSecond * 1000)
      ({ bucket with tokens := tokens, last := now }, some (min waitMs 250))

end TokenBucket

/-- A call of `take`. -/
structure Caller where
  bytes : ℕ
  /-- When its timer is due; none once it has paid. -/
  wakeAt : Option ℚ
deriving DecidableEq

structure State where
  bucket : TokenBucket
  now : ℚ
  callers : List Caller
  /-- When so many bytes were paid for. -/
  grants : List (ℚ × ℚ)
deriving DecidableEq

inductive Act where
  /-- `send`, which is `take` -/
  | take (bytes : ℕ)
  /-- The timer of the `i`-th call fires. -/
  | wake (i : ℕ)
  /-- Time goes by. -/
  | wait (ms : ℚ)
  /-- `apply` -/
  | setLimit (uploadRateLimit : ℚ)
deriving DecidableEq

namespace State

/-- The service as it is built: `new TokenBucket()`, with the limit it is given. -/
def built (bytesPerSecond now : ℚ) : State := ⟨.new bytesPerSecond now, now, [], []⟩

/-- What is recorded of a turn. -/
def paid (s : State) (bytes : ℕ) (waits : Option ℚ) : List (ℚ × ℚ) :=
  match waits with
  | none => s.grants ++ [(s.now, (bytes : ℚ))]
  | some _ => s.grants

/-- When a timer is due that was set for so long. -/
def due (s : State) (waits : Option ℚ) : Option ℚ := waits.map fun ms => s.now + ⌊ms⌋

def turned (s : State) (bytes : ℕ) (callers : Option ℚ → List Caller) : State :=
  let (bucket, waits) := s.bucket.turn bytes s.now
  { s with bucket := bucket, callers := callers (s.due waits), grants := s.paid bytes waits }

def step (s : State) : Act → Option State
  | .take bytes => some (s.turned bytes fun due => s.callers ++ [⟨bytes, due⟩])
  | .wake i =>
    match s.callers[i]? with
    | some ⟨bytes, some wakeAt⟩ =>
      if wakeAt ≤ s.now then some (s.turned bytes fun due => s.callers.set i ⟨bytes, due⟩) else none
    | _ => none
  | .wait ms => if 0 ≤ ms then some { s with now := s.now + ms } else none
  | .setLimit uploadRateLimit => some { s with bucket := s.bucket.setLimit uploadRateLimit }

end State

end MediaCenterSync.Bandwidth
