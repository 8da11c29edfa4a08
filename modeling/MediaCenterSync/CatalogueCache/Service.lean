import Mathlib.Data.List.Basic

/-!
# The service that keeps the catalogue's projections warm

`CatalogueCacheService`: a rebuild is asked for with `schedule`, which waits two seconds for others to
arrive, or with `refreshNow`, which a person waits for.  A pass is `_run`: it calls the refresher,
asks for the version when something moved, and its `finally` schedules what was asked for meanwhile.

A pass is a chain of promises, so other calls come between its stages; each stage is an action of its
own.  The passes in flight are a list: nothing but the code keeps them to one.  The caller of
`refreshNow` waits for the promise of one pass, and its number is among the waiters of that pass.

The clock is left out: the times the events carry are read by nothing here.
-/

namespace MediaCenterSync.CatalogueCache

/-- `CacheRefreshReason`. -/
inductive Reason where
  | scan
  | settings
  | manual
  | boot

inductive Event where
  | cacheState (refreshing : Bool) (reason : Reason)
  | catalogueChanged (version : String)

/-- How far the promise of a pass is. -/
inductive Stage where
  | refreshing
  /-- Something moved and `_matches.version` is being asked. -/
  | versioning
  /-- Only the `finally` is left. -/
  | settled
  deriving DecidableEq

/-- The promise of one `_run`. -/
structure Pass where
  id : ℕ
  reason : Reason
  /-- A refresher was registered when the pass began. -/
  refresher : Bool
  stage : Stage
  /-- The calls of `refreshNow` that wait for this promise. -/
  waiters : List ℕ

structure Service where
  timer : Option Reason
  running : Option ℕ
  again : Option Reason
  refresher : Bool
  passes : List Pass
  /-- How often `_run` was called. -/
  started : ℕ
  /-- How often `refreshNow` was called. -/
  asked : ℕ
  events : List Event

def boot : Service where
  timer := none
  running := none
  again := none
  refresher := false
  passes := []
  started := 0
  asked := 0
  events := []

namespace Service

def schedule (s : Service) (reason : Reason) : Service :=
  if s.running.isSome then { s with again := some reason }
  else if s.timer.isSome then s
  else { s with timer := some reason }

/-- Whether a pass is in flight. -/
def refreshing (s : Service) : Bool := s.running.isSome

/-- `_run`, up to the first stage of its promise. -/
def run (s : Service) (reason : Reason) : Service :=
  { s with
    running := some s.started
    passes := s.passes ++ [⟨s.started, reason, s.refresher, .refreshing, []⟩]
    started := s.started + 1
    events := s.events ++ [.cacheState true reason] }

/-- `await` of the promise of a pass, by the call of `refreshNow` that is being made. -/
def await (s : Service) (id : ℕ) : Service :=
  { s with
    asked := s.asked + 1
    passes := s.passes.map fun p =>
      if p.id = id then { p with waiters := p.waiters ++ [s.asked] } else p }

def refreshNow (s : Service) (reason : Reason) : Service :=
  let s := { s with timer := none }
  match s.running with
  | some id => s.await id
  | none => (s.run reason).await s.started

def fire (s : Service) : Option Service :=
  s.timer.map fun reason => { s with timer := none }.run reason

/-! ### The stages of a pass -/

def find (s : Service) (id : ℕ) (stage : Stage) : Option Pass :=
  s.passes.find? fun p => p.id = id ∧ p.stage = stage

/-- The promise of a pass goes on. -/
def advance (s : Service) (id : ℕ) (stage : Stage) : Service :=
  { s with passes := s.passes.map fun p => if p.id = id then { p with stage := stage } else p }

/-- The refresher says whether something moved, or throws. -/
def refreshed (s : Service) (id : ℕ) (outcome : Option Bool) : Option Service :=
  (s.find id .refreshing).bind fun p =>
    -- with nothing registered the answer is that nothing moved
    if p.refresher = false ∧ outcome ≠ some false then none
    else if outcome = some true then some (s.advance id .versioning)
    else some (s.advance id .settled)

/-- The version of the table is there, or could not be read. -/
def versioned (s : Service) (id : ℕ) (version : Option String) : Option Service :=
  (s.find id .versioning).map fun _ =>
    let s := s.advance id .settled
    match version with
    | some version => { s with events := s.events ++ [.catalogueChanged version] }
    | none => s

/-- The `finally` of a pass; its promise is settled and those who wait for it go on. -/
def finish (s : Service) (id : ℕ) : Option Service :=
  (s.find id .settled).map fun p =>
    let pending := s.again
    let s := { s with
      running := none
      again := none
      passes := s.passes.filter fun q => q.id ≠ id
      events := s.events ++ [.cacheState false p.reason] }
    match pending with
    | some reason => s.schedule reason
    | none => s

end Service

/-! ### Everything that happens to it -/

inductive Act where
  | onRefresh
  | schedule (reason : Reason)
  | refreshNow (reason : Reason)
  | fire
  | refreshed (id : ℕ) (outcome : Option Bool)
  | versioned (id : ℕ) (version : Option String)
  | finish (id : ℕ)
  /-- Nothing happens here. -/
  | idle

def step (s : Service) : Act → Option Service
  | .onRefresh => some { s with refresher := true }
  | .schedule reason => some (s.schedule reason)
  | .refreshNow reason => some (s.refreshNow reason)
  | .fire => s.fire
  | .refreshed id outcome => s.refreshed id outcome
  | .versioned id version => s.versioned id version
  | .finish id => s.finish id
  | .idle => some s

end MediaCenterSync.CatalogueCache
