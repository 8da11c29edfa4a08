import MediaCenterSync.TransferEngine.Run

/-!
# One transfer in the engine

What the engine holds about one transfer, and everything that can happen to it: somebody asks for
something (`enqueue`, `pause`, `resume`, `cancel` of the engine, `retry` and `repair` of the
manager), such a call goes on, the pump starts a run, a run goes on, a progress save nobody waited
for reaches the database, the process stops or starts again.

The containers are those of `Pool`, as far as this transfer is concerned: how often it is in
`_queue`, whether it is in `_starting`, and the run `_running` has for it.  When the pump starts it
is left to the environment.  A call is between two of its `await`s, like a run.
-/

namespace MediaCenterSync.TransferEngine

/-! ### Calls -/

inductive Operation where
  | enqueue
  | pause
  | resume
  | cancel (kind : TransferErrorKind)
  | retry
  | repair
deriving DecidableEq, Repr

/-- Who changes the state of the row. -/
inductive Caller where
  /-- `enqueue`, while the queue is paused; the start of the process does the same. -/
  | enqueue
  | pause
  | resume
deriving DecidableEq, Repr

def Caller.state : Caller → TransferState
  | .enqueue | .pause => .PAUSED
  | .resume => .QUEUED

inductive RetryStage where
  | require
  | delete (copy : Row)
  | save (copy : Row)
deriving DecidableEq, Repr

inductive RepairStage where
  | require
  | chunks (copy : Row)
  | verify (copy : Row) (rows : List ExistingChunk)
  | mark (copy : Row) (corrupt : List ℕ)
  | save (copy : Row)
deriving DecidableEq, Repr

/-- A call under way, and what it waits for. -/
inductive Call where
  /-- `enqueue`, past the test: the settings. -/
  | enqueue
  | setState (caller : Caller) (copy : Option Row)
  | cancel (kind : TransferErrorKind) (stage : CancelStage)
  | retry (stage : RetryStage)
  | repair (stage : RepairStage)
deriving DecidableEq, Repr

/-- What became of a call after a step. -/
inductive CallResult where
  | goes (call : Call)
  | returned
  /-- It ends by calling `enqueue`. -/
  | enqueues
deriving Repr

def Store.fileOf (s : Store) (transfer : Row) : Option (SparseFile UInt8) :=
  if transfer.state = .DONE then s.placed else s.workFile

/-- One step of a call that waited for the database or the disk. -/
def Call.step (hash : List UInt8 → String) (s : Store) : Call → Option (Store × CallResult)
  | .enqueue => none
  | .setState caller none => some (s, .goes (.setState caller (some s.row)))
  | .setState caller (some copy) =>
    some ({ s with row := { copy with state := caller.state } },
      if caller = .resume then .enqueues else .returned)
  | .cancel kind stage =>
    let (s, stage) := stage.step s kind
    some (s, stage.elim .returned fun stage => .goes (.cancel kind stage))
  | .retry .require =>
    if s.row.state = .FAILED ∨ s.row.state = .CANCELLED then
      some (s, .goes (.retry (.delete s.row)))
    else some (s, .returned)
  | .retry (.delete copy) => some ({ s with chunkRows := [] }, .goes (.retry (.save copy)))
  | .retry (.save copy) =>
    some ({ s with row := { copy with state := .QUEUED, errorKind := none } }, .enqueues)
  | .repair .require => some (s, .goes (.repair (.chunks s.row)))
  | .repair (.chunks copy) => some (s, .goes (.repair (.verify copy s.chunkRows)))
  | .repair (.verify copy rows) =>
    let report :=
      verify hash (s.fileOf copy) (rows.map (·.verifiable)) (some copy.bytesTotal) none
    if report.ok then some (s, .returned)
    else some (s, .goes (.repair (.mark copy report.corruptChunks)))
  | .repair (.mark copy []) => some (s, .goes (.repair (.save copy)))
  | .repair (.mark copy (index :: rest)) =>
    some ({ s with chunkRows := s.chunkRows.map fun row =>
        if row.index = index then { row with state := .CORRUPT } else row },
      .goes (.repair (.mark copy rest)))
  | .repair (.save copy) =>
    some ({ s with row := { copy with state := .REPAIRING } }, .enqueues)

/-! ### The engine -/

structure Engine where
  store : Store
  /-- How often the transfer is in `_queue`. -/
  queued : ℕ
  /-- It is in `_starting`. -/
  starting : Bool
  /-- The run `_running` has for it. -/
  registered : Option ℕ
  runs : List Run
  calls : List Call
  draining : Bool
deriving Repr

namespace Engine

def boot (store : Store) : Engine where
  store := store
  queued := 0
  starting := false
  registered := none
  runs := []
  calls := []
  draining := false

/-- The transfer is nowhere in the engine. -/
def Idle (e : Engine) : Prop := e.queued = 0 ∧ e.starting = false ∧ e.registered = none

instance (e : Engine) : Decidable e.Idle := inferInstanceAs (Decidable (_ ∧ _ ∧ _))

/-- `enqueue`, up to its first `await`. -/
def enqueue (e : Engine) : Engine :=
  if e.Idle then { e with calls := e.calls ++ [.enqueue] } else e

def pauseRun (r : Run) : Run :=
  { r with pausing := true, aborted := r.aborted <|> some .stop }

def cancelRun (kind : TransferErrorKind) (r : Run) : Run :=
  { r with cancelling := true, cancelKind := kind, aborted := r.aborted <|> some .cancel }

/-- An operation, up to its first `await`. -/
def issue (e : Engine) : Operation → Engine
  | .enqueue => e.enqueue
  | .pause =>
    match e.registered with
    | some k => { e with runs := e.runs.modify k pauseRun }
    | none => { e with queued := e.queued - 1, calls := e.calls ++ [.setState .pause none] }
  | .resume => { e with calls := e.calls ++ [.setState .resume none] }
  | .cancel kind =>
    match e.registered with
    | some k => { e with runs := e.runs.modify k (cancelRun kind) }
    | none => { e with queued := e.queued - 1, calls := e.calls ++ [.cancel kind .load] }
  | .retry => { e with calls := e.calls ++ [.retry .require] }
  | .repair => { e with calls := e.calls ++ [.repair .require] }

/-- What a step of the `k`-th run does to the containers. -/
def apply (e : Engine) (k : ℕ) : Effect → Engine
  | .stays => e
  | .register => { e with registered := some k }
  | .leave => { e with registered := none, queued := e.queued - 1 }
  | .finish => { e with registered := none, starting := false }

/-- The `i`-th call is done, or goes on. -/
def settle (e : Engine) (i : ℕ) : CallResult → Engine
  | .goes call => { e with calls := e.calls.set i call }
  | .returned => { e with calls := e.calls.eraseIdx i }
  | .enqueues => { e with calls := e.calls.eraseIdx i }.enqueue

/-- The states a starting process takes back in hand. -/
def resumable : TransferState → Bool
  | .QUEUED | .CONNECTING | .DOWNLOADING | .VERIFYING | .REPAIRING | .PLACING => true
  | _ => false

/-- The process stops where it is, and starts again. -/
def restart (e : Engine) (queuePaused : Bool) : Engine :=
  let e' := boot e.store
  if resumable e.store.row.state then
    if queuePaused then { e' with calls := [.setState .enqueue none] } else { e' with queued := 1 }
  else e'

inductive Act where
  | issue (operation : Operation)
  /-- The `i`-th call goes on. -/
  | call (i : ℕ)
  /-- The settings the `i`-th call waited for arrive. -/
  | settings (i : ℕ) (queuePaused : Bool)
  /-- The pump takes the transfer off the queue. -/
  | start (settings : Settings)
  /-- The main thread of the `k`-th run goes on. -/
  | run (k : ℕ) (a : RunAct)
  /-- A worker of it goes on, at the top of its loop or in a fetch. -/
  | work (k w : ℕ) (a : Option FetchAct)
  /-- A fetch of its repair goes on. -/
  | refetch (k : ℕ) (a : FetchAct)
  /-- A progress save of it reaches the database. -/
  | flush (k : ℕ)
  /-- `onModuleDestroy` -/
  | drain
  | restart (queuePaused : Bool)
deriving DecidableEq, Repr

def step (content : ServiceId → List UInt8) (hash : List UInt8 → String) (e : Engine) :
    Act → Option Engine
  | .issue operation => some (e.issue operation)
  | .call i => do
    let call ← e.calls[i]?
    let (s, result) ← call.step hash e.store
    return { e with store := s }.settle i result
  | .settings i queuePaused =>
    if e.calls[i]? = some .enqueue then
      if queuePaused then some { e with calls := e.calls.set i (.setState .enqueue none) }
      else some { e with calls := e.calls.eraseIdx i, queued := e.queued + 1 }
    else none
  | .start settings =>
    if 0 < e.queued then
      some { e with
        queued := e.queued - 1, starting := true, runs := e.runs ++ [Run.boot settings] }
    else none
  | .run k a => do
    let r ← e.runs[k]?
    let (s, r, effect) ← r.step hash e.store a
    return { e with store := s, runs := e.runs.set k r }.apply k effect
  | .work k w a => do
    let r ← e.runs[k]?
    let (s, r) ← r.work content e.store w e.draining a
    return { e with store := s, runs := e.runs.set k r }
  | .refetch k a => do
    let r ← e.runs[k]?
    let (s, r) ← r.refetch content e.store a
    return { e with store := s, runs := e.runs.set k r }
  | .flush k => do
    let r ← e.runs[k]?
    if 0 < r.saves then
      return { e with
        store := { e.store with row := r.transfer },
        runs := e.runs.set k { r with saves := r.saves - 1 } }
    else none
  | .drain =>
    match e.registered with
    | some k => some { e with draining := true, runs := e.runs.modify k pauseRun }
    | none => some { e with draining := true }
  | .restart queuePaused => some (e.restart queuePaused)

end Engine

end MediaCenterSync.TransferEngine
