import Mathlib.Data.Finset.Card
import MediaCenterSync.Lib.LabelledRun

/-!
# The pool of the transfer engine

`TransferEngineService` keeps a transfer in three containers: `_queue`, a list of identifiers
waiting for a place; `_starting`, the set of those taken off the queue; `_running`, a map from an
identifier to what the engine holds about it once its download has begun.  `enqueue` adds to the
first, `_pump` moves from the first to the second, `_run` registers in the third, and the
callback of a finished `_run` takes the identifier out of the last two.

The model runs JavaScript's one thread: between two `await`s nothing else runs, so one action is
one stretch of code up to the next `await` the pool depends on.  `enqueue` and `_pump` both wait
for the settings, hence are two actions each; `resume` and `retry` write the row first and call
`enqueue` when that is done.  What a run does with bytes and rows is not in this model: it
registers, it may leave `_running` on its own (a cancellation seen by `_run` or `_finish`), and
it ends, in any order the code allows.
-/

namespace MediaCenterSync.TransferEngine

/-- How far one execution of `_run` has come, as far as the containers can tell. -/
inductive Phase where
  /-- Before `this._running.set`: loading, connecting, planning. -/
  | preparing
  /-- Between `this._running.set` and the end, or an early `this._running.delete`. -/
  | registered
  /-- After the `this._running.delete` that precedes an inner `cancel`. -/
  | unregistered
deriving Repr

/-- One execution of `_run` that has started and not yet finished. -/
structure Execution (ι : Type*) where
  transferId : ι
  phase : Phase
deriving Repr

/-- The containers of the engine and the calls that are between two of their `await`s. -/
structure Pool (ι : Type*) where
  queue : List ι
  starting : Finset ι
  /-- The keys of `_running`. -/
  running : Finset ι
  /-- The executions of `_run` under way, oldest first. -/
  active : List (Execution ι)
  /-- `enqueue` calls past the membership test, waiting for the settings. -/
  enqueuing : List ι
  /-- `resume` and `retry` calls writing the row before they call `enqueue`. -/
  requeuing : List ι
  /-- A `_pump` call is waiting for the settings (`_pumping`). -/
  pumping : Bool
  draining : Bool

namespace Pool

variable {ι : Type*} [DecidableEq ι]

/-- The engine after `onApplicationBootstrap` has pushed the resumable rows. -/
def boot (resumable : List ι) : Pool ι :=
  { queue := resumable, starting := ∅, running := ∅, active := [], enqueuing := [],
    requeuing := [], pumping := true, draining := false }

def activeIds (s : Pool ι) : List ι := s.active.map Execution.transferId

def distinctActive (s : Pool ι) : ℕ := s.activeIds.toFinset.card

/-- `enqueue` up to its `await this._settings.get()`. -/
def enqueue (s : Pool ι) (transferId : ι) : Pool ι :=
  if transferId ∈ s.running ∨ transferId ∈ s.starting ∨ transferId ∈ s.queue then s
  else { s with enqueuing := transferId :: s.enqueuing }

/-- `_pump` up to its `await this._settings.get()`. -/
def pump (s : Pool ι) : Pool ι :=
  if s.pumping || s.draining then s else { s with pumping := true }

/-- One turn of the loop of `_pump`: the head of the queue starts. -/
def start (s : Pool ι) (transferId : ι) (rest : List ι) : Pool ι :=
  { s with queue := rest, starting := insert transferId s.starting,
           active := s.active ++ [⟨transferId, .preparing⟩] }

/-- The loop of `_pump` over the queue it finds. -/
def pumpLoopOn (maxParallelTransfers : ℕ) : List ι → Pool ι → Pool ι
  | [], s => s
  | transferId :: rest, s =>
    if s.running.card + s.starting.card < maxParallelTransfers then
      pumpLoopOn maxParallelTransfers rest (s.start transferId rest)
    else s

/-- The loop of `_pump`. -/
def pumpLoop (maxParallelTransfers : ℕ) (s : Pool ι) : Pool ι :=
  pumpLoopOn maxParallelTransfers s.queue s

inductive Act (ι : Type*) where
  /-- Somebody calls `enqueue`. -/
  | enqueue (transferId : ι)
  /-- Somebody calls `resume`, or `retry` on the manager: the row is written first. -/
  | requeue (transferId : ι)
  /-- That row is written, and the call goes on to `enqueue`. -/
  | requeued (transferId : ι)
  /-- The settings an `enqueue` waited for arrive. -/
  | enqueueSettings (transferId : ι) (queuePaused : Bool)
  /-- `_removeFromQueue`, by a pause or a cancellation. -/
  | removeFromQueue (transferId : ι)
  /-- Somebody calls `_pump`. -/
  | pump
  /-- The settings a `_pump` waited for arrive, and it runs to its end. -/
  | pumpSettings (queuePaused : Bool)
  /-- The `k`-th execution reaches `this._running.set`. -/
  | register (k : ℕ)
  /-- The `k`-th execution reaches its early `this._running.delete`. -/
  | unregister (k : ℕ)
  /-- The `k`-th execution ends and its `finally` callback runs. -/
  | finish (k : ℕ)
  /-- `onModuleDestroy`. -/
  | drain
deriving Repr

/-- One action under a constant `Settings.maxParallelTransfers`. -/
def step (maxParallelTransfers : ℕ) (s : Pool ι) : Act ι → Option (Pool ι)
  | .enqueue transferId => some (s.enqueue transferId)
  | .requeue transferId => some { s with requeuing := transferId :: s.requeuing }
  | .requeued transferId =>
    if transferId ∈ s.requeuing then
      some ({ s with requeuing := s.requeuing.erase transferId }.enqueue transferId)
    else none
  | .enqueueSettings transferId queuePaused =>
    if transferId ∈ s.enqueuing then
      let s := { s with enqueuing := s.enqueuing.erase transferId }
      -- A paused queue has the row written as paused instead of queued.
      if queuePaused then some s
      else some { s with queue := s.queue ++ [transferId] }.pump
    else none
  | .removeFromQueue transferId => some { s with queue := s.queue.erase transferId }
  | .pump => some s.pump
  | .pumpSettings queuePaused =>
    if s.pumping then
      let s := if queuePaused then s else s.pumpLoop maxParallelTransfers
      some { s with pumping := false }
    else none
  | .register k =>
    match s.active[k]? with
    | some ⟨transferId, .preparing⟩ =>
      some { s with active := s.active.set k ⟨transferId, .registered⟩,
                    running := insert transferId s.running }
    | _ => none
  | .unregister k =>
    match s.active[k]? with
    | some ⟨transferId, .registered⟩ =>
      some { s with active := s.active.set k ⟨transferId, .unregistered⟩,
                    running := s.running.erase transferId }
    | _ => none
  | .finish k =>
    match s.active[k]? with
    | some ⟨transferId, _⟩ =>
      some { s with active := s.active.eraseIdx k, starting := s.starting.erase transferId,
                    running := s.running.erase transferId }.pump
    | none => none
  | .drain => some { s with draining := true }

end Pool

end MediaCenterSync.TransferEngine
