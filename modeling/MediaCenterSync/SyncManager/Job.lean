import MediaCenterSync.TransferEngine.ChunkPlanner

/-!
# A run and the transfers that report to it

Every change of a transfer is reported to the manager (`_recordTransferState`): the line of its item
is found, filled and saved, and then the job is read, counted anew from its lines, and saved.  Each
of these is a call of a repository that is awaited, so reports under way at the same time take turns
between any two of them.  A `JobRun` is the job, its lines, and how far every report under way has
come.
-/

namespace MediaCenterSync.SyncManager

open TransferEngine (TransferState)

/-! ### Rows -/

inductive SyncJobState where
  | PENDING
  | RUNNING
  | PAUSED
  | DONE
  | FAILED
  | CANCELLED
deriving DecidableEq

inductive SyncJobItemState where
  | PENDING
  | RUNNING
  | DONE
  | FAILED
  | SKIPPED
deriving DecidableEq

def LIVE_STATES : List SyncJobState := [.PENDING, .RUNNING, .PAUSED]

/-- The columns of a transfer that a report reads. -/
structure Transfer where
  id : String
  itemId : String
  jobId : Option String
  title : String
  state : TransferState
  bytesDone : ℕ
  errorKind : Option String
  error : Option String
  startedAt : Option ℤ
  finishedAt : Option ℤ
deriving DecidableEq

/-- One line of a run. -/
structure SyncJobItem where
  id : String
  itemId : String
  state : SyncJobItemState
  bytesDone : ℕ
  transferId : Option String
  error : Option String
  startedAt : Option ℤ
  finishedAt : Option ℤ
deriving DecidableEq

structure SyncJob where
  id : String
  planId : Option String
  state : SyncJobState
  itemsPlanned : ℕ
  itemsDone : ℕ
  itemsFailed : ℕ
  bytesDone : ℕ
  finishedAt : Option ℤ
deriving DecidableEq

inductive NotificationEvent where
  | TRANSFER_FAILED
  | SYNC_FINISHED
deriving DecidableEq

/-- What leaves the manager. -/
inductive Emission where
  | jobState (job : SyncJob) (planName : Option String)
  | notify (event : NotificationEvent) (title body link : String)

/-! ### What is computed -/

/-- What one line of a run is doing, from what its transfer is doing. -/
def jobItemStateOf : TransferState → SyncJobItemState
  | .DONE => .DONE
  | .FAILED => .FAILED
  | .CANCELLED => .SKIPPED
  | .QUEUED => .PENDING
  | .PAUSED => .PENDING
  | _ => .RUNNING

def SyncJobItem.record (line : SyncJobItem) (transfer : Transfer) : SyncJobItem :=
  let state := jobItemStateOf transfer.state
  { line with
    state := state
    bytesDone := transfer.bytesDone
    transferId := if state = .PENDING ∨ state = .SKIPPED then none else some transfer.id
    error := transfer.error
    startedAt := transfer.startedAt
    finishedAt := transfer.finishedAt }

/-- What a run has actually achieved. -/
structure Progress where
  done : ℕ
  failed : ℕ
  bytesDone : ℕ
  «open» : ℕ
deriving DecidableEq

/-- One row of `progressOf`. -/
def Progress.add (counted : Progress) (row : SyncJobItem) : Progress :=
  let counted := { counted with bytesDone := counted.bytesDone + row.bytesDone }
  if row.state = .DONE then { counted with done := counted.done + 1 }
  else if row.state = .FAILED then { counted with failed := counted.failed + 1 }
  else if row.state ≠ .SKIPPED then { counted with «open» := counted.open + 1 }
  else counted

/-- `progressOf`: counted rather than accumulated. -/
def progressOf (lines : List SyncJobItem) : Progress := lines.foldl Progress.add ⟨0, 0, 0, 0⟩

/-- Only a run still believed to be going gets finished. -/
def finishing (job : SyncJob) (progress : Progress) : Bool :=
  job.state = .RUNNING ∧ progress.open = 0

/-- `_settleJob`: the job's counters, and whether it is over. -/
def SyncJob.settle (job : SyncJob) (progress : Progress) (now : ℤ) : SyncJob :=
  { job with
    itemsDone := progress.done
    itemsFailed := progress.failed
    bytesDone := progress.bytesDone
    state := if finishing job progress then .DONE else job.state
    finishedAt := if finishing job progress then some now else job.finishedAt }

/-- What a failed transfer is notified with, whether or not it belongs to a run. -/
def transferFailed (transfer : Transfer) : List Emission :=
  if transfer.state = .FAILED then
    [.notify .TRANSFER_FAILED ("Transfer failed: " ++ transfer.title)
      (transfer.errorKind.getD "unknown" ++ " — " ++ transfer.error.getD "no reason recorded")
      "/transfers"]
  else []

/-- What leaves the manager once the job is saved. -/
def settled (job : SyncJob) (planName : Option String) (finished : Bool) : List Emission :=
  .jobState job planName ::
    if finished then
      [.notify .SYNC_FINISHED ("Sync finished: " ++ planName.getD "manual run")
        (toString job.itemsDone ++ " of " ++ toString job.itemsPlanned ++ " done, " ++
          toString job.itemsFailed ++ " failed.") "/sync"]
    else []

/-! ### Reports -/

/-- How far a report has come. -/
inductive Call where
  | reported (transfer : Transfer)
  /-- The line was found and filled, and is to be saved. -/
  | found (line : SyncJobItem)
  | recorded
  /-- The job was read, and its lines are to be counted. -/
  | read (job : SyncJob)
  /-- The lines were counted, and the job is to be saved. -/
  | counted (job : SyncJob) (progress : Progress) (now : ℤ)
  /-- The job was saved, and its plan's name is to be read. -/
  | saved (job : SyncJob) (finished : Bool)
deriving DecidableEq

structure JobRun where
  job : SyncJob
  lines : List SyncJobItem
  planName : Option String
  calls : List Call
  emitted : List Emission

namespace JobRun

inductive Action where
  | report (transfer : Transfer)
  /-- The line is found; the transfer is read as it stands by then. -/
  | findLine (call : ℕ) (transfer : Transfer)
  | saveLine (call : ℕ)
  | readJob (call : ℕ)
  | count (call : ℕ) (now : ℤ)
  | saveJob (call : ℕ)
  | announce (call : ℕ)

def findLine (s : JobRun) (itemId : String) : Option SyncJobItem :=
  s.lines.find? (·.itemId = itemId)

/-- `save`, of a line -/
def saveLine (lines : List SyncJobItem) (saved : SyncJobItem) : List SyncJobItem :=
  lines.map fun line => if line.id = saved.id then saved else line

/-- `findLiveForPlan`, among the runs, of which this is one. -/
def findLiveForPlan (s : JobRun) (planId : String) : Option SyncJob :=
  if s.job.planId = some planId ∧ s.job.state ∈ LIVE_STATES then some s.job else none

def step (s : JobRun) : Action → Option JobRun
  | .report transfer =>
    let emitted := s.emitted ++ transferFailed transfer
    -- A transfer of another run, or of none, does not touch this one.
    if transfer.jobId = some s.job.id then
      some { s with calls := s.calls ++ [.reported transfer], emitted := emitted }
    else some { s with emitted := emitted }
  | .findLine call transfer =>
    match s.calls[call]? with
    | some (.reported before) =>
      if transfer.id = before.id ∧ transfer.itemId = before.itemId then
        match s.findLine transfer.itemId with
        | none => some { s with calls := s.calls.eraseIdx call }
        | some line => some { s with calls := s.calls.set call (.found (line.record transfer)) }
      else none
    | _ => none
  | .saveLine call =>
    match s.calls[call]? with
    | some (.found line) =>
      some { s with lines := saveLine s.lines line, calls := s.calls.set call .recorded }
    | _ => none
  | .readJob call =>
    match s.calls[call]? with
    | some .recorded => some { s with calls := s.calls.set call (.read s.job) }
    | _ => none
  | .count call now =>
    match s.calls[call]? with
    | some (.read job) =>
        some { s with calls := s.calls.set call (.counted job (progressOf s.lines) now) }
    | _ => none
  | .saveJob call =>
    match s.calls[call]? with
    | some (.counted job progress now) =>
      let job' := job.settle progress now
      some { s with job := job', calls := s.calls.set call (.saved job' (finishing job progress)) }
    | _ => none
  | .announce call =>
    match s.calls[call]? with
    | some (.saved job finished) =>
      some { s with
        calls := s.calls.eraseIdx call
        emitted := s.emitted ++ settled job s.planName finished }
    | _ => none

end JobRun

end MediaCenterSync.SyncManager

/-!
## Cancelling a run

`cancel` reads the job, cancels its transfers one by one, skips the lines that are left and saves
the job it has read.  The transfers report meanwhile, the ones it cancelled among them, and every
report settles the job (`JobRun`).
-/

namespace MediaCenterSync.SyncManager

open TransferEngine (TransferState)

/-- How far `cancel` has come. -/
inductive Cancelling where
  | notCalled
  | refused
  /-- The job was read, and its transfers are to be listed. -/
  | read (job : SyncJob)
  /-- The transfers that are still to be gone through. -/
  | stopping (job : SyncJob) (transfers : List Transfer)
  /-- The lines were skipped, and the job is to be saved. -/
  | skipped (job : SyncJob)
  /-- The job was saved, and its plan's name is to be read. -/
  | saved (job : SyncJob)
  | returned
deriving DecidableEq

structure CancelRun where
  run : JobRun
  transfers : List Transfer
  cancel : Cancelling
  /-- How much had been emitted when `cancel` was called. -/
  emittedBefore : ℕ

namespace CancelRun

inductive Action where
  /-- A report is made, or goes on. -/
  | report (action : JobRun.Action)
  | engine (transfer : Transfer)
  | call
  | list
  /-- The next transfer is cancelled, which for a running one only tells the engine to stop. -/
  | cancelTransfer (running : Bool) (now : ℤ)
  | skipUnfinished (now : ℤ)
  | save (now : ℤ)
  | finish

/-- The states `cancel` leaves a transfer in. -/
def isOver (state : TransferState) : Bool := state ∈ [TransferState.DONE, .CANCELLED, .FAILED]

/-- `engine.cancel` of a transfer that is not running: the row is marked, and reported. -/
def cancelled (transfer : Transfer) (now : ℤ) : Transfer :=
  { transfer with
    state := .CANCELLED
    errorKind := some "cancelled"
    finishedAt := some now }

/-- `save`, of a transfer -/
def saveTransfer (transfers : List Transfer) (saved : Transfer) : List Transfer :=
  transfers.map fun transfer => if transfer.id = saved.id then saved else transfer

def skipUnfinished (lines : List SyncJobItem) (now : ℤ) : List SyncJobItem :=
  lines.map fun line =>
    if line.state ∈ [SyncJobItemState.PENDING, .RUNNING] then
      { line with
        state := .SKIPPED
        transferId := none
        finishedAt := some now }
    else line

def cancelledJob (job : SyncJob) (now : ℤ) : SyncJob :=
  { job with
    state := .CANCELLED
    finishedAt := some now }

def step (s : CancelRun) : Action → Option CancelRun
  | .report action => (s.run.step action).map fun run => { s with run := run }
  | .engine transfer => some { s with transfers := saveTransfer s.transfers transfer }
  | .call =>
    match s.cancel with
    | .notCalled =>
      if s.run.job.state ∈ [SyncJobState.DONE, .FAILED, .CANCELLED] then
        some { s with cancel := .refused }
      else some { s with cancel := .read s.run.job, emittedBefore := s.run.emitted.length }
    | _ => none
  | .list =>
    match s.cancel with
    | .read job =>
        some { s with cancel := .stopping job (s.transfers.filter (·.jobId = some job.id)) }
    | _ => none
  | .cancelTransfer running now =>
    match s.cancel with
    | .stopping job (transfer :: rest) =>
      let s := { s with cancel := .stopping job rest }
      if isOver transfer.state ∨ running then some s
      else
        -- The engine reads the row again.
        match s.transfers.find? (·.id = transfer.id) with
        | none => none
        | some row =>
          (s.run.step (.report (cancelled row now))).map fun run =>
            { s with run := run, transfers := saveTransfer s.transfers (cancelled row now) }
    | _ => none
  | .skipUnfinished now =>
    match s.cancel with
    | .stopping job [] =>
      some { s with
        cancel := .skipped job
        run := { s.run with lines := skipUnfinished s.run.lines now } }
    | _ => none
  | .save now =>
    match s.cancel with
    | .skipped job =>
      some { s with
        cancel := .saved (cancelledJob job now)
        run := { s.run with job := cancelledJob job now } }
    | _ => none
  | .finish =>
    match s.cancel with
    | .saved job =>
      some { s with
        cancel := .returned
        run := { s.run with emitted := s.run.emitted ++ [.jobState job s.run.planName] } }
    | _ => none

end CancelRun

end MediaCenterSync.SyncManager
