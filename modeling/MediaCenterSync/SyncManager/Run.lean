import MediaCenterSync.Planning.Space
import MediaCenterSync.SyncManager.Job

/-!
# Starting a run

`run` looks for a live job of its plan, plans, saves a job, writes its lines down, and makes and
enqueues one transfer after another.  Every one of these is awaited and may fail, so runs of one
plan take turns between any two of them, and a run that fails leaves what it has done.

A `PlanJob` is a job with its lines, the reports under way (`JobRun`), its transfers, and how far
the run that saved it has come.  `PlanRuns` is all of the jobs of one plan, and how many calls of
`run` have found no live job and are still planning.
-/

namespace MediaCenterSync.SyncManager

open Planning (PlannedItem)
open TransferEngine (TransferState)

/-- What a run is going to do.  An item is planned once. -/
structure SyncPlanning where
  items : List PlannedItem
  dropped : List PlannedItem
  nodup : ((items ++ dropped).map (·.itemId)).Nodup
deriving DecidableEq

/-- How far the run that saved a job has come. -/
inductive Starting where
  /-- The job was saved, and its lines are to be recorded. -/
  | saved (planning : SyncPlanning)
  /-- The items that are to have a transfer still. -/
  | recorded (left : List PlannedItem)
  /-- A transfer was saved, and is to be enqueued. -/
  | created (left : List PlannedItem)
  /-- The plan's stamps were set, and its name is to be read. -/
  | stamped
  | returned
  | rejected
deriving DecidableEq

structure PlanJob where
  run : JobRun
  transfers : List Transfer
  starting : Starting
  /-- The row as `run` has saved it. -/
  row : SyncJob

namespace PlanJob

inductive Action where
  | recordLines
  | saveTransfer (id : String)
  | enqueue
  | stamp
  | announce
  /-- The step under way fails, and `run` with it. -/
  | reject
  | engine (transfer : Transfer)
  | report (action : JobRun.Action)

def line (state : SyncJobItemState) (planned : PlannedItem) : SyncJobItem where
  -- a run has one line for an item, so the item names it
  id := planned.itemId
  itemId := planned.itemId
  state := state
  bytesDone := 0
  transferId := none
  error := none
  startedAt := none
  finishedAt := none

/-- `_recordLines`: including the lines it will not do. -/
def linesOf (planning : SyncPlanning) : List SyncJobItem :=
  planning.items.map (line .PENDING) ++ planning.dropped.map (line .SKIPPED)

def transferOf (jobId id : String) (planned : PlannedItem) : Transfer where
  id := id
  itemId := planned.itemId
  jobId := some jobId
  title := planned.title
  state := .QUEUED
  bytesDone := 0
  errorKind := none
  error := none
  startedAt := none
  finishedAt := none

/-- A job somebody else would be refused for. -/
def isLive (job : PlanJob) : Bool := job.run.job.state ∈ LIVE_STATES

def step (j : PlanJob) : Action → Option PlanJob
  | .recordLines =>
    match j.starting with
    | .saved planning =>
      some { j with
        run := { j.run with lines := linesOf planning }
        starting := .recorded planning.items }
    | _ => none
  | .saveTransfer id =>
    match j.starting with
    | .recorded (planned :: left) =>
      if id ∈ j.transfers.map (·.id) then none
      else
        some { j with
          transfers := j.transfers ++ [transferOf j.row.id id planned]
          starting := .created left }
    | _ => none
  | .enqueue =>
    match j.starting with
    | .created left => some { j with starting := .recorded left }
    | _ => none
  | .stamp =>
    match j.starting with
    | .recorded [] => some { j with starting := .stamped }
    | _ => none
  | .announce =>
    match j.starting with
    | .stamped =>
      some { j with
        run := { j.run with emitted := j.run.emitted ++ [.jobState j.row j.run.planName] }
        starting := .returned }
    | _ => none
  | .reject =>
    match j.starting with
    | .returned | .rejected => none
    | _ => some { j with starting := .rejected }
  | .engine transfer =>
    if (∃ row ∈ j.transfers, row.id = transfer.id ∧ row.itemId = transfer.itemId) ∧
        transfer.jobId = some j.run.job.id then
      (j.run.step (.report transfer)).map fun run =>
        { j with run := run, transfers := CancelRun.saveTransfer j.transfers transfer }
    else none
  | .report action =>
    match action with
    | .report _ => none
    | .findLine call transfer =>
      -- the entity a report holds is the row as it stands
      if transfer ∈ j.transfers then
        (j.run.step (.findLine call transfer)).map fun run => { j with run := run }
      else none
    | _ => (j.run.step action).map fun run => { j with run := run }

end PlanJob

structure PlanRuns where
  planId : String
  planName : Option String
  /-- The calls that have found no live job, and have not saved theirs. -/
  testing : ℕ
  jobs : List PlanJob

namespace PlanRuns

inductive Action where
  /-- `run` is called for the plan, by hand or on its schedule. -/
  | call
  /-- Planning fails, or the plan does not fit. -/
  | refuse
  | saveJob (planning : SyncPlanning) (id : String) (now : ℤ)
  | job (index : ℕ) (action : PlanJob.Action)

/-- `findLiveForPlan`, among all the jobs -/
def findLiveForPlan (s : PlanRuns) : Option SyncJob :=
  s.jobs.findSome? (·.run.findLiveForPlan s.planId)

def jobOf (s : PlanRuns) (planning : SyncPlanning) (id : String) (now : ℤ) : SyncJob where
  id := id
  planId := some s.planId
  state := if planning.items = [] then .DONE else .RUNNING
  itemsPlanned := planning.items.length
  itemsDone := 0
  itemsFailed := 0
  bytesDone := 0
  finishedAt := if planning.items = [] then some now else none

def step (s : PlanRuns) : Action → Option PlanRuns
  | .call =>
    match s.findLiveForPlan with
    | some _ => some s
    | none => some { s with testing := s.testing + 1 }
  | .refuse => if s.testing = 0 then none else some { s with testing := s.testing - 1 }
  | .saveJob planning id now =>
    if s.testing = 0 then none
    else
      let job := s.jobOf planning id now
      some { s with
        testing := s.testing - 1
        jobs := s.jobs ++
          [{ run := ⟨job, [], s.planName, [], []⟩
             transfers := []
             starting := .saved planning
             row := job }] }
  | .job index action =>
    match s.jobs[index]? with
    | some job => (job.step action).map fun job => { s with jobs := s.jobs.set index job }
    | none => none

def unused (planId : String) (planName : Option String) : PlanRuns := ⟨planId, planName, 0, []⟩

end PlanRuns

end MediaCenterSync.SyncManager
