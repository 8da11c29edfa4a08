import Mathlib.Data.Finset.Erase
import Mathlib.Data.Finset.Insert
import MediaCenterSync.TransferManager.Destination

/-!
# Changing a destination while the engine runs

`changeDestination` of the manager and one run of the engine work on one row.  Reading the row
gives a copy of it, and saving a copy writes the whole row; each of the two is one step, and
between any two of them the other party may take its own.

The run holds the copy it read first, the entity, and saves it whole when it records its plan,
whenever enough bytes have arrived (`account` asks for that and does not wait, `flush` is the save
itself, at any later time), and when it is done.  Its other changes of state each read the row
anew and save it (`setState`, `saveState`).  Where the file goes is read off the entity.

The change reads the row (`changeRead`), looks at it and at the path it computes (`changeProbe`),
moves the file first when the transfer is done (`changePublish`, `changeMove`), and saves its copy
with the new destination (`changeSave`).
-/

namespace MediaCenterSync.TransferManager

open TransferEngine

/-! ### State -/

inductive RunPhase where
  | start
  | loaded
  /-- Changing the state of the row: a copy was read and is about to be saved. -/
  | setting (state : TransferState) (copy : Transfer)
  | connecting
  /-- The plan was recorded. -/
  | planned
  | downloading
  | verifying
  | repairing
  | placing
  /-- The file is in its place. -/
  | placed
  | done
  /-- The run ended otherwise. -/
  | ended
deriving DecidableEq, Repr

/-- Where the change is, with the copy of the row it read. -/
inductive ChangePhase where
  | idle
  | asked (transfer : Transfer)
  | checked (transfer : Transfer)
  | published (transfer : Transfer)
  | moved (transfer : Transfer)
  /-- Answered, after saving a new destination or finding it in force already. -/
  | returned (saved : Bool)
  | refused
deriving DecidableEq, Repr

/-- The row, the places where the transfer's finished file is, and the two parties: the run with
its entity and the saves it did not wait for, and the change. -/
structure Redirect where
  row : Transfer
  files : Finset FilePath
  run : RunPhase
  held : Option Transfer
  pending : ℕ
  change : ChangePhase

def Redirect.boot (row : Transfer) : Redirect where
  row := row
  files := if row.state = .DONE then {row.targetPath} else ∅
  run := .start
  held := none
  pending := 0
  change := .idle

/-! ### Steps -/

inductive RedirectAct where
  | load
  | setState (state : TransferState)
  | saveState
  | persistPlan
  | account
  | flush
  | place
  | finish
  | fail
  | changeRead
  | changeProbe (foreign : Bool)
  | changePublish
  | changeMove (succeeds : Bool)
  | changeSave
deriving DecidableEq, Repr

/-- The states a run may give the row from where it is.  A run that throws reads the row again and
fails it. -/
def RunPhase.may : RunPhase → TransferState → Bool
  | .loaded, .CONNECTING => true
  | .connecting, .FAILED => true
  | .planned, state => state = .DOWNLOADING ∨ state = .FAILED
  | .downloading, state =>
    state = .VERIFYING ∨ state = .PAUSED ∨ state = .CANCELLED ∨ state = .FAILED
  | .verifying, state | .repairing, state =>
    state = .REPAIRING ∨ state = .PLACING ∨ state = .FAILED
  | .placing, state => state = .PAUSED ∨ state = .CANCELLED ∨ state = .FAILED
  | _, _ => false

/-- Where a run is once the row has its new state. -/
def RunPhase.after : TransferState → RunPhase
  | .CONNECTING => .connecting
  | .DOWNLOADING => .downloading
  | .VERIFYING => .verifying
  | .REPAIRING => .repairing
  | .PLACING => .placing
  | _ => .ended

/-- Chunks are fetched, and their bytes accounted for. -/
def RunPhase.fetches : RunPhase → Bool
  | .downloading | .repairing => true
  | _ => false

/-- The entity may be failed: no source answered, or the file does not verify. -/
def RunPhase.mayFail : RunPhase → Bool
  | .connecting | .verifying | .repairing => true
  | _ => false

section

variable (gateway : Gateway) (library : Library) (folder : Option Dir)

/-- One step of one of the parties, when it can be taken. -/
def Redirect.step (s : Redirect) : RedirectAct → Option Redirect
  | .load =>
    if s.run = .start then
      if s.row.state = .CANCELLED ∨ s.row.state = .DONE then some { s with run := .ended }
      else some { s with run := .loaded, held := some s.row }
    else none
  | .setState state =>
    if s.run.may state then some { s with run := .setting state s.row } else none
  | .saveState =>
    match s.run with
    | .setting state copy =>
        some { s with run := .after state, row := { copy with state := state } }
    | _ => none
  | .persistPlan =>
    match s.run, s.held with
    | .connecting, some entity => some { s with run := .planned, row := entity }
    | _, _ => none
  | .account => if s.run.fetches then some { s with pending := s.pending + 1 } else none
  | .flush =>
    match s.pending, s.held with
    | pending + 1, some entity => some { s with pending := pending, row := entity }
    | _, _ => none
  | .place =>
    match s.run, s.held with
    | .placing, some entity =>
      some { s with run := .placed, files := insert entity.targetPath s.files }
    | _, _ => none
  | .finish =>
    match s.run, s.held with
    | .placed, some entity =>
      let entity := { entity with state := .DONE }
      some { s with run := .done, held := some entity, row := entity }
    | _, _ => none
  | .fail =>
    match s.run.mayFail, s.held with
    | true, some entity =>
      let entity := { entity with state := .FAILED }
      some { s with run := .ended, held := some entity, row := entity }
    | _, _ => none
  | .changeRead => if s.change = .idle then some { s with change := .asked s.row } else none
  | .changeProbe foreign =>
    match s.change with
    | .asked transfer =>
      let path := destinationPath gateway library folder transfer
      if path = transfer.targetPath ∧ transfer.targetLibraryId = some library.id then
        some { s with change := .returned false }
      else if transfer.state = .PLACING then some { s with change := .refused }
      else if foreign ∨ path ∈ s.files then some { s with change := .refused }
      else some { s with change := .checked transfer }
    | _ => none
  | .changePublish =>
    match s.change with
    | .checked transfer =>
      if transfer.state = .DONE then
        some { s with change := .published transfer, row := { transfer with state := .PLACING } }
      else none
    | _ => none
  | .changeMove succeeds =>
    match s.change with
    | .published transfer =>
      if succeeds ∧ transfer.targetPath ∈ s.files then
        some { s with
          change := .moved transfer,
          files := insert (destinationPath gateway library folder transfer)
            (s.files.erase transfer.targetPath) }
      else some { s with change := .refused, row := transfer }
    | _ => none
  | .changeSave =>
    match s.change with
    | .checked transfer =>
      if transfer.state ≠ .DONE then
        some { s with
          change := .returned true,
          row := retarget library (destinationPath gateway library folder transfer) transfer }
      else none
    | .moved transfer =>
      some { s with
        change := .returned true,
        row := retarget library (destinationPath gateway library folder transfer) transfer }
    | _ => none

end

end MediaCenterSync.TransferManager
