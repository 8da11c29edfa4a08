import MediaCenterSync.TransferEngine.ChunkPlanner

/-!
# One run of a transfer

`_run` carries a transfer from its row to its place: it reads the row, asks the sources, plans the
chunks, opens the working file, has workers fetch the chunks, verifies and repairs, and moves the
file.  A run is several threads: the main one (`RunPhase`), the workers of its download, and the
progress saves nobody waits for.

Between two `await`s nothing else runs, so one step is one stretch of code up to the next `await`,
with the operation on the database or the disk it waited for.  A step works on what survives the
process (`Store`) and on the run; what the network and the disk answer is part of the action.

A source is known by its service; `content` says which bytes it has.  The bytes of an answer are
those of its source at the offsets they are sent for.  Opening the working file is one step, and so
is verifying it; what moving a file does to the disk is the subject of `FileMove`, here a move that
is not stopped puts the working file in place.
-/

namespace MediaCenterSync.TransferEngine

/-! ### Data -/

/-- A transfer row, as far as a run reads it. -/
structure Row where
  state : TransferState
  errorKind : Option TransferErrorKind
  /-- Zero while it is unknown. -/
  bytesTotal : ℕ
deriving DecidableEq, Repr

structure Settings where
  chunkSize : ℕ
  maxConnectionsPerSource : ℕ
deriving DecidableEq, Repr

/-- What a source turns out to be capable of, once asked. -/
structure TransportCapabilities where
  resumable : Bool
  totalBytes : Option ℕ
  maxConnections : ℕ
  pieceChecksums : Option (List (ℕ × String))
  pieceSize : Option ℕ
deriving DecidableEq, Repr

structure RuntimeSource where
  serviceId : ServiceId
  capabilities : TransportCapabilities
  rate : ℕ
  connections : ℕ
  failures : ℕ
  healthy : Bool
deriving Repr

/-- What survives the process: the rows, and the files.  A working file that was removed or moved
away is still there for those who have it open. -/
structure Store where
  row : Row
  chunkRows : List ExistingChunk
  /-- Every working file there ever was. -/
  inodes : List (SparseFile UInt8)
  work : Option ℕ
  /-- The file at the target path. -/
  placed : Option (SparseFile UInt8)
deriving Repr

inductive AbortReason where
  /-- Without a reason, by a pause. -/
  | stop
  /-- `FILE_MOVE_CANCEL` -/
  | cancel
deriving DecidableEq, Repr

inductive HandleState where
  | opened
  | closed
  /-- Closed, and `running.handle` is null. -/
  | dropped
deriving DecidableEq, Repr

structure Handle where
  inode : ℕ
  state : HandleState
deriving Repr

/-- Closed before the file is moved. -/
def Handle.drop (handle : Handle) : Handle := { handle with state := .dropped }

def Handle.close (handle : Handle) : Handle :=
  { handle with state := if handle.state = .opened then .closed else handle.state }

/-- What is written to the row of a chunk. -/
structure ChunkPatch where
  state : ChunkState
  sourceServiceId : Option ServiceId
  attempts : ℕ
deriving DecidableEq, Repr

inductive FetchStage where
  /-- The source was asked for the range. -/
  | asked
  /-- Reading its answer. -/
  | streaming (wholeFile : Bool) (position : ℕ)
  /-- A buffer arrived and waits for the rate limiter. -/
  | paying (wholeFile : Bool) (position length : ℕ)
  /-- Recording how it ended. -/
  | saving (patch : ChunkPatch) (threw : Bool)
deriving DecidableEq, Repr

/-- A fetch of a chunk of the plan from one of the sources, by their places in the lists. -/
structure Fetch where
  chunk : ℕ
  source : ℕ
  stage : FetchStage
deriving DecidableEq, Repr

inductive Worker where
  | looping
  | fetching (fetch : Fetch)
  | returned
  | failed
deriving DecidableEq, Repr

inductive CancelStage where
  | load
  | save (copy : Row)
  | remove
deriving DecidableEq, Repr

/-- Where the main thread of a run is: what it waits for. -/
inductive RunPhase where
  | load
  /-- `_setState`: the row is read, then its copy is saved. -/
  | setState (state : TransferState) (copy : Option Row)
  | preparing
  | planning
  | persisting
  | inserting (rest : List PlannedChunk)
  | opening
  | downloading
  /-- `cancel`, called by the run itself. -/
  | cancelling (kind : TransferErrorKind) (stage : CancelStage)
  | verifying
  | repairing (rest : List RepairAssignment)
  | refetching (fetch : Fetch) (rest : List RepairAssignment)
  /-- `_fail` with the entity. -/
  | failing
  | placing
  | moving
  /-- The save of a finished transfer. -/
  | finishing
  /-- Something was thrown: the row is read, then its copy is saved as failed. -/
  | catching (copy : Option Row)
  /-- The `finally` block. -/
  | closing
  | ended
deriving DecidableEq, Repr

structure Run where
  settings : Settings
  phase : RunPhase
  transfer : Row
  sources : List RuntimeSource
  plan : ChunkPlan
  handle : Option Handle
  aborted : Option AbortReason
  pausing : Bool
  cancelling : Bool
  cancelKind : TransferErrorKind
  bytesSinceReport : ℕ
  /-- Progress saves that have not reached the database. -/
  saves : ℕ
  workers : List Worker
  pass : ℕ
  report : VerificationReport
deriving Repr

def MAX_REPAIR_PASSES : ℕ := 3

/-- A chunk that has failed this many times is not asked for again this run. -/
def MAX_CHUNK_ATTEMPTS : ℕ := 5

def PROGRESS_INTERVAL_BYTES : ℕ := 4 * 1024 * 1024

def INSERT_BATCH : ℕ := 500

def Run.boot (settings : Settings) : Run where
  settings := settings
  phase := .load
  transfer := ⟨.QUEUED, none, 0⟩
  sources := []
  plan := ⟨0, 0, [], 0, 0, false⟩
  handle := none
  aborted := none
  pausing := false
  cancelling := false
  cancelKind := .CANCELLED
  bytesSinceReport := 0
  saves := 0
  workers := []
  pass := 0
  report := ⟨[], none⟩

/-! ### Sources and chunks -/

/-- The order of `_pickSource`: one that was not measured yet, else the faster, else the one with
fewer connections. -/
def RuntimeSource.precedes (left right : RuntimeSource) : Prop :=
  if (left.rate = 0) ≠ (right.rate = 0) then left.rate = 0
  else if left.rate ≠ right.rate then right.rate < left.rate
  else left.connections ≤ right.connections

instance (left right : RuntimeSource) : Decidable (left.precedes right) := by
  unfold RuntimeSource.precedes
  infer_instance

def pickSource (settings : Settings) (sources : List RuntimeSource) : Option ℕ :=
  let available := sources.zipIdx.filter fun (source, _) =>
    source.healthy ∧ source.connections <
      min settings.maxConnectionsPerSource source.capabilities.maxConnections
  ((available.insertionSort fun left right => left.1.precedes right.1).head?).map (·.2)

/-- The size a run takes: the stored one, else the first a source reports, else none. -/
def totalBytes (transfer : Row) (sources : List RuntimeSource) : ℕ :=
  if 0 < transfer.bytesTotal then transfer.bytesTotal
  else (sources.findSome? fun source =>
    source.capabilities.totalBytes.filter (0 < ·)).getD 0

/-- Hang the piece hashes a source offered onto the plan, when its pieces are cut the same way. -/
def adoptChecksumsOf (plan : ChunkPlan) (source : RuntimeSource) : ChunkPlan :=
  match source.capabilities.pieceChecksums with
  | some checksums =>
    if source.capabilities.pieceSize = some plan.chunkSize then
      { plan with chunks := plan.chunks.map fun chunk =>
          { chunk with checksum := chunk.checksum <|> checksums.lookup chunk.index } }
    else plan
  | none => plan

def adoptPieceChecksums (plan : ChunkPlan) (sources : List RuntimeSource) : ChunkPlan :=
  sources.foldl adoptChecksumsOf plan

def workerCount (settings : Settings) (sources : List RuntimeSource) (chunks : ℕ) : ℕ :=
  let capacity := (sources.map fun source =>
    min settings.maxConnectionsPerSource source.capabilities.maxConnections).sum
  let resumable := sources.any fun source => source.capabilities.resumable
  max 1 (min (if resumable then capacity else 1) chunks)

def Run.modifyChunk (r : Run) (chunk : ℕ) (f : PlannedChunk → PlannedChunk) : Run :=
  { r with plan := { r.plan with chunks := r.plan.chunks.modify chunk f } }

def Run.modifySource (r : Run) (source : ℕ) (f : RuntimeSource → RuntimeSource) : Run :=
  { r with sources := r.sources.modify source f }

/-- Something was thrown in the main thread, or a worker of its download failed.  Once the run is
past that nobody listens. -/
def Run.threw (r : Run) : Run := { r with phase := .catching none }

/-! ### Fetching a chunk -/

inductive FetchAct where
  | answer (wholeFile : Bool)
  /-- A buffer of so many bytes arrives. -/
  | piece (length : ℕ)
  /-- It is written.  A source may be measured then. -/
  | write (rate : Option ℕ)
  | ended
  /-- The source, or its stream, fails. -/
  | error
  /-- How it ended is recorded. -/
  | save
deriving DecidableEq, Repr

/-- What became of a fetch after a step. -/
inductive FetchResult where
  | goes (stage : FetchStage)
  | returned
  | threw
deriving Repr

/-- The start of `_fetchChunk`. -/
def Run.beginFetch (r : Run) (chunk source : ℕ) : Run :=
  (r.modifySource source fun s => { s with connections := s.connections + 1 }).modifyChunk chunk
    fun c => { c with
      attempts := c.attempts + 1
      sourceServiceId := (r.sources[source]?).map (·.serviceId) }

def PlannedChunk.patch (chunk : PlannedChunk) : ChunkPatch :=
  ⟨chunk.state, chunk.sourceServiceId, chunk.attempts⟩

/-- The `catch` block of `_fetchChunk`. -/
def Run.failFetch (r : Run) (f : Fetch) (chunk : PlannedChunk) : Run × FetchResult :=
  let state : ChunkState := if MAX_CHUNK_ATTEMPTS ≤ chunk.attempts then .FAILED else .PENDING
  ((r.modifyChunk f.chunk fun c => { c with state := state, bytesDone := 0 }).modifySource
      f.source fun s =>
      { s with failures := s.failures + 1, healthy := s.healthy ∧ s.failures + 1 < 3 },
    .goes (.saving { chunk with state := state }.patch true))

/-- A chunk that arrived.  One stream that carried everything marks the rest done too. -/
def Run.succeedFetch (r : Run) (f : Fetch) (chunk : PlannedChunk) (wholeFile : Bool) :
    Run × FetchResult :=
  let finished (c : PlannedChunk) : PlannedChunk := { c with state := .DONE, bytesDone := c.size }
  let r := r.modifyChunk f.chunk finished
  let chunks := r.plan.chunks
  let chunks := if wholeFile then chunks.map finished else chunks
  ({ r with plan := { r.plan with chunks := chunks } }.modifySource f.source fun s =>
      { s with failures := 0 },
    .goes (.saving { chunk with state := .DONE }.patch false))

/-- What follows the stream in `_fetchChunk`. -/
def Run.concludeFetch (r : Run) (f : Fetch) (chunk : PlannedChunk) (wholeFile : Bool)
    (position : ℕ) : Run × FetchResult :=
  if wholeFile = false ∧ position - chunk.start < chunk.size then r.failFetch f chunk
  else r.succeedFetch f chunk wholeFile

/-- Where a stream is no longer written: behind the `limit` of `_fetchChunk`. -/
def Run.fetchEnd (r : Run) (chunk : PlannedChunk) (wholeFile : Bool) : ℕ :=
  if wholeFile then r.plan.bytesTotal else chunk.last + 1

def Run.account (r : Run) (source : ℕ) (bytes : ℕ) (rate : Option ℕ) : Run :=
  let r := r.modifySource source fun s => { s with rate := rate.getD s.rate }
  let r := { r with plan := { r.plan with bytesDone := r.plan.bytesDone + bytes } }
  if PROGRESS_INTERVAL_BYTES ≤ r.bytesSinceReport + bytes then
    { r with bytesSinceReport := 0, saves := r.saves + 1 }
  else { r with bytesSinceReport := r.bytesSinceReport + bytes }

def Store.updateState (s : Store) (index : ℕ) (patch : ChunkPatch) : Store :=
  { s with chunkRows := s.chunkRows.map fun row =>
      if row.index = index then
        { row with state := patch.state, sourceServiceId := patch.sourceServiceId,
                   attempts := patch.attempts }
      else row }

section

variable (content : ServiceId → List UInt8)

def Fetch.step (s : Store) (r : Run) (f : Fetch) (chunk : PlannedChunk) (source : RuntimeSource) :
    FetchAct → Option (Store × Run × FetchResult)
  | .answer wholeFile =>
    match f.stage with
    | .asked =>
      -- A whole file is of use to the first chunk only.
      if wholeFile ∧ chunk.start ≠ 0 then
        let (r, result) := r.failFetch f chunk
        some (s, r, result)
      else some (s, r, .goes (.streaming wholeFile chunk.start))
    | _ => none
  | .piece length =>
    match f.stage with
    | .streaming wholeFile position =>
      if 0 < length ∧ position + length ≤ (content source.serviceId).length then
        if r.cancelling ∨ r.pausing then
          let (r, result) := r.concludeFetch f chunk wholeFile position
          some (s, r, result)
        else some (s, r, .goes (.paying wholeFile position length))
      else none
    | _ => none
  | .write rate =>
    match f.stage with
    | .paying wholeFile position length =>
      let writable := min length (r.fetchEnd chunk wholeFile - position)
      if writable = 0 then
        let (r, result) := r.concludeFetch f chunk wholeFile position
        some (s, r, result)
      else
        let bytes := ((content source.serviceId).drop position).take writable
        let accounted := r.account f.source writable rate
        let next := FetchResult.goes (.streaming wholeFile (position + writable))
        match r.handle with
        | some ⟨inode, .opened⟩ =>
          some ({ s with inodes := s.inodes.modify inode fun file => file.write position bytes },
            accounted, next)
        | some ⟨_, .closed⟩ =>
          let (r, result) := r.failFetch f chunk
          some (s, r, result)
        | _ => some (s, accounted, next)
    | _ => none
  | .ended =>
    match f.stage with
    | .streaming wholeFile position =>
      let (r, result) := r.concludeFetch f chunk wholeFile position
      some (s, r, result)
    | _ => none
  | .error =>
    match f.stage with
    | .asked | .streaming _ _ =>
      let (r, result) := r.failFetch f chunk
      some (s, r, result)
    | _ => none
  | .save =>
    match f.stage with
    | .saving patch threw =>
      some (s.updateState chunk.index patch,
        r.modifySource f.source fun source => { source with connections := source.connections - 1 },
        if threw ∧ chunk.state = .FAILED then .threw else .returned)
    | _ => none

/-! ### Workers -/

/-- One turn of the loop of `_worker`, up to its next `await`. -/
def Run.turn (r : Run) (draining : Bool) (w : ℕ) : Run :=
  if r.pausing ∨ r.cancelling ∨ draining then { r with workers := r.workers.set w .returned }
  else
    match r.plan.chunks.findIdx? (·.state = .PENDING) with
    | none => { r with workers := r.workers.set w .returned }
    | some chunk =>
      match pickSource r.settings r.sources with
      | none =>
        if r.sources.all fun source => !source.healthy then
          let r := { r with workers := r.workers.set w .failed }
          if r.phase = .downloading then r.threw else r
        else r
      | some source =>
        let r := (r.modifyChunk chunk fun c => { c with state := .ACTIVE }).beginFetch chunk source
        { r with workers := r.workers.set w (.fetching ⟨chunk, source, .asked⟩) }

/-- What a fetch means to the worker it belongs to.  The first that throws ends the download. -/
def Run.settleWork (r : Run) (w : ℕ) (f : Fetch) : FetchResult → Run
  | .goes stage => { r with workers := r.workers.set w (.fetching { f with stage := stage }) }
  | .returned => { r with workers := r.workers.set w .looping }
  | .threw =>
    let r := { r with workers := r.workers.set w .failed }
    if r.phase = .downloading then r.threw else r

def Run.settleRefetch (r : Run) (f : Fetch) (rest : List RepairAssignment) : FetchResult → Run
  | .goes stage => { r with phase := .refetching { f with stage := stage } rest }
  | .returned => { r with phase := .repairing rest }
  | .threw => r.threw

def Run.work (s : Store) (r : Run) (w : ℕ) (draining : Bool) :
    Option FetchAct → Option (Store × Run)
  | none => if r.workers[w]? = some .looping then some (s, r.turn draining w) else none
  | some a =>
    match r.workers[w]? with
    | some (.fetching f) => do
      let chunk ← r.plan.chunks[f.chunk]?
      let source ← r.sources[f.source]?
      let (s, r, result) ← f.step content s r chunk source a
      return (s, r.settleWork w f result)
    | _ => none

/-- One step of a fetch of a repair. -/
def Run.refetch (s : Store) (r : Run) (a : FetchAct) : Option (Store × Run) :=
  match r.phase with
  | .refetching f rest => do
    let chunk ← r.plan.chunks[f.chunk]?
    let source ← r.sources[f.source]?
    let (s, r, result) ← f.step content s r chunk source a
    return (s, r.settleRefetch f rest result)
  | _ => none

end

/-! ### The main thread -/

/-- What a step of a run does to the containers of the engine. -/
inductive Effect where
  | stays
  /-- `this._running.set` -/
  | register
  /-- `this._running.delete`, and `cancel` begins. -/
  | leave
  /-- The promise of the run is settled. -/
  | finish
deriving Repr

inductive RunAct where
  /-- What it waited for is done. -/
  | next
  | prepared (sources : List (ServiceId × TransportCapabilities))
  | moved
  /-- The move saw its signal. -/
  | stopped
  /-- The operation it waited for failed. -/
  | throws
  /-- The row is saved as failed, for a reason read off what was thrown. -/
  | fail (kind : TransferErrorKind)
deriving DecidableEq, Repr

def RuntimeSource.fresh (source : ServiceId × TransportCapabilities) : RuntimeSource :=
  ⟨source.1, source.2, 0, 0, 0, true⟩

def Run.after (r : Run) : TransferState → Run
  | .CONNECTING => { r with phase := .preparing }
  | .DOWNLOADING =>
    { r with
      phase := .downloading
      workers := List.replicate (workerCount r.settings r.sources r.plan.chunks.length) .looping }
  | .VERIFYING => { r with phase := .verifying }
  | .REPAIRING =>
    let healthy := (r.sources.filter (·.healthy)).map (·.serviceId)
    { r with phase :=
        .repairing (planRepair r.report (r.plan.chunks.map (·.verifiable)) healthy) }
  | .PLACING => { r with phase := .placing }
  | _ => { r with phase := .closing }

/-- The end of a move whose signal was aborted. -/
def Run.stop (r : Run) : AbortReason → Run × Effect
  | .cancel => ({ r with phase := .cancelling .CANCELLED .load }, .leave)
  | .stop => ({ r with phase := .setState .PAUSED none }, .stays)

/-- The plan of a run, once its sources answered. -/
def Run.plans (s : Store) (r : Run) : Run :=
  let plan := adoptPieceChecksums
    (planChunks (totalBytes r.transfer r.sources) r.settings.chunkSize s.chunkRows) r.sources
  { r with
    phase := .persisting, plan := plan,
    transfer := { r.transfer with bytesTotal := plan.bytesTotal } }

/-- The row of a chunk of a new plan. -/
def PlannedChunk.entry (chunk : PlannedChunk) : ExistingChunk :=
  { index := chunk.index, start := chunk.start, last := chunk.last, state := .PENDING
    sourceServiceId := none, attempts := 0, checksum := chunk.checksum }

/-- `_openWorkFile`: a file that is not there is created, one that is too long is cut. -/
def Store.openWorkFile (s : Store) (size : ℕ) : Store × ℕ :=
  match s.work with
  | none => ({ s with inodes := s.inodes ++ [[]], work := some s.inodes.length }, s.inodes.length)
  | some inode =>
    ({ s with inodes := s.inodes.modify inode fun file =>
        if size < file.length ∧ 0 < size then file.take size else file }, inode)

def Store.workFile (s : Store) : Option (SparseFile UInt8) := s.work.bind (s.inodes[·]?)

/-- One turn of the loop over the assignments of a repair. -/
def Run.assign (r : Run) : List RepairAssignment → Run
  | [] => { r with phase := .verifying }
  | assignment :: rest =>
    match r.plan.chunks.findIdx? (·.index = assignment.chunkIndex) with
    | none => { r with phase := .repairing rest }
    | some chunk =>
      let r := r.modifyChunk chunk fun c => { c with state := .CORRUPT, bytesDone := 0 }
      let assigned := r.sources.findIdx? fun source =>
        source.healthy ∧ some source.serviceId = assignment.sourceServiceId
      match assigned <|> pickSource r.settings r.sources with
      | none => { r with phase := .repairing rest }
      | some source =>
        { r.beginFetch chunk source with phase := .refetching ⟨chunk, source, .asked⟩ rest }

/-- A cancellation that does not find the transfer running. -/
def CancelStage.step (s : Store) (kind : TransferErrorKind) :
    CancelStage → Store × Option CancelStage
  | .load => (s, some (.save s.row))
  | .save copy =>
    ({ s with row := { copy with state := .CANCELLED, errorKind := some kind } }, some .remove)
  | .remove => ({ s with work := none }, none)

def Run.step (hash : List UInt8 → String) (s : Store) (r : Run) :
    RunAct → Option (Store × Run × Effect)
  | .next =>
    match r.phase with
    | .load =>
      if s.row.state = .CANCELLED ∨ s.row.state = .DONE then
        some (s, { r with phase := .closing }, .stays)
      else some (s, { r with phase := .setState .CONNECTING none, transfer := s.row }, .stays)
    | .setState state none => some (s, { r with phase := .setState state (some s.row) }, .stays)
    | .setState state (some copy) =>
      some ({ s with row := { copy with state := state } }, r.after state, .stays)
    | .planning => some (s, r.plans s, .stays)
    | .persisting =>
      some ({ s with row := r.transfer },
        { r with phase := if r.plan.resumed then .opening else .inserting r.plan.chunks }, .stays)
    | .inserting [] => some (s, { r with phase := .opening }, .stays)
    | .inserting (chunk :: rest) =>
      let batch := (chunk :: rest).take INSERT_BATCH
      -- An index is in the table once.
      if batch.any fun c => s.chunkRows.any fun row => row.index = c.index then
        some (s, r.threw, .stays)
      else
        some ({ s with chunkRows := s.chunkRows ++ batch.map (·.entry) },
          { r with phase := .inserting ((chunk :: rest).drop INSERT_BATCH) }, .stays)
    | .opening =>
      let (s, inode) := s.openWorkFile r.plan.bytesTotal
      some (s, { r with phase := .setState .DOWNLOADING none, handle := some ⟨inode, .opened⟩ },
        .register)
    | .downloading =>
      if ∀ worker ∈ r.workers, worker = .returned then
        if r.cancelling then some (s, { r with phase := .cancelling r.cancelKind .load }, .leave)
        else if r.pausing then some (s, { r with phase := .setState .PAUSED none }, .stays)
        else some (s, { r with phase := .setState .VERIFYING none }, .stays)
      else none
    | .cancelling kind stage =>
      let (s, stage) := stage.step s kind
      some (s, { r with phase := stage.elim .closing (.cancelling kind) }, .stays)
    | .verifying =>
      let report := verify hash s.workFile (r.plan.chunks.map (·.verifiable))
        (some r.plan.bytesTotal) none
      if report.ok then some (s, { r with phase := .setState .PLACING none }, .stays)
      else if r.pass < MAX_REPAIR_PASSES then
        some (s,
          { r with phase := .setState .REPAIRING none, pass := r.pass + 1, report := report },
          .stays)
      else
        some (s, { r with
          phase := .failing
          transfer :=
            { r.transfer with state := .FAILED, errorKind := some .CHECKSUM_MISMATCH } }, .stays)
    | .repairing rest => some (s, r.assign rest, .stays)
    | .failing => some ({ s with row := r.transfer }, { r with phase := .closing }, .stays)
    | .placing =>
      let r := { r with handle := r.handle.map .drop }
      match r.aborted with
      | some reason =>
        let (r, effect) := r.stop reason
        some (s, r, effect)
      | none => some (s, { r with phase := .moving }, .stays)
    | .finishing => some ({ s with row := r.transfer }, { r with phase := .closing }, .stays)
    | .catching none => some (s, { r with phase := .catching (some s.row) }, .stays)
    | .closing =>
      some (s, { r with phase := .ended, handle := r.handle.map .close }, .finish)
    | _ => none
  | .prepared sources =>
    match r.phase with
    | .preparing =>
      if sources = [] then
        some (s, { r with
          phase := .failing
          transfer := { r.transfer with state := .FAILED, errorKind := some .SOURCE_GONE } },
        .stays)
      else some (s, { r with phase := .planning, sources := sources.map .fresh }, .stays)
    | _ => none
  | .moved =>
    match r.phase, s.work.bind (s.inodes[·]?) with
    | .moving, some file =>
      some ({ s with work := none, placed := some file },
        { r with
          phase := .finishing
          transfer := { r.transfer with state := .DONE, errorKind := none } }, .stays)
    | _, _ => none
  | .stopped =>
    match r.phase, r.aborted with
    | .moving, some reason =>
      let (r, effect) := r.stop reason
      some (s, r, effect)
    | _, _ => none
  | .throws =>
    match r.phase with
    | .preparing | .opening | .moving => some (s, r.threw, .stays)
    | _ => none
  | .fail kind =>
    match r.phase with
    | .catching (some copy) =>
      some ({ s with row := { copy with state := .FAILED, errorKind := some kind } },
        { r with phase := .closing }, .stays)
    | _ => none

end MediaCenterSync.TransferEngine
