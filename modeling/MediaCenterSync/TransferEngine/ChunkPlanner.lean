import Mathlib.Algebra.GroupWithZero.Nat
import Mathlib.Data.List.Sort
import MediaCenterSync.Lib.SparseFile

/-!
# The states of a transfer and of its chunks
-/

namespace MediaCenterSync.TransferEngine

inductive TransferState where
  | QUEUED
  | CONNECTING
  | DOWNLOADING
  | PAUSED
  | VERIFYING
  | REPAIRING
  | PLACING
  | DONE
  | FAILED
  | CANCELLED
deriving DecidableEq, Repr

inductive ChunkState where
  | PENDING
  | ACTIVE
  | DONE
  | FAILED
  | CORRUPT
deriving DecidableEq, Repr

inductive TransferErrorKind where
  | SOURCE_GONE
  | SOURCE_UNAUTHORIZED
  | NETWORK
  | CHECKSUM_MISMATCH
  | DISK_FULL
  | PERMISSION_DENIED
  | TARGET_MISSING
  | CANCELLED
  | SERVICE_REMOVED
  | UNKNOWN
deriving DecidableEq, Repr

end MediaCenterSync.TransferEngine

/-!
## The chunk plan

A transfer is cut into chunks, each fetched on its own.  `planChunks` lays the chunks out, or
continues the stored ones as they are (`resumePlan`), whatever size the transfer now has.
-/

namespace MediaCenterSync.TransferEngine

abbrev ServiceId := String

/-- How many pieces a transfer is allowed to be cut into. -/
def MAX_CHUNKS : ℕ := 4096

def MIN_CHUNK_SIZE : ℕ := 256 * 1024

def MEBIBYTE : ℕ := 1024 * 1024

structure PlannedChunk where
  index : ℕ
  start : ℕ
  /-- The `end` of the chunk: inclusive, like an HTTP range. -/
  last : ℕ
  size : ℕ
  state : ChunkState
  bytesDone : ℕ
  sourceServiceId : Option ServiceId
  attempts : ℕ
  checksum : Option String
deriving DecidableEq, Repr

/-- A chunk already in the database. -/
structure ExistingChunk where
  index : ℕ
  start : ℕ
  last : ℕ
  state : ChunkState
  sourceServiceId : Option ServiceId
  attempts : ℕ
  checksum : Option String
deriving DecidableEq, Repr

structure ChunkPlan where
  chunkSize : ℕ
  chunksTotal : ℕ
  chunks : List PlannedChunk
  bytesTotal : ℕ
  bytesDone : ℕ
  /-- An existing plan was continued rather than a new one laid out. -/
  resumed : Bool
deriving Repr

/-- `Math.ceil` of a quotient. -/
def ceilDiv (a b : ℕ) : ℕ := (a + b - 1) / b

def resolveChunkSize (totalBytes configured : ℕ) : ℕ :=
  let requested := max MIN_CHUNK_SIZE configured
  if totalBytes ≤ requested then requested
  else if ceilDiv totalBytes requested ≤ MAX_CHUNKS then requested
  else ceilDiv (ceilDiv totalBytes MAX_CHUNKS) MEBIBYTE * MEBIBYTE

/-- The loop of `planChunks` from an offset on, for at most so many chunks. -/
def layOut (size chunkSize : ℕ) : ℕ → ℕ → ℕ → List PlannedChunk
  | 0, _, _ => []
  | fuel + 1, start, index =>
    if start < size then
      let last := min (start + chunkSize) size - 1
      { index, start, last, size := last - start + 1, state := .PENDING, bytesDone := 0,
        sourceServiceId := none, attempts := 0, checksum := none } ::
        layOut size chunkSize fuel (start + chunkSize) (index + 1)
    else []

def resumePlan (totalBytes : ℕ) (existing : List ExistingChunk) : ChunkPlan :=
  let ordered := existing.insertionSort fun left right => left.index ≤ right.index
  let chunks := ordered.map fun chunk =>
    { index := chunk.index, start := chunk.start, last := chunk.last
      size := chunk.last + 1 - chunk.start
      -- What was in flight goes back to pending.
      state := if chunk.state = .DONE then .DONE else .PENDING
      bytesDone := if chunk.state = .DONE then chunk.last + 1 - chunk.start else 0
      sourceServiceId := chunk.sourceServiceId, attempts := chunk.attempts
      checksum := chunk.checksum }
  { chunkSize := (chunks.head?.map (·.size)).getD 0, chunksTotal := chunks.length, chunks
    bytesTotal := totalBytes, bytesDone := (chunks.map (·.bytesDone)).sum, resumed := true }

/-- Lay out the pieces of a transfer, continuing an existing plan when there is one. -/
def planChunks (totalBytes configuredChunkSize : ℕ) (existing : List ExistingChunk) : ChunkPlan :=
  if existing ≠ [] then resumePlan totalBytes existing
  else
    let chunkSize := resolveChunkSize totalBytes configuredChunkSize
    let chunks := layOut totalBytes chunkSize totalBytes 0 0
    { chunkSize, chunksTotal := chunks.length, chunks, bytesTotal := totalBytes, bytesDone := 0
      resumed := false }

/-- Whether a stored plan still describes a file of this size. -/
def planMatchesSize (plan : ChunkPlan) (totalBytes : ℕ) : Bool :=
  match plan.chunks.getLast? with
  | none => totalBytes = 0
  | some last => last.last + 1 = totalBytes

end MediaCenterSync.TransferEngine

/-!
## Verification

`verify` checks a file against whatever evidence exists: hashes of its pieces, one of the whole
file, or nothing but its size.  `planRepair` says which pieces to fetch again, and from whom.  The
hash is a parameter; holes are read as zeros.
-/

namespace MediaCenterSync.TransferEngine

/-- A piece as verification sees it. -/
structure VerifiableChunk where
  index : ℕ
  start : ℕ
  last : ℕ
  sourceServiceId : Option ServiceId
  checksum : Option String
deriving Repr

def PlannedChunk.verifiable (chunk : PlannedChunk) : VerifiableChunk :=
  { index := chunk.index, start := chunk.start, last := chunk.last
    sourceServiceId := chunk.sourceServiceId, checksum := chunk.checksum }

def ExistingChunk.verifiable (chunk : ExistingChunk) : VerifiableChunk :=
  { index := chunk.index, start := chunk.start, last := chunk.last
    sourceServiceId := chunk.sourceServiceId, checksum := chunk.checksum }

structure VerificationReport where
  corruptChunks : List ℕ
  detail : Option String
deriving Repr

def VerificationReport.ok (report : VerificationReport) : Bool :=
  report.corruptChunks.isEmpty && report.detail.isNone

/-- The bytes of a file from `start` to `last`, both included, hashed. -/
def hashRange (hash : List UInt8 → String) (file : SparseFile UInt8) (start last : ℕ) : String :=
  hash (((file.read 0).drop start).take (last + 1 - start))

def verify (hash : List UInt8 → String) (file : Option (SparseFile UInt8))
    (chunks : List VerifiableChunk) (expectedSize : Option ℕ) (expectedChecksum : Option String) :
    VerificationReport :=
  let withChecksums := chunks.filter fun chunk => chunk.checksum.getD "" ≠ ""
  match file with
  | none => ⟨[], some "the file is not there any more"⟩
  | some file =>
    let size := file.length
    if expectedSize ≠ none ∧ expectedSize ≠ some size then
      ⟨chunks.map (·.index), some s!"size is {size}, expected {expectedSize.getD 0}"⟩
    else if withChecksums ≠ [] then
      let corrupt := withChecksums.filter fun chunk =>
        some (hashRange hash file chunk.start chunk.last) ≠ chunk.checksum
      let amount := corrupt.length
      ⟨corrupt.map (·.index), if corrupt ≠ [] then some s!"{amount} pieces did not match" else none⟩
    else
      match expectedChecksum with
      | none => ⟨[], none⟩
      | some expected =>
        if hash (file.read 0) = expected then ⟨[], none⟩
        else ⟨chunks.map (·.index), some "whole-file checksum mismatch, no piece hashes available"⟩

structure RepairAssignment where
  chunkIndex : ℕ
  sourceServiceId : Option ServiceId
deriving DecidableEq, Repr

/-- Which pieces to fetch again, and from whom: away from the source that served them, spread over
the others. -/
def planRepair (report : VerificationReport) (chunks : List VerifiableChunk)
    (availableSourceIds : List ServiceId) : List RepairAssignment :=
  report.corruptChunks.mapIdx fun position chunkIndex =>
    let previous := (chunks.reverse.find? (·.index = chunkIndex)).bind (·.sourceServiceId)
    let alternatives := availableSourceIds.filter fun id => some id ≠ previous
    { chunkIndex
      sourceServiceId :=
        if alternatives ≠ [] then alternatives[position % alternatives.length]?
        else availableSourceIds.head? }

end MediaCenterSync.TransferEngine
