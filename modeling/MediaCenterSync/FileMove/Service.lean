import MediaCenterSync.Lib.FileTree
import MediaCenterSync.Lib.Program

/-!
# Moving one finished file into a library

The move service: a rename when both ends are on one device, and otherwise a copy into
`<destination>.mcs-part` that a later call resumes, is compared with the source by its length and
renamed into place.  A caller that keeps the source may have it replaced by a symbolic link to
the copy, with a note beside the copy that says which path links to it.

The service is a `Program` over the file system it is handed (`Op`), and `Effect` says what each
operation may do: succeed, or fail with any error and, where it writes, with a part written.
The signal of the caller is asked too, and answers as it likes; the program never asks it again
after it said stop.  Nobody else writes to the source while it is read, so a read stream is the
list of the buffers it will deliver (`ReadStream`).  Progress reports and rates are left out.
-/

namespace MediaCenterSync.FileMove

abbrev Bytes := List UInt8

/-! ### Data -/

/-- The code of an error of the file system. -/
inductive Errno where
  | EXDEV
  | ENOSPC
  | ENOENT
  | EEXIST
  | other (code : String)
deriving DecidableEq, Repr

inductive ErrorKey where
  | GENERAL
  | TRANSFER_DESTINATION_FULL
deriving Repr

/-- What a move throws: an error of the file system as it came, or a `FileMoveError`. -/
inductive Failure where
  | errno (code : Errno)
  | fileMove (key : ErrorKey) (message : String)
deriving Repr

inductive FileMoveOutcome where
  | RENAMED
  | COPIED
  | PAUSED
  | CANCELLED
deriving Repr

structure FileMoveResult where
  outcome : FileMoveOutcome
  bytesCopied : ℕ
  partialPath : Option FilePath
deriving Repr

structure FileMoveRequest where
  source : FilePath
  destination : FilePath
  /-- Whether there is a signal to stop the move. -/
  signal : Bool := false
  reserveBytes : Option ℕ := none
  keepSource : Bool := false
  linkSource : Bool := false
  absoluteLink : Bool := true
deriving Repr

/-- What a read stream delivers before it ends, or before it fails. -/
structure ReadStream where
  buffers : List Bytes
  failure : Option Errno
deriving Repr

/-- Eight mebibytes. -/
def COPY_CHUNK_BYTES : ℕ := 8 * 1024 * 1024

def PARTIAL_SUFFIX : String := ".mcs-part"

def LINK_SUFFIX : String := ".mcs-link"

def WITNESS_SUFFIX : String := ".src"

def WITNESS_HEADER : String := "# mcs: paths that link to this file"

/-- The path with a text after its name. -/
def withSuffix (path : FilePath) (suffix : String) : FilePath :=
  { path with name := path.name ++ suffix }

def partialOf (destination : FilePath) : FilePath := withSuffix destination PARTIAL_SUFFIX

/-- The link being built beside the source. -/
def temporaryOf (source : FilePath) : FilePath := withSuffix source LINK_SUFFIX

def witnessOf (destination : FilePath) : FilePath :=
  { destination with name := "." ++ destination.name ++ WITNESS_SUFFIX }

/-! ### The file system -/

/-- The operations of the file system, the questions to the signal, and those to the streams. -/
inductive Op where
  /-- `signal.aborted` -/
  | stopped
  /-- `signal.reason === FILE_MOVE_CANCEL` -/
  | cancelled
  | mkdir (dir : List String)
  | rename (source target : FilePath)
  /-- Whether anything is found at a path: how a destination is probed. -/
  | access (path : FilePath)
  | stat (path : FilePath)
  | lstat (path : FilePath)
  | symlink (target : LinkTarget) (path : FilePath)
  | readFile (path : FilePath)
  | writeFile (path : FilePath) (content : String)
  | statfs (dir : List String)
  | unlink (path : FilePath)
  | createReadStream (path : FilePath) (start : ℕ)
  /-- Opened for appending: created when absent, never truncated. -/
  | createWriteStream (path : FilePath)
  | write (path : FilePath) (chunk : Bytes)
  | finished (path : FilePath)

/-- What each operation answers: `stat` the size, `lstat` whether it is a link, `statfs` the free
blocks and their size. -/
def Op.Answer : Op → Type
  | stopped | cancelled | access _ => Bool
  | mkdir _ | rename _ _ | symlink _ _ | writeFile _ _ | unlink _ => Except Errno Unit
  | createWriteStream _ | write _ _ | finished _ => Except Errno Unit
  | stat _ => Except Errno ℕ
  | lstat _ => Except Errno Bool
  | readFile _ => Except Errno String
  | statfs _ => Except Errno (ℕ × ℕ)
  | createReadStream _ _ => ReadStream

abbrev Script := Program Op Op.Answer

namespace Fs

abbrev stopped : Script Bool := .ask Op.stopped
abbrev cancelled : Script Bool := .ask Op.cancelled
abbrev mkdir (dir : List String) : Script (Except Errno Unit) := .ask (Op.mkdir dir)
abbrev rename (source target : FilePath) : Script (Except Errno Unit) :=
  .ask (Op.rename source target)
abbrev access (path : FilePath) : Script Bool := .ask (Op.access path)
abbrev stat (path : FilePath) : Script (Except Errno ℕ) := .ask (Op.stat path)
abbrev lstat (path : FilePath) : Script (Except Errno Bool) := .ask (Op.lstat path)
abbrev symlink (target : LinkTarget) (path : FilePath) : Script (Except Errno Unit) :=
  .ask (Op.symlink target path)
abbrev readFile (path : FilePath) : Script (Except Errno String) := .ask (Op.readFile path)
abbrev writeFile (path : FilePath) (content : String) : Script (Except Errno Unit) :=
  .ask (Op.writeFile path content)
abbrev statfs (dir : List String) : Script (Except Errno (ℕ × ℕ)) := .ask (Op.statfs dir)
abbrev unlink (path : FilePath) : Script (Except Errno Unit) := .ask (Op.unlink path)
abbrev createReadStream (path : FilePath) (start : ℕ) : Script ReadStream :=
  .ask (Op.createReadStream path start)
abbrev createWriteStream (path : FilePath) : Script (Except Errno Unit) :=
  .ask (Op.createWriteStream path)
abbrev write (path : FilePath) (chunk : Bytes) : Script (Except Errno Unit) :=
  .ask (Op.write path chunk)
abbrev finished (path : FilePath) : Script (Except Errno Unit) := .ask (Op.finished path)

end Fs

def encode (text : String) : Bytes := text.toUTF8.data.toList

def Effect (M : Mounts) (d : Disk UInt8) : (op : Op) → Disk UInt8 → op.Answer → Prop
  | .stopped, d', _ | .cancelled, d', _ | .mkdir _, d', _ | .statfs _, d', _ => d' = d
  | .finished _, d', _ => d' = d
  | .access path, d', found => d' = d ∧ found = (d.read M path).isSome
  | .rename source target, d', .ok () =>
    M.device (M.real source.dir) = M.device (M.real target.dir) ∧
      ∃ entry, d (M.locate source) = some entry ∧
        d' = (d.set (M.locate source) none).set (M.locate target) (some entry)
  | .rename source target, d', .error code =>
    d' = d ∧ (code = .EXDEV → M.device (M.real source.dir) ≠ M.device (M.real target.dir))
  | .stat path, d', .ok size => d' = d ∧ ∃ content, d.read M path = some content ∧
      size = content.length
  | .stat _, d', .error _ => d' = d
  | .lstat path, d', .ok isSymbolicLink => d' = d ∧ ∃ entry, d (M.locate path) = some entry ∧
      isSymbolicLink = entry.isLink
  | .lstat _, d', .error _ => d' = d
  | .symlink target path, d', .ok () => d (M.locate path) = none ∧
      d' = d.set (M.locate path) (some (.link target))
  | .symlink _ _, d', .error _ => d' = d
  -- Bytes that are no text read as some text.
  | .readFile path, d', .ok text => d' = d ∧ ∃ content, d.read M path = some content ∧
      ∀ text', String.fromUTF8? ⟨content.toArray⟩ = some text' → text = text'
  | .readFile _, d', .error _ => d' = d
  -- A write through links: to the file at their end, which is created when it is absent.
  | .writeFile path content, d', .ok () => ∃ place, d.lookup M path = some place ∧
      d' = d.set place (some (.file (encode content)))
  | .writeFile path content, d', .error _ => d' = d ∨ ∃ place, d.lookup M path = some place ∧
      ∃ written, written <+: encode content ∧ d' = d.set place (some (.file written))
  | .unlink path, d', .ok () => (d (M.locate path)).isSome ∧ d' = d.set (M.locate path) none
  | .unlink _, d', .error _ => d' = d
  | .createReadStream path start, d', stream => d' = d ∧
      (∀ buffer ∈ stream.buffers, buffer ≠ [] ∧ buffer.length ≤ COPY_CHUNK_BYTES) ∧
      match d.read M path with
      | some content => stream.buffers.flatten <+: content.drop start ∧
          (stream.failure = none → stream.buffers.flatten = content.drop start)
      | none => stream.buffers = [] ∧ stream.failure ≠ none
  | .createWriteStream path, d', .ok () => ∃ place, d.lookup M path = some place ∧
      d' = d.set place (some (.file ((d.read M path).getD [])))
  | .createWriteStream _, d', .error _ => d' = d
  | .write path chunk, d', .ok () => ∃ place content, d.lookup M path = some place ∧
      d.read M path = some content ∧ d' = d.set place (some (.file (content ++ chunk)))
  | .write path chunk, d', .error _ => d' = d ∨ ∃ place content, d.lookup M path = some place ∧
      d.read M path = some content ∧
      ∃ written, written <+: chunk ∧ d' = d.set place (some (.file (content ++ written)))

/-- An answer, or what stands for a failed one. -/
def caught {α : Type} (answer : Except Errno α) (otherwise : α) : α :=
  match answer with
  | .ok a => a
  | .error _ => otherwise

/-! ### Room -/

inductive SpaceVerdict where
  | FITS
  | TIGHT
  | INSUFFICIENT
  | UNKNOWN
deriving Repr

def spaceVerdict (freeBytes : Option ℕ) (requiredBytes reserveBytes : ℕ) : SpaceVerdict :=
  if requiredBytes = 0 then .FITS
  else match freeBytes with
    | none => .UNKNOWN
    | some free =>
      if free < requiredBytes then .INSUFFICIENT
      else if free - requiredBytes < reserveBytes then .TIGHT else .FITS

/-- Free bytes on the file system that holds a directory, when it can be measured. -/
def freeBytesAt (dir : List String) : Script (Option ℕ) := do
  match ← Fs.statfs dir with
  | .ok (bavail, bsize) => return some (bavail * bsize)
  | .error _ => return none

def refuseIfItCannotFit (request : FileMoveRequest) (required : ℕ) :
    Script (Except Failure Unit) := do
  let free ← freeBytesAt request.destination.dir
  match spaceVerdict free required (request.reserveBytes.getD 0) with
  | .INSUFFICIENT =>
    return .error (.fileMove .TRANSFER_DESTINATION_FULL
      s!"ENOSPC: {free.getD 0} bytes free where {required} are needed")
  | _ => return .ok ()

/-! ### The copy -/

def stopped (request : FileMoveRequest) : Script Bool :=
  if request.signal then Fs.stopped else return false

/-- The answer of a stopped call: a cancellation takes the partial away. -/
def aborted (partialPath : FilePath) (bytesCopied : ℕ) : Script FileMoveResult := do
  if ← Fs.cancelled then
    let _ ← Fs.unlink partialPath
    return ⟨.CANCELLED, bytesCopied, none⟩
  else
    return ⟨.PAUSED, bytesCopied, some partialPath⟩

/-- Where a second call picks the copy up. -/
def resumeOffset (partialPath : FilePath) (total : ℕ) : Script ℕ := do
  let size := caught (← Fs.stat partialPath) 0
  if size > total then
    let _ ← Fs.unlink partialPath
    return 0
  else
    return size

/-- What the loop over the buffers leaves: whether it was stopped, how much it copied, and the
first failure. -/
structure Copied where
  aborted : Bool
  bytesCopied : ℕ
  failure : Option Errno

/-- The loop: stopped at a boundary between two buffers, or by a failing write. -/
def copyLoop (request : FileMoveRequest) (partialPath : FilePath) (failure : Option Errno) :
    List Bytes → ℕ → Script Copied
  | [], bytesCopied => return ⟨false, bytesCopied, failure⟩
  | chunk :: chunks, bytesCopied => do
    if ← stopped request then
      return ⟨true, bytesCopied, none⟩
    else
      match ← Fs.write partialPath chunk with
      | .ok () => copyLoop request partialPath failure chunks (bytesCopied + chunk.length)
      | .error code => return ⟨false, bytesCopied + chunk.length, some code⟩

/-- The write stream is opened, and looped over when it is. -/
def copyBuffers (request : FileMoveRequest) (partialPath : FilePath) (read : ReadStream) :
    Script Copied := do
  match ← Fs.createWriteStream partialPath with
  | .ok () => copyLoop request partialPath read.failure read.buffers 0
  | .error code => return ⟨false, 0, some code⟩

/-- A full disk gets a key of its own. -/
def translate (code : Errno) (bytesDone total : ℕ) : Failure :=
  if code = .ENOSPC then
    .fileMove .TRANSFER_DESTINATION_FULL
      s!"ENOSPC: the destination filled up at {bytesDone} of {total} bytes"
  else .errno code

/-- The two streams, from their opening to their end. -/
def copy (request : FileMoveRequest) (partialPath : FilePath) (offset total : ℕ) :
    Script (Except Failure (Bool × ℕ)) := do
  let read ← Fs.createReadStream request.source offset
  let copied ← copyBuffers request partialPath read
  let ended ← Fs.finished partialPath
  match copied.failure, ended with
  | some code, _ => return .error (translate code (offset + copied.bytesCopied) total)
  | none, .error code => return .error (translate code (offset + copied.bytesCopied) total)
  | none, .ok () => return .ok (copied.aborted, copied.bytesCopied)

/-! ### The link -/

def commonLength : List String → List String → ℕ
  | a :: as, b :: bs => if a = b then commonLength as bs + 1 else 0
  | _, _ => 0

/-- `relative(start, path)`: up to the last common directory, and down from it.  No file is a
directory on the way to `start`, so its name is never common. -/
def relative (start : List String) (path : FilePath) : LinkTarget :=
  let common := commonLength start path.dir
  .relative (List.replicate (start.length - common) ".." ++ path.dir.drop common) path.name

/-- What the link that replaces the source says. -/
def linkTargetOf (request : FileMoveRequest) : LinkTarget :=
  if request.absoluteLink then .absolute request.destination
  else relative request.source.dir request.destination

def FilePath.text (path : FilePath) : String := "/" ++ "/".intercalate (path.dir ++ [path.name])

/-- White space and line ends, as `trim` knows them. -/
def isSpace (c : Char) : Bool :=
  c.toNat ∈ [9, 10, 11, 12, 13, 32, 0xa0, 0x1680, 0x2028, 0x2029, 0x202f, 0x205f, 0x3000, 0xfeff] ||
    (0x2000 ≤ c.toNat && c.toNat ≤ 0x200a)

def trim (text : String) : String :=
  .ofList ((text.toList.dropWhile isSpace).reverse.dropWhile isSpace).reverse

def linesOf (text : String) : List String := ((text.splitOn "\n").map trim).filter (· ≠ "")

def witness (destination link : FilePath) : Script Unit := do
  let path := witnessOf destination
  let lines := linesOf (caught (← Fs.readFile path) "")
  if FilePath.text link ∈ lines then
    return ()
  else
    let kept := lines.filter (· ≠ WITNESS_HEADER)
    let _ ← Fs.writeFile path
      ("\n".intercalate (WITNESS_HEADER :: kept ++ [FilePath.text link]) ++ "\n")

/-- The half-made link is swept up. -/
def sweep (request : FileMoveRequest) : Script Unit := do
  let _ ← Fs.unlink (temporaryOf request.source)

/-- Replace the source with a symbolic link to the copy, built beside it and renamed over it. -/
def link (request : FileMoveRequest) : Script Unit := do
  match ← Fs.lstat request.source with
  | .error _ => sweep request
  | .ok isSymbolicLink =>
    if isSymbolicLink then
      return ()
    else
      match ← Fs.symlink (linkTargetOf request) (temporaryOf request.source) with
      | .error _ => sweep request
      | .ok () =>
        match ← Fs.rename (temporaryOf request.source) request.source with
        | .error _ => sweep request
        | .ok () => witness request.destination request.source

/-! ### The move -/

/-- What follows a copy in its place: the source goes, or becomes a link, or stays. -/
def settle (request : FileMoveRequest) : Script Unit := do
  if request.keepSource = false then
    let _ ← Fs.unlink request.source
  else if request.linkSource then
    link request

def commit (request : FileMoveRequest) (partialPath : FilePath) (total bytesCopied : ℕ) :
    Script (Except Failure FileMoveResult) := do
  let stats ← Fs.stat partialPath
  if stats = .ok total then
    match ← Fs.rename partialPath request.destination with
    | .error code => return .error (.errno code)
    | .ok () =>
      settle request
      return .ok ⟨.COPIED, bytesCopied, none⟩
  else
    let written : Int := caught (stats.map (↑)) (-1)
    -- A short partial is kept for the next call, a long one is no prefix.
    if written > total then
      let _ ← Fs.unlink partialPath
    return .error (.fileMove .GENERAL s!"the copy is {written} bytes where the source is {total}")

/-- The copy: check, resume, copy, verify, commit. -/
def stream (request : FileMoveRequest) (partialPath : FilePath) :
    Script (Except Failure FileMoveResult) := do
  match ← Fs.stat request.source with
  | .error code => return .error (.errno code)
  | .ok total =>
    let offset ← resumeOffset partialPath total
    if offset ≥ total ∧ total > 0 then
      commit request partialPath total 0
    else
      match ← refuseIfItCannotFit request (total - offset) with
      | .error failure => return .error failure
      | .ok () =>
        match ← copy request partialPath offset total with
        | .error failure => return .error failure
        | .ok (true, bytesCopied) => return .ok (← aborted partialPath bytesCopied)
        | .ok (false, bytesCopied) => commit request partialPath total bytesCopied

/-- The first part of a move: the directory, and the rename when the source may go. -/
def place (request : FileMoveRequest) : Script (Except Failure FileMoveResult) := do
  match ← Fs.mkdir request.destination.dir with
  | .error code => return .error (.errno code)
  | .ok () =>
    if request.keepSource then
      stream request (partialOf request.destination)
    else
      match ← Fs.rename request.source request.destination with
      | .ok () => return .ok ⟨.RENAMED, 0, none⟩
      | .error .EXDEV => stream request (partialOf request.destination)
      | .error code => return .error (.errno code)

/-- **The move**, with the hold before it when `placingHoldMs` is set. -/
def move (placingHoldMs : ℕ) (request : FileMoveRequest) :
    Script (Except Failure FileMoveResult) := do
  if ← stopped request then
    return .ok (← aborted (partialOf request.destination) 0)
  else if placingHoldMs > 0 then
    if ← stopped request then
      return .ok (← aborted (partialOf request.destination) 0)
    else
      place request
  else
    place request

end MediaCenterSync.FileMove
