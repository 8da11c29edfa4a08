import MediaCenterSync.FileMove.Service
import MediaCenterSync.TransferEngine.ChunkPlanner

/-!
# Sending transfers somewhere else

A transfer names the path its file goes to, or is at once it is done.  Sending it to another
library keeps the layout below the library it was in (`destinationPath`): the new path is the
chosen folder, or the library's own directory, with what was below the deepest old root that
holds the file; a file under no root keeps its name only.

A whole run is sent at once (`changeJobDestination`): every new path is computed and probed before
anything is moved (`planAll`), then the transfers are sent one after another (`sendAll`), those
that are done by moving their file.  Paths are resolved; a destination library has passed the
checks on its service and on its directory.
-/

namespace MediaCenterSync.TransferManager

open FileMove TransferEngine

/-! ### Data -/

abbrev Dir := List String

inductive PlacedBy where
  | REQUESTED
  | PLAN_PREFERENCE
  | CHOSEN_BY_HAND
  | EXISTING_COPY
  | CATEGORY
  | DEFAULT_LIBRARY
  | FIXED_PATH
  | FALLBACK_PATH
  | ANY_WRITABLE
deriving DecidableEq, Repr

/-- A library: its own directory, and those its service's root mappings derive. -/
structure Library where
  id : String
  localPath : Dir
  derivedRoots : List Dir
deriving Repr

/-- A transfer row, as far as its destination is concerned. -/
structure Transfer where
  id : String
  state : TransferState
  targetPath : FilePath
  targetLibraryId : Option String
  placedBy : PlacedBy
deriving DecidableEq, Repr

/-- The libraries, and the settings that are read. -/
structure Gateway where
  libraries : List Library
  defaultTargetPath : Option Dir
  diskReserveBytes : ℕ
  placingHoldMs : ℕ
deriving Repr

inductive ErrorKey where
  | TRANSFER_NOT_FOUND
  | TRANSFER_BEING_PLACED
  | TRANSFER_TARGET_OCCUPIED
  | TRANSFER_DESTINATION_INVALID
  | move (key : FileMove.ErrorKey)
deriving Repr

/-- What a request is answered with when it fails. -/
inductive Refusal where
  | notFound (key : ErrorKey)
  | conflict (key : ErrorKey)
  | thrown (code : Errno)
deriving Repr

/-! ### Paths -/

/-- Every directory of a library on our disk. -/
def localRootsOf (library : Library) : List Dir :=
  if library.derivedRoots ≠ [] then library.derivedRoots else [library.localPath]

def textLength (dir : Dir) : ℕ := (dir.map fun part => part.length + 1).sum

/-- A directory is inside a root when it is that root or below it. -/
def isInside (dir root : Dir) : Bool := root.isPrefixOf dir

/-- The folder somebody chose, once it is shown to be inside the library. -/
def requireFolder (library : Library) (folder : Option Dir) : Except Refusal (Option Dir) :=
  match folder with
  | none => .ok none
  | some chosen =>
    if (localRootsOf library).any (isInside chosen) then .ok (some chosen)
    else .error (.conflict .TRANSFER_DESTINATION_INVALID)

/-- The roots a transfer's path is measured against, the longest first. -/
def rootsOf (gateway : Gateway) (transfer : Transfer) : List Dir :=
  let previous := transfer.targetLibraryId.bind fun id => gateway.libraries.find? (·.id = id)
  ((previous.map localRootsOf).getD [] ++ gateway.defaultTargetPath.toList).insertionSort
    fun left right => textLength right ≤ textLength left

/-- Where the file goes inside the new library.  A file is no root itself. -/
def destinationPath (gateway : Gateway) (library : Library) (folder : Option Dir)
    (transfer : Transfer) : FilePath :=
  let inside := match (rootsOf gateway transfer).find? (isInside transfer.targetPath.dir) with
    | none => []
    | some root => transfer.targetPath.dir.drop root.length
  ⟨folder.getD library.localPath ++ inside, transfer.targetPath.name⟩

/-! ### One transfer -/

def retarget (library : Library) (path : FilePath) (transfer : Transfer) : Transfer :=
  { transfer with
    targetPath := path, targetLibraryId := some library.id, placedBy := .CHOSEN_BY_HAND }

/-- What a failed move is answered with. -/
def refusalOf : Failure → Refusal
  | .fileMove key _ => .conflict (.move key)
  | .errno code => .thrown code

def moveRequest (gateway : Gateway) (transfer : Transfer) (path : FilePath) : FileMoveRequest :=
  { source := transfer.targetPath, destination := path,
    reserveBytes := some gateway.diskReserveBytes }

/-- Put one file where it has just been told to go, whatever state it was in. -/
def sendTo (gateway : Gateway) (library : Library) (transfer : Transfer) (path : FilePath) :
    Script (Except Refusal Transfer) := do
  if transfer.state = .DONE then
    match ← move gateway.placingHoldMs (moveRequest gateway transfer path) with
    | .error failure => return .error (refusalOf failure)
    | .ok _ => return .ok (retarget library path transfer)
  else
    return .ok (retarget library path transfer)

/-! ### A run -/

/-- What one transfer of a run has to do: nothing when it is already where it is being sent. -/
def planOne (gateway : Gateway) (library : Library) (folder : Option Dir) (transfer : Transfer) :
    Script (Except Refusal (Transfer × Option FilePath)) := do
  let path := destinationPath gateway library folder transfer
  if path = transfer.targetPath ∧ transfer.targetLibraryId = some library.id then
    return .ok (transfer, none)
  else if transfer.state = .PLACING then
    return .error (.conflict .TRANSFER_BEING_PLACED)
  else if ← Fs.access path then
    return .error (.conflict .TRANSFER_TARGET_OCCUPIED)
  else
    return .ok (transfer, some path)

/-- Every file is checked before any file is touched. -/
def planAll (gateway : Gateway) (library : Library) (folder : Option Dir) :
    List Transfer → Script (Except Refusal (List (Transfer × Option FilePath)))
  | [] => return .ok []
  | transfer :: transfers => do
    match ← planOne gateway library folder transfer with
    | .error refusal => return .error refusal
    | .ok one =>
      match ← planAll gateway library folder transfers with
      | .error refusal => return .error refusal
      | .ok planned => return .ok (one :: planned)

/-- The transfers are sent in order; the rows afterwards. -/
def sendAll (gateway : Gateway) (library : Library) :
    List (Transfer × Option FilePath) → Script (Except Refusal (List Transfer))
  | [] => return .ok []
  | (transfer, none) :: planned => do
    match ← sendAll gateway library planned with
    | .error refusal => return .error refusal
    | .ok rows => return .ok (transfer :: rows)
  | (transfer, some path) :: planned => do
    match ← sendTo gateway library transfer path with
    | .error refusal => return .error refusal
    | .ok row =>
      match ← sendAll gateway library planned with
      | .error refusal => return .error refusal
      | .ok rows => return .ok (row :: rows)

/-- **Send a whole run somewhere else**: the transfers of its lots, and their rows afterwards. -/
def changeJobDestination (gateway : Gateway) (transfers : List Transfer) (library : Library)
    (folder : Option Dir) : Script (Except Refusal (List Transfer)) := do
  if transfers = [] then
    return .error (.notFound .TRANSFER_NOT_FOUND)
  else
    match requireFolder library folder with
    | .error refusal => return .error refusal
    | .ok folder =>
      match ← planAll gateway library folder transfers with
      | .error refusal => return .error refusal
      | .ok planned => sendAll gateway library planned

end MediaCenterSync.TransferManager
