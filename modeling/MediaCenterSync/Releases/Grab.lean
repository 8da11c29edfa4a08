import MediaCenterSync.Planning.Siblings
import MediaCenterSync.Releases.Release

/-!
# What was grabbed

A row remembers one release handed to the download client: what it was taken for, how far the client
has got and where the file went.  The release manager is a `Program` over the repository, the client
and the disk (`Op`): each call of theirs is one operation, and what it answers is the world's.

A path is the list of its components.  A file of a download is named by the text the client gave it.
-/

namespace MediaCenterSync.Releases

open Matching (MediaKind)
open Placement (Folder)
open Planning (RootMapping mappedLocalPath)
open TransferManager (Dir isInside)

/-! ### Data -/

inductive GrabState where
  /-- Handed to the client, which has said nothing yet. -/
  | SENT
  | DOWNLOADING
  | PAUSED
  /-- The client has all of it, and it is not filed. -/
  | FETCHED
  /-- Copied into the library. -/
  | PLACED
  | FAILED
  | CANCELLED
deriving DecidableEq

/-- One episode a grab was taken for. -/
structure GrabPlacement where
  itemId : String
  seasonNumber : Option ℕ
  episodeNumber : Option ℕ
  title : String
  /-- The file of the download that is it, once one is known to be. -/
  fileName : Option String
  bytes : Option ℕ
  targetPath : Option Dir

structure ReleaseGrab where
  id : String
  itemId : String
  state : GrabState
  clientId : Option String
  bytesDone : ℕ
  bytesTotal : ℕ
  /-- Where the client wrote it, as the gateway sees it. -/
  sourcePath : Option Dir
  targetPath : Option Dir
  targetLibraryId : Option String
  targetFolder : Option Folder
  /-- Where it was expected to land when it was sent. -/
  plannedPath : Option Dir
  /-- `partial`: only part of the release was asked for, and it was added stopped. -/
  isPartial : Bool
  error : Option String
  placements : List GrabPlacement

/-- One file of a download, as the client lists it. -/
structure DownloadFile where
  index : ℕ
  name : String
  size : ℕ
deriving DecidableEq

/-- How far a download is, as the client sees it. -/
structure DownloadStatus where
  clientId : String
  name : String
  bytesDone : ℕ
  bytesTotal : ℕ
  complete : Bool
  paused : Bool
  state : String
  failed : Bool
  failedReason : Option String
  savePath : Option Dir
  contentPath : Option Dir

structure DownloadClientSettings where
  savePath : Option Dir
  rootMappings : List RootMapping

structure MediaItem where
  id : String
  kind : MediaKind
  title : String
  seasonNumber : Option ℕ
  episodeNumber : Option ℕ

structure DiskFile where
  path : Dir
  size : ℕ

/-- `_nameableOf`: what a file is filed as, and a copy of its show on our disk. -/
structure Nameable where
  kind : MediaKind
  seasonNumber : Option ℕ
  episodeNumber : Option ℕ
  title : String
  siblingPath : Option Dir

/-- What the placement of one file is asked with. -/
structure FilingRequest where
  kind : MediaKind
  item : MediaItem
  nameable : Nameable
  source : Dir
  pinnedPath : Option Folder
  preferredLibraryId : Option String

structure FilingTarget where
  libraryId : String
  directory : Dir
  path : Dir

/-- How a copy ended, and the last it reported. -/
structure Moved where
  progress : Option (ℕ × ℕ)
  outcome : Except String Unit

/-! ### Operations -/

inductive Op where
  | findLive
  | findOne (id : String)
  /-- Every column of the row, which is inserted where it is gone. -/
  | save (grab : ReleaseGrab)
  | delete (id : String)
  /-- The settings of the download client, where one is configured and enabled. -/
  | downloadClient
  | statuses (tracked : List String)
  | files (clientId : String)
  | selectFiles (clientId : String) (wanted : List ℕ)
  | start (clientId : String)
  | pause (clientId : String)
  | findItem (id : String)
  | findChildren (id : String)
  | readable (path : Dir)
  /-- The playable files under a download, and the row it is of. -/
  | filesUnder (grabId : String) (path : Dir)
  | nameableOf (item : MediaItem) (fileName : String)
  | pinnedFolder (item : MediaItem) (seasonNumber : Option ℕ)
  /-- The placement of one file, and the row it is for. -/
  | resolve (grabId : String) (request : FilingRequest)
  | prepare (target : FilingTarget)
  /-- A copy that keeps its source, and the row it is for. -/
  | move (grabId : String) (source destination : Dir)

/-- What each operation answers, or the reason it throws with. -/
def Op.Answer : Op → Type
  | findLive => List ReleaseGrab
  | findOne _ => Option ReleaseGrab
  | save _ | delete _ => Unit
  | downloadClient => Option DownloadClientSettings
  | statuses _ => Except String (List DownloadStatus)
  | files _ => Except String (List DownloadFile)
  | selectFiles _ _ | start _ | pause _ | prepare _ => Except String Unit
  | findItem _ => Option MediaItem
  | findChildren _ => List MediaItem
  | readable _ => Bool
  | filesUnder _ _ => List DiskFile
  | nameableOf _ _ => Nameable
  | pinnedFolder _ _ => Option Folder
  | resolve _ _ => Except String FilingTarget
  | move _ _ _ => Moved

abbrev Script := Program Op Op.Answer

namespace Ask

abbrev findLive : Script (List ReleaseGrab) := .ask Op.findLive
abbrev findOne (id : String) : Script (Option ReleaseGrab) := .ask (Op.findOne id)
abbrev save (grab : ReleaseGrab) : Script Unit := .ask (Op.save grab)
abbrev delete (id : String) : Script Unit := .ask (Op.delete id)
abbrev downloadClient : Script (Option DownloadClientSettings) := .ask Op.downloadClient
abbrev statuses (tracked : List String) : Script (Except String (List DownloadStatus)) :=
  .ask (Op.statuses tracked)
abbrev files (clientId : String) : Script (Except String (List DownloadFile)) :=
  .ask (Op.files clientId)
abbrev selectFiles (clientId : String) (wanted : List ℕ) :
    Script (Except String Unit) :=
  .ask (Op.selectFiles clientId wanted)
abbrev start (clientId : String) : Script (Except String Unit) := .ask (Op.start clientId)
abbrev pause (clientId : String) : Script (Except String Unit) := .ask (Op.pause clientId)
abbrev findItem (id : String) : Script (Option MediaItem) := .ask (Op.findItem id)
abbrev findChildren (id : String) : Script (List MediaItem) := .ask (Op.findChildren id)
abbrev readable (path : Dir) : Script Bool := .ask (Op.readable path)
abbrev filesUnder (grabId : String) (path : Dir) : Script (List DiskFile) :=
  .ask (Op.filesUnder grabId path)
abbrev nameableOf (item : MediaItem) (fileName : String) : Script Nameable :=
  .ask (Op.nameableOf item fileName)
abbrev pinnedFolder (item : MediaItem) (seasonNumber : Option ℕ) : Script (Option Folder) :=
  .ask (Op.pinnedFolder item seasonNumber)
abbrev resolve (grabId : String) (request : FilingRequest) :
    Script (Except String FilingTarget) :=
  .ask (Op.resolve grabId request)
abbrev prepare (target : FilingTarget) : Script (Except String Unit) := .ask (Op.prepare target)
abbrev move (grabId : String) (source destination : Dir) : Script Moved :=
  .ask (Op.move grabId source destination)

end Ask

/-! ### A row on its way into the library -/

/-- What is done with a row: it leaves the row as changed so far, and what it answers or the reason
it throws with. -/
def Filing (α : Type) : Type := ReleaseGrab → Script (ReleaseGrab × Except String α)

namespace Filing

variable {α β : Type}

/-- What comes next, where nothing was thrown. -/
def next (f : α → Filing β) : ReleaseGrab × Except String α → Script (ReleaseGrab × Except String β)
  | (grab, .ok a) => f a grab
  | (grab, .error reason) => return (grab, .error reason)

instance : Monad Filing where
  pure a := fun grab => return (grab, .ok a)
  bind x f := fun grab => x grab >>= next f

def throw (reason : String) : Filing α := fun grab => return (grab, .error reason)

def current : Filing ReleaseGrab := fun grab => return (grab, .ok grab)

def change (f : ReleaseGrab → ReleaseGrab) : Filing Unit := fun grab => return (f grab, .ok ())

def ask (script : Script α) : Filing α := fun grab => do return (grab, .ok (← script))

def attempt (script : Script (Except String α)) : Filing α := fun grab => do
  return (grab, ← script)

/-- `save(grab)` -/
def save : Filing Unit := fun grab => do
  Ask.save grab
  return (grab, .ok ())

end Filing

end MediaCenterSync.Releases
