import MediaCenterSync.Releases.Manager

/-!
# Filing a finished download, over failures

A download the client has all of is filed by the next pass.  The placement of a file may be refused,
a copy may fail, and the process may stop anywhere; the row may then be retried.  A `Setting` is what
does not change meanwhile, and a `Shelf` is what does: the row, the copies in the library, and the
copies begun.

The files of a download are what `filesOf` reads off the disk by the manager's own looks.  A copy is
one operation: one that fails leaves what it began beside its destination, and a later copy to there
goes on from it.  No link is left where a copy came from.  The placement gives the path it would give
on an empty disk, or refuses it: a grabbed file has one name.
-/

namespace MediaCenterSync.Releases

open Function (update)
open Matching (MediaKind)
open Planning (join)
open TransferManager (Dir)

/-! ### What does not change -/

/-- What holds around a finished download. -/
structure Setting where
  client : DownloadClientSettings
  status : DownloadStatus
  /-- What the disk and the catalogue answer. -/
  look : (op : Op) → op.Answer
  /-- Where the rule puts a file while nothing is there. -/
  wanted : FilingRequest → FilingTarget
  held : Dir → Bool

/-- A file of a download, and where it is to go. -/
structure Wanted where
  source : Dir
  path : Dir
deriving DecidableEq

namespace Setting

variable (W : Setting) (row : ReleaseGrab)

/-- What a script that only looks comes to. -/
def sees {α : Type} (script : Script α) : α := script.eval W.look

def located : Dir :=
  (W.sees (reachable (localise W.status W.client) W.client)).getD (localise W.status W.client)

/-- What the placement of a file is asked with. -/
def requestFor (item : MediaItem) (kind : Nameable → MediaKind) (source : Dir) : FilingRequest :=
  let nameable : Nameable := W.look (.nameableOf item (nameOf source))
  { kind := kind nameable
    item := item
    nameable := nameable
    source := source
    pinnedPath :=
      match row.targetFolder with
      | some folder => some folder
      | none => W.look (.pinnedFolder item nameable.seasonNumber)
    preferredLibraryId := row.targetLibraryId }

def pathFor (item : MediaItem) (kind : Nameable → MediaKind) (source : Dir) : Dir :=
  (W.wanted (W.requestFor row item kind source)).path

def fileFor (placement : GrabPlacement) : Option Wanted :=
  (W.sees (filable placement W.located)).map fun found =>
    ⟨found.1, W.pathFor row found.2 (fun _ => found.2.kind) found.1⟩

def largest : Option DiskFile :=
  let readable : Bool := W.look (.readable W.located)
  if readable then largestFile (W.look (.filesUnder row.id W.located)) else none

def orphaned : Bool :=
  let item : Option MediaItem := W.look (.findItem row.itemId)
  item.isNone

/-- **The files of a download**, in the order they are filed. -/
def filesOf : List Wanted :=
  let item : Option MediaItem := W.look (.findItem row.itemId)
  match item with
  | none =>
    match row.plannedPath, W.largest row with
    | some plannedPath, some file => [⟨file.path, join plannedPath [nameOf file.path]⟩]
    | _, _ => []
  | some item =>
    if row.placements.any (·.fileName.isSome) then row.placements.filterMap (W.fileFor row)
    else
      let spread := W.sees (spreadOf row.id W.located item)
      if 1 < spread.length then spread.filterMap (W.fileFor row)
      else (W.largest row).toList.map fun file => ⟨file.path, W.pathFor row item (·.kind) file.path⟩

end Setting

/-! ### What changes -/

structure Landing where
  source : Dir
  path : Dir
  /-- It has the bytes of its source, all of them and no others. -/
  own : Bool
deriving DecidableEq

structure Shelf where
  row : ReleaseGrab
  landed : List Landing
  /-- The source of the copy that was begun beside a path and not finished. -/
  begun : Dir → Option Dir

namespace Shelf

/-- Nothing landed, and nothing was begun. -/
def start (grab : ReleaseGrab) : Shelf :=
  ⟨grab, [], fun _ => none⟩

def occupied (s : Shelf) (W : Setting) (path : Dir) : Bool :=
  W.held path || s.landed.any (·.path = path)

/-- A copy that lands: it goes on from what was begun there, and replaces what is at its path. -/
def land (s : Shelf) (source path : Dir) : Shelf where
  row := s.row
  landed := s.landed ++ [⟨source, path, s.begun path = none ∨ s.begun path = some source⟩]
  begun := update s.begun path none

def after (s : Shelf) : (op : Op) → op.Answer → Shelf
  | .save grab, _ => { s with row := grab }
  | .move _ source path, moved =>
    match moved.outcome with
    | .ok () => s.land source path
    | .error _ => { s with begun := update s.begun path (some ((s.begun path).getD source)) }
  | _, _ => s

/-- How a placement is answered: a path that something holds is refused. -/
def placed (s : Shelf) (W : Setting) (request : FilingRequest) : Except String FilingTarget :=
  let target := W.wanted request
  if s.occupied W target.path then .error "error.transfer.target_occupied" else .ok target

/-- What an operation may answer.  Only in a flaky world does the client, a placement or a copy
fail. -/
def Answers (W : Setting) (flaky : Bool) (s : Shelf) : (op : Op) → op.Answer → Prop
  | .findLive, (live : List ReleaseGrab) => live = [s.row].filter (·.state ∈ LIVE_STATES)
  | .findOne id, (found : Option ReleaseGrab) => found = [s.row].find? (·.id = id)
  | .downloadClient, (settings : Option DownloadClientSettings) => settings = some W.client
  | .statuses _, statuses =>
    statuses = .ok [W.status] ∨ flaky = true ∧ ∃ reason, statuses = .error reason
  | .resolve _ request, answer =>
    answer = s.placed W request ∨ flaky = true ∧ ∃ reason, answer = .error reason
  | .prepare _, answer => answer = .ok () ∨ flaky = true ∧ ∃ reason, answer = .error reason
  | .move _ _ _, (moved : Moved) =>
    moved.outcome = .ok () ∨ flaky = true ∧ ∃ reason, moved.outcome = .error reason
  | .findItem id, r => r = W.look (.findItem id)
  | .findChildren id, r => r = W.look (.findChildren id)
  | .readable path, r => r = W.look (.readable path)
  | .filesUnder id path, r => r = W.look (.filesUnder id path)
  | .nameableOf item name, r => r = W.look (.nameableOf item name)
  | .pinnedFolder item season, r => r = W.look (.pinnedFolder item season)
  | _, _ => True

end Shelf

/-- What an operation may do in a setting. -/
def Setting.World (W : Setting) (flaky : Bool) (s : Shelf) (op : Op) (s' : Shelf) (r : op.Answer) :
    Prop :=
  s.Answers W flaky op r ∧ s' = s.after op r

/-! ### The life of a finished download -/

/-- A pass, or a retry. -/
inductive Attempt where
  | poll
  | retry (id : String)

def Attempt.script : Attempt → Script Unit
  | .poll => do let _ ← pass
  | .retry id => do let _ ← Releases.retry id

/-- Attempts in a flaky world, each carried out or stopped on the way. -/
inductive Life (W : Setting) : Shelf → Shelf → Prop
  | nil (s : Shelf) : Life W s s
  | snoc {s s' s'' : Shelf} (attempt : Attempt) : Life W s s' →
      Program.Visits (W.World true) s' attempt.script s'' → Life W s s''

def retried (id : String) : Script Unit := do
  let _ ← Releases.retry id
  let _ ← pass

/-- The row is `PLACED`, and every file landed once, with its own bytes. -/
def Shelf.Done (s : Shelf) (files : List Wanted) : Prop :=
  s.row.state = .PLACED ∧ s.landed = files.map fun file => ⟨file.source, file.path, true⟩

/-- Once the cause is gone, a retry files the download to the end. -/
def Recovers (W : Setting) (s : Shelf) (files : List Wanted) : Prop :=
  (∃ s' a, Program.Exec (W.World false) s (retried s.row.id) s' a) ∧
    ∀ s' a, Program.Exec (W.World false) s (retried s.row.id) s' a → s'.Done files

end MediaCenterSync.Releases
