import MediaCenterSync.Lib.Table
import MediaCenterSync.Releases.Filing

/-!
# Following what was grabbed

A pass asks the client where every live row has got to, and acts on each in turn (`turn`): it chooses
the files of a partial one, writes down its progress, or files it.  Beside it people redirect, pause,
resume, retry and archive rows, each call reading the row and writing it back.

One pass runs at a time; a poll that finds one running does nothing.
-/

namespace MediaCenterSync.Releases

/-! ### Choosing files -/

def GrabPlacement.isFor (one : GrabPlacement) (coverage : ReleaseCoverage) : Bool :=
  one.fileName = none ∧ one.episodeNumber = coverage.episodeNumbers.head? ∧
    (one.seasonNumber = coverage.seasonNumber ∨ coverage.seasonNumber = none)

def DownloadFile.coverage (file : DownloadFile) : ReleaseCoverage :=
  (parseReleaseName (basename file.name)).coverage

/-- The placements once a file was looked at, and the files wanted so far. -/
def chooseFile (chosen : List GrabPlacement × List ℕ) (file : DownloadFile) :
    List GrabPlacement × List ℕ :=
  match chosen.1.findIdx? (·.isFor file.coverage) with
  | none => chosen
  | some i =>
    (chosen.1.modify i fun one => { one with fileName := some file.name, bytes := some file.size },
      chosen.2 ++ [file.index])

/-- A partial grab whose files have not been chosen. -/
def awaitsChoice (grab : ReleaseGrab) : Bool :=
  grab.isPartial && grab.placements.all (·.fileName.isNone)

/-- What is done once the files were matched: the client is told which to fetch, and let run. -/
def fetch (grab : ReleaseGrab) (clientId : String) (placements : List GrabPlacement)
    (wanted : List ℕ) : Script (Except String Unit) := do
  if wanted = [] then
    settle grab .FAILED (some "none of the wanted episodes are in this release")
    return .ok ()
  else
    match ← Ask.selectFiles clientId wanted with
    | .error reason => return .error reason
    | .ok () =>
      match ← Ask.start clientId with
      | .error reason => return .error reason
      | .ok () =>
        Ask.save { grab with placements := placements, state := .DOWNLOADING }
        return .ok ()

/-- `_choose`: chooses the files to fetch, once there is a list of them. -/
def choose (grab : ReleaseGrab) (clientId : String) : Script (Except String Unit) := do
  match ← Ask.files clientId with
  | .error reason => return .error reason
  | .ok files =>
    if files = [] then return .ok ()
    else
      let chosen := files.foldl chooseFile (grab.placements, [])
      fetch grab clientId chosen.1 chosen.2

/-! ### A pass -/

def statusOf (statuses : List DownloadStatus) (clientId : String) : Option DownloadStatus :=
  statuses.reverse.find? (·.clientId = clientId)

/-- The row with the bytes the client counts. -/
def ReleaseGrab.counted (grab : ReleaseGrab) (status : DownloadStatus) : ReleaseGrab :=
  { grab with
    bytesDone := status.bytesDone
    bytesTotal := if status.bytesTotal = 0 then grab.bytesTotal else status.bytesTotal }

/-- The row of a download on its way. -/
def ReleaseGrab.reported (grab : ReleaseGrab) (status : DownloadStatus) : ReleaseGrab :=
  { grab.counted status with state := if status.paused then .PAUSED else .DOWNLOADING }

def ReleaseGrab.fetched (grab : ReleaseGrab) (status : DownloadStatus)
    (client : DownloadClientSettings) : ReleaseGrab :=
  { grab.counted status with state := .FETCHED, sourcePath := some (localise status client) }

/-- What is done with a row the client has answered about. -/
def follow (client : DownloadClientSettings) (grab : ReleaseGrab) (clientId : String)
    (status : DownloadStatus) : Script (Except String Unit) := do
  -- Until the files are chosen nothing is downloading, so this comes first.
  if grab.state = .SENT ∧ awaitsChoice grab then choose grab clientId
  else if status.failed then
    settle grab .FAILED
      (some (status.failedReason.getD ("the download client reports " ++ status.state)))
    return .ok ()
  else if !status.complete then
    Ask.save (grab.reported status)
    return .ok ()
  else
    Ask.save (grab.fetched status client)
    place client (grab.fetched status client)
    return .ok ()

/-- What is done with a row the client does not know.  One just sent has not necessarily appeared in
its list. -/
def missed (grab : ReleaseGrab) : Script (Except String Unit) := do
  if grab.state = .DOWNLOADING then
    settle grab .CANCELLED none
    return .ok ()
  else return .ok ()

def turn (client : DownloadClientSettings) (statuses : List DownloadStatus) (grab : ReleaseGrab) :
    Script (Except String Unit) :=
  match grab.clientId with
  | none => missed grab
  | some clientId =>
    match statusOf statuses clientId with
    | none => missed grab
    | some status => follow client grab clientId status

/-- The turns of the rows that are left; what is thrown in one ends the pass. -/
def turns (client : DownloadClientSettings) (statuses : List DownloadStatus) :
    List ReleaseGrab → Script (Except String Unit)
  | [] => return .ok ()
  | grab :: rest => do
    match ← turn client statuses grab with
    | .ok () => turns client statuses rest
    | .error reason => return .error reason

def LIVE_STATES : List GrabState := [.SENT, .DOWNLOADING, .PAUSED, .FETCHED]

def pass : Script (Except String Unit) := do
  let live ← Ask.findLive
  if live = [] then return .ok ()
  else
    match ← Ask.downloadClient with
    | none => return .ok ()
    | some client =>
      let tracked := live.filterMap (·.clientId)
      if tracked = [] then return .ok ()
      else
        match ← Ask.statuses tracked with
        | .error reason => return .error reason
        | .ok statuses => turns client statuses live

/-! ### What people do with a row -/

inductive ErrorKey where
  | GRAB_NOT_FOUND
  | TRANSFER_NOT_RESUMABLE
  | GRAB_NOT_RETRYABLE
  | DOWNLOAD_CLIENT_NOT_CONFIGURED

/-- What a request is answered with when it fails. -/
inductive Refusal where
  | refused (key : ErrorKey) (detail : Option String)
  /-- The client refused. -/
  | thrown (reason : String)

def setDestination (id : String) (libraryId : Option String) (folder : Option Placement.Folder) :
    Script (Except Refusal ReleaseGrab) := do
  match ← Ask.findOne id with
  | none => return .error (.refused .GRAB_NOT_FOUND none)
  | some grab =>
    if grab.state = .PLACED then return .error (.refused .TRANSFER_NOT_RESUMABLE none)
    else
      let grab := { grab with targetLibraryId := libraryId, targetFolder := folder }
      Ask.save grab
      return .ok grab

def retry (id : String) : Script (Except Refusal ReleaseGrab) := do
  match ← Ask.findOne id with
  | none => return .error (.refused .GRAB_NOT_FOUND none)
  | some grab =>
    if grab.state ≠ .FAILED ∧ grab.state ≠ .CANCELLED then
      return .error (.refused .GRAB_NOT_RETRYABLE none)
    else if grab.clientId = none then
      return .error (.refused .GRAB_NOT_RETRYABLE
        (some "the download client never took this one, so there is nothing to resume"))
    else
      let grab := { grab with state := .DOWNLOADING, error := none }
      Ask.save grab
      return .ok grab

def LIVE_GRAB_STATES : List GrabState := [.SENT, .DOWNLOADING, .PAUSED]

def suspend (id : String) (paused : Bool) : Script (Except Refusal ReleaseGrab) := do
  match ← Ask.findOne id with
  | none => return .error (.refused .GRAB_NOT_FOUND none)
  | some grab =>
    match grab.clientId with
    | none => return .error (.refused .GRAB_NOT_RETRYABLE none)
    | some clientId =>
      if grab.state ∉ LIVE_GRAB_STATES then return .error (.refused .GRAB_NOT_RETRYABLE none)
      else
        match ← Ask.downloadClient with
        | none => return .error (.refused .DOWNLOAD_CLIENT_NOT_CONFIGURED none)
        | some _ =>
          match ← if paused then Ask.pause clientId else Ask.start clientId with
          | .error reason => return .error (.thrown reason)
          | .ok () =>
            let grab :=
              { grab with state := if paused then .PAUSED else .DOWNLOADING, error := none }
            Ask.save grab
            return .ok grab

def pause (id : String) : Script (Except Refusal ReleaseGrab) := suspend id true

def resume (id : String) : Script (Except Refusal ReleaseGrab) := suspend id false

def archive (id : String) : Script (Except Refusal Unit) := do
  match ← Ask.findOne id with
  | none => return .error (.refused .GRAB_NOT_FOUND none)
  | some grab =>
    Ask.delete grab.id
    return .ok ()

end MediaCenterSync.Releases

/-!
## What was wanted of a release

Passes, pauses, resumes and retries over the rows, one request after the other, and what the client
was told of a torrent and which files were filed for a row meanwhile.  `told` is what happened so
far, oldest first; nothing reads it.
-/

namespace MediaCenterSync.Releases

open TransferManager (Dir)

inductive Told where
  | listed (clientId : String) (files : List DownloadFile)
  | selected (clientId : String) (wanted : List ℕ)
  /-- It was told to let the torrent run. -/
  | started (clientId : String)
  /-- A file was copied into the library for a row. -/
  | filed (id : String) (source : Dir)
deriving DecidableEq

structure Queue where
  rows : List ReleaseGrab
  told : List Told

inductive Request where
  | poll
  | pause (id : String)
  | resume (id : String)
  | retry (id : String)

def Request.script : Request → Script Unit
  | .poll => do let _ ← pass
  | .pause id => do let _ ← Releases.pause id
  | .resume id => do let _ ← Releases.resume id
  | .retry id => do let _ ← Releases.retry id

/-- What an operation is, once it was answered. -/
def tellOf : (op : Op) → op.Answer → List Told
  | .files clientId, .ok files => [.listed clientId files]
  | .selectFiles clientId wanted, .ok () => [.selected clientId wanted]
  | .start clientId, _ => [.started clientId]
  | .move id source _, _ => [.filed id source]
  | _, _ => []

namespace Queue

def rowsAfter (q : Queue) : Op → List ReleaseGrab
  | .save grab => Table.save (·.id) q.rows grab
  | .delete id => Table.delete (·.id) q.rows id
  | _ => q.rows

/-- What an operation answers.  What is no row's is the world's to answer. -/
def answer (q : Queue) : (op : Op) → op.Answer → op.Answer
  | .findLive, _ => q.rows.filter (·.state ∈ LIVE_STATES)
  | .findOne id, _ => Table.find (·.id) q.rows id
  | _, world => world

/-- What an operation leaves, when it was answered so. -/
def after (q : Queue) (op : Op) (r : op.Answer) : Queue where
  rows := q.rowsAfter op
  told := q.told ++ tellOf op r

end Queue

/-- The worlds whose answers meet a condition. -/
def World (heeds : Queue → (op : Op) → op.Answer → Prop) (q : Queue) (op : Op) (q' : Queue)
    (r : op.Answer) : Prop :=
  (∃ world, r = q.answer op world) ∧ q' = q.after op r ∧ heeds q op r

/-- Some requests, each carried out or stopped on the way, in worlds that meet a condition. -/
inductive Lives (heeds : Request → Queue → (op : Op) → op.Answer → Prop) : Queue → Queue → Prop
  | nil (q : Queue) : Lives heeds q q
  | snoc {q q' q'' : Queue} (request : Request) : Lives heeds q q' →
      Program.Visits (World (heeds request)) q' request.script q'' → Lives heeds q q''

/-- Every episode a name claims is one of those a grab was taken for. -/
def OnlyClaims (wanted : List GrabPlacement) (name : String) : Prop :=
  ∀ episode ∈ (parseReleaseName name).coverage.episodeNumbers, ∃ one ∈ wanted,
    one.episodeNumber = some episode ∧
      (one.seasonNumber = (parseReleaseName name).coverage.seasonNumber ∨
        (parseReleaseName name).coverage.seasonNumber = none)

instance (wanted : List GrabPlacement) (name : String) : Decidable (OnlyClaims wanted name) :=
  inferInstanceAs (Decidable (∀ episode ∈ _, ∃ one ∈ wanted, _ ∧ _))

def filesFor (wanted : List GrabPlacement) (files : List DownloadFile) : List ℕ :=
  (files.foldl chooseFile (wanted, [])).2

end MediaCenterSync.Releases

/-!
## A pass and the people around it

The pass and the calls people make run beside each other, and each call of the repository is one
step: what is found is a copy, and what is saved is all of it.  The rows are the state they share.
`log` is what happened so far, oldest first; nothing reads it.
-/

namespace MediaCenterSync.Releases

open Threads (Thread)

/-- Where somebody said a grab should land. -/
structure Destination where
  libraryId : Option String
  folder : Option Placement.Folder
deriving DecidableEq

def ReleaseGrab.destination (grab : ReleaseGrab) : Destination where
  libraryId := grab.targetLibraryId
  folder := grab.targetFolder

inductive Event where
  /-- A destination was accepted. -/
  | redirected (id : String) (destination : Destination)
  | paused (id : String)
  | resumed (id : String)
  | archived (id : String)
  | inserted (id : String)
  /-- The client was asked where everything has got to. -/
  | asked
  /-- The placement of a file of a grab resolved its target. -/
  | resolved (id : String) (request : FilingRequest)

structure Shared where
  rows : List ReleaseGrab
  log : List Event

inductive Call where
  | poll
  | setDestination (id : String) (libraryId : Option String) (folder : Option Placement.Folder)
  | pause (id : String)
  | resume (id : String)
  | archive (id : String)

/-- What a call runs.  Nobody waits for what it answers. -/
def Call.script : Call → Script Unit
  | .poll => do let _ ← pass
  | .setDestination id libraryId folder => do let _ ← Releases.setDestination id libraryId folder
  | .pause id => do let _ ← Releases.pause id
  | .resume id => do let _ ← Releases.resume id
  | .archive id => do let _ ← Releases.archive id

/-- A poll that finds a pass running does nothing. -/
def mayStart (threads : List (Thread Op Op.Answer Call)) : Call → Bool
  | .poll => threads.all fun thread =>
    match thread with
    | ⟨.poll, .perform _ _⟩ => false
    | _ => true
  | _ => true

def savedBy (call : Call) (grab : ReleaseGrab) : List Event :=
  match call with
  | .setDestination _ _ _ => [.redirected grab.id grab.destination]
  | .pause _ => [.paused grab.id]
  | .resume _ => [.resumed grab.id]
  | _ => []

/-- What an operation does to the rows and answers.  What is no row's is the world's to answer. -/
def perform (call : Call) (s : Shared) : (op : Op) → op.Answer → Shared × op.Answer
  | .findLive, _ => (s, s.rows.filter (·.state ∈ LIVE_STATES))
  | .findOne id, _ => (s, Table.find (·.id) s.rows id)
  | .save grab, _ =>
    ({ rows := Table.save (·.id) s.rows grab
       log := s.log ++
        ((if (Table.find (·.id) s.rows grab.id).isNone then [.inserted grab.id] else []) ++
          savedBy call grab) }, ())
  | .delete id, _ =>
    ({ rows := Table.delete (·.id) s.rows id, log := s.log ++ [.archived id] }, ())
  | .statuses _, answer => ({ s with log := s.log ++ [.asked] }, answer)
  | .resolve id request, answer => ({ s with log := s.log ++ [.resolved id request] }, answer)
  | _, answer => (s, answer)

/-- A run of the pass and of calls around it. -/
abbrev stepTogether := Threads.step Call.script mayStart perform

end MediaCenterSync.Releases
