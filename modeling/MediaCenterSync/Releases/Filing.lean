import MediaCenterSync.Releases.Grab

/-!
# Filing what was fetched

A download that is complete is copied into the library: every file that was named for an episode
(`placeEach`), or, where none was, every file whose own name says which episode it is (`spreadOf`),
or else the largest file alone.  A row whose media is gone goes where it was planned to
(`placeOrphan`).  A placement that fails leaves the row `FAILED`, with its reason.

Copies are never moves, so a file filed stays with the client too.  Landings, events and logs are
left out, and so is the set of rows being filed: only the one running pass files.
-/

namespace MediaCenterSync.Releases

open Matching (MediaKind)
open Planning (join mappedLocalPath)
open TransferManager (Dir isInside)

/-! ### Paths -/

/-- `resolve(base, name)`, of a text. -/
def resolvePath (base : Dir) (name : String) : Dir :=
  join (if name.toList.head? = some '/' then [] else base)
    ((name.toList.splitOn '/').map String.ofList)

/-- `basename`, of a text. -/
def basename (name : String) : String :=
  (((name.toList.splitOn '/').filter (· ≠ [])).getLast?.map String.ofList).getD ""

def nameOf (path : Dir) : String :=
  path.getLastD ""

/-- Where the client wrote a download, as the gateway reaches it. -/
def localise (status : DownloadStatus) (client : DownloadClientSettings) : Dir :=
  let savePath := status.savePath <|> client.savePath <|>
    client.rootMappings.head?.map (·.remoteRoot)
  let reported := status.contentPath.getD (join (savePath.getD []) [status.name])
  (mappedLocalPath reported client.rootMappings).getD reported

/-- `largestFileUnder`: the first of the largest. -/
def largestFile (files : List DiskFile) : Option DiskFile :=
  files.foldl (fun best file => if best.any (file.size ≤ ·.size) then best else some file) none

/-! ### The files of a download -/

/-- The first of some paths that is inside a root and can be read. -/
def firstReadable (root : Dir) : List Dir → Script (Option Dir)
  | [] => return none
  | candidate :: rest =>
    if isInside candidate root then do
      if ← Ask.readable candidate then return some candidate
      else firstReadable root rest
    else firstReadable root rest

/-- `_fileNamed`: where one of the client's files is on our disk. -/
def fileNamed (fileName : String) (contentPath root : Dir) : Script (Option Dir) :=
  firstReadable root [resolvePath root fileName, resolvePath contentPath fileName]

/-- The declared roots that may hold a download the client's own path does not lead to. -/
def otherRoots (reported : Dir) (client : DownloadClientSettings) : List Dir :=
  (client.rootMappings.map (·.localRoot)).eraseDups.filter
    (join · [nameOf reported] ≠ reported)

/-- The first of some roots that holds a file of this name. -/
def firstHolding (name : String) : List Dir → Script (Option Dir)
  | [] => return none
  | root :: rest =>
    if isInside (join root [name]) root then do
      if ← Ask.readable (join root [name]) then return some (join root [name])
      else firstHolding name rest
    else firstHolding name rest

/-- `_reachable`: the download, wherever this gateway can reach it. -/
def reachable (reported : Dir) (client : DownloadClientSettings) : Script (Option Dir) := do
  if ← Ask.readable reported then return some reported
  else firstHolding (nameOf reported) (otherRoots reported client)

/-- `_unreadable`: why nothing could be filed. -/
def unreadable (path : Dir) : Script String := do
  if ← Ask.readable path then
    return "nothing playable under " ++ Placement.text path ++
      ", which this gateway can read but found no file in"
  else
    return "the download client reports this download at " ++ Placement.text path ++
      ", and this gateway cannot read that path"

/-- The season and the first episode a file's own name says, when it says both. -/
def coordinateOf (file : DiskFile) : Option (ℕ × ℕ) := do
  let coverage := (parseReleaseName (nameOf file.path)).coverage
  let seasonNumber ← coverage.seasonNumber
  let episodeNumber ← coverage.episodeNumbers.head?
  return (seasonNumber, episodeNumber)

/-- The file of each coordinate seen so far, in the order they were first seen: the largest. -/
def keepLargest (best : List ((ℕ × ℕ) × DiskFile)) (file : DiskFile) :
    List ((ℕ × ℕ) × DiskFile) :=
  match coordinateOf file with
  | none => best
  | some key =>
    if best.any (·.1 = key) then
      best.map fun held => if held.1 = key ∧ held.2.size < file.size then (key, file) else held
    else best ++ [(key, file)]

/-- The children of a row that are episodes, or the children of those that are not. -/
def rowsUnder : List MediaItem → Script (List MediaItem)
  | [] => return []
  | child :: rest => do
    let rows ← if child.kind = .EPISODE then pure [child] else Ask.findChildren child.id
    return rows ++ (← rowsUnder rest)

/-- `_episodesUnder`: the episodes beneath a row. -/
def episodesUnder (item : MediaItem) : Script (List MediaItem) := do
  if item.kind = .EPISODE then return [item]
  else
    let rows ← rowsUnder (← Ask.findChildren item.id)
    return rows.filter (·.kind = .EPISODE)

def rowAt (episodes : List MediaItem) (key : ℕ × ℕ) : Option MediaItem :=
  episodes.find? fun row => row.seasonNumber = some key.1 ∧ row.episodeNumber = some key.2

/-- The placement of a file that named its own episode. -/
def spreadPlacement (item : MediaItem) (episodes : List MediaItem)
    (found : (ℕ × ℕ) × DiskFile) : GrabPlacement :=
  let row := rowAt episodes found.1
  { itemId := (row.map (·.id)).getD item.id
    seasonNumber := some found.1.1
    episodeNumber := some found.1.2
    title := (row.map (·.title)).getD (nameOf found.2.path)
    fileName := some (Placement.text found.2.path)
    bytes := some found.2.size
    targetPath := none }

/-- `_spreadOf`: one placement for each episode a pack holds, when nobody named them. -/
def spreadOf (grabId : String) (sourcePath : Dir) (item : MediaItem) :
    Script (List GrabPlacement) := do
  let files ← Ask.filesUnder grabId sourcePath
  if files.length < 2 then return []
  else
    let episodes ← episodesUnder item
    return (files.foldl keepLargest []).map (spreadPlacement item episodes)

/-! ### Filing one file -/

def ReleaseGrab.progressed (grab : ReleaseGrab) (moved : Moved) (base total : ℕ) : ReleaseGrab :=
  match moved.progress with
  | none => grab
  | some (bytesDone, bytesTotal) =>
    { grab with bytesDone := base + bytesDone, bytesTotal := max total (base + bytesTotal) }

/-- Copies a file and counts its bytes. -/
def copy (source destination : Dir) (base total : ℕ) : Filing Unit := fun grab => do
  let moved ← Ask.move grab.id source destination
  return (grab.progressed moved base total, moved.outcome)

/-- Where a file goes: the folder somebody named for this download, or else the one pinned on the
media, and the rule. -/
def targetFor (item : MediaItem) (kind : Nameable → MediaKind) (source : Dir) :
    Filing FilingTarget := do
  let nameable ← Filing.ask (Ask.nameableOf item (nameOf source))
  let grab ← Filing.current
  let folder ← match grab.targetFolder with
    | some folder => pure (some folder)
    | none => Filing.ask (Ask.pinnedFolder item nameable.seasonNumber)
  let target ← Filing.attempt <| Ask.resolve grab.id
    { kind := kind nameable
      item := item
      nameable := nameable
      source := source
      pinnedPath := folder
      preferredLibraryId := grab.targetLibraryId }
  Filing.attempt (Ask.prepare target)
  return target

/-! ### Several files -/

/-- What a loop over the placements leaves: how many it filed, how many bytes, what was missing. -/
structure Filed where
  placed : ℕ
  base : ℕ
  missing : List String

/-- The source of a placement and the episode it is for, where both are there. -/
def filable (placement : GrabPlacement) (sourcePath : Dir) : Script (Option (Dir × MediaItem)) := do
  match placement.fileName with
  | none => return none
  | some fileName =>
    match ← fileNamed fileName sourcePath sourcePath.dropLast with
    | none => return none
    | some source =>
      match ← Ask.findItem placement.itemId with
      | none => return none
      | some episode => return some (source, episode)

/-- The row once a placement was filed. -/
def ReleaseGrab.withPlaced (grab : ReleaseGrab) (index : ℕ) (path : Dir) : ReleaseGrab :=
  { grab with
    placements := grab.placements.modify index fun one => { one with targetPath := some path }
    targetPath := some path }

/-- The placements that are left, from one of them on. -/
def placeFrom (sourcePath : Dir) (total : ℕ) : ℕ → List GrabPlacement → Filed → Filing Filed
  | _, [], filed => return filed
  | index, placement :: rest, filed => do
    match ← Filing.ask (filable placement sourcePath) with
    | none =>
      placeFrom sourcePath total (index + 1) rest
        { filed with missing := filed.missing ++ [placement.title] }
    | some (source, episode) =>
      let target ← targetFor episode (fun _ => episode.kind) source
      copy source target.path filed.base total
      Filing.change (·.withPlaced index target.path)
      -- saved as each one lands
      Filing.save
      let grab ← Filing.current
      placeFrom sourcePath total (index + 1) rest
        { filed with placed := filed.placed + 1, base := grab.bytesDone }

def ReleaseGrab.placedBy (grab : ReleaseGrab) (filed : Filed) : ReleaseGrab :=
  { grab with
    state := .PLACED
    error :=
      if filed.missing = [] then none
      else some ("filed " ++ toString filed.placed ++ " of " ++ toString grab.placements.length ++
        "; nothing found for " ++ ", ".intercalate filed.missing) }

/-- `_placeEach`: one copy for each placement that has a file. -/
def placeEach (sourcePath : Dir) : Filing Unit := do
  let grab ← Filing.current
  let total := (grab.placements.map fun one =>
    if one.fileName = none then 0 else one.bytes.getD 0).sum
  Filing.change ({ · with bytesDone := 0, bytesTotal := total })
  let filed ← placeFrom sourcePath total 0 grab.placements ⟨0, 0, []⟩
  if filed.placed = 0 then
    Filing.throw ("none of the wanted files are under " ++ Placement.text sourcePath)
  else
    Filing.change (·.placedBy filed)
    Filing.save

/-! ### One file -/

/-- The largest file of a download, or the reason there is none. -/
def largestUnder (sourcePath : Dir) : Filing DiskFile := do
  let grab ← Filing.current
  if ← Filing.ask (Ask.readable sourcePath) then
    match largestFile (← Filing.ask (Ask.filesUnder grab.id sourcePath)) with
    | some file => return file
    | none => Filing.throw (← Filing.ask (unreadable sourcePath))
  else Filing.throw (← Filing.ask (unreadable sourcePath))

def ReleaseGrab.copying (grab : ReleaseGrab) (path : Dir) : ReleaseGrab :=
  { grab with bytesDone := 0, bytesTotal := 0, targetPath := some path }

/-- A download of one file, or of files whose names say nothing: the largest is filed. -/
def placeLargest (sourcePath : Dir) (item : MediaItem) : Filing Unit := do
  let file ← largestUnder sourcePath
  let target ← targetFor item (·.kind) file.path
  Filing.change (·.copying target.path)
  copy file.path target.path 0 0
  Filing.change ({ · with state := .PLACED, targetPath := some target.path, error := none })
  Filing.save

/-- `_placeOrphan`: the largest file, where it was planned to go when its media was there. -/
def placeOrphan (sourcePath plannedPath : Dir) : Filing Unit := do
  let file ← largestUnder sourcePath
  let destination := join plannedPath [nameOf file.path]
  Filing.change (·.copying destination)
  copy file.path destination 0 0
  Filing.change ({ · with
    state := .PLACED
    error := some ("the media it was grabbed for is gone; filed at " ++
      Placement.text destination ++ " by the name it arrived with") })
  Filing.save

/-! ### A whole download -/

def placeItem (sourcePath : Dir) (item : MediaItem) : Filing Unit := do
  let grab ← Filing.current
  if grab.placements.any (·.fileName.isSome) then placeEach sourcePath
  else
    let spread ← Filing.ask (spreadOf grab.id sourcePath item)
    if 1 < spread.length then
      Filing.change ({ · with placements := spread })
      Filing.save
      placeEach sourcePath
    else placeLargest sourcePath item

/-- Where the download is read from, which the row remembers if it is not where the client said. -/
def locate (client : DownloadClientSettings) : Filing Dir := do
  let grab ← Filing.current
  match grab.sourcePath with
  | none =>
    Filing.throw "the client did not say where it wrote this download, so there is nothing to copy"
  | some sourcePath =>
    match ← Filing.ask (reachable sourcePath client) with
    | none => return sourcePath
    | some path =>
      if path = sourcePath then return sourcePath
      else
        Filing.change ({ · with sourcePath := some path })
        Filing.save
        return path

def placeGrab (client : DownloadClientSettings) : Filing Unit := do
  let grab ← Filing.current
  let item ← Filing.ask (Ask.findItem grab.itemId)
  let sourcePath ← locate client
  match item with
  | some item => placeItem sourcePath item
  | none =>
    match grab.plannedPath with
    | none =>
      Filing.throw ("the media " ++ grab.itemId ++ " this was grabbed for no longer exists, " ++
        "and no destination was worked out when it was sent")
    | some plannedPath => placeOrphan sourcePath plannedPath

def settle (grab : ReleaseGrab) (state : GrabState) (error : Option String) : Script Unit :=
  Ask.save { grab with state := state, error := error }

/-- `_place`: a download is filed, or it failed and the row says why. -/
def place (client : DownloadClientSettings) (grab : ReleaseGrab) : Script Unit := do
  match ← placeGrab client grab with
  | (_, .ok ()) => return ()
  | (grab, .error reason) => settle grab .FAILED (some reason)

end MediaCenterSync.Releases
