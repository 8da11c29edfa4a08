import MediaCenterSync.Planning.Siblings

/-!
# Erasing one copy

`deleteFile` erases the file of a row from a disk the gateway writes to, or refuses.  The path it
erases is worked out by `unlinkTarget` from the path the row's service reports.
-/

namespace MediaCenterSync.MediaManager

open Planning (Catalogue MediaItem MediaService toLocalPath)
open TransferManager (Dir)

inductive MediaServiceMode where
  | LOCAL
  | REMOTE
  | PEER
deriving DecidableEq

def serviceMode (service : MediaService) : MediaServiceMode :=
  if service.peerId.isSome then .PEER
  else if service.filesMounted then .LOCAL
  else .REMOTE

inductive DeleteRefusal where
  | MEDIA_NOT_FOUND
  | MEDIA_HAS_NO_FILE
  | MEDIA_NOT_ON_OUR_DISK

/-- The files the gateway reaches, and those it may not unlink. -/
structure Files where
  present : List Dir
  denied : List Dir

/-- How `unlink` fails. -/
inductive UnlinkError where
  | ENOENT
  | EACCES

inductive DeleteError where
  | refused (refusal : DeleteRefusal)
  | unlink (error : UnlinkError)

namespace Files

variable (files : Files) (path : Dir)

def without : Files := { files with present := files.present.filter (· ≠ path) }

def unlink : Except UnlinkError Files :=
  if files.denied.contains path then .error .EACCES
  else if files.present.contains path then .ok (files.without path)
  else .error .ENOENT

end Files

section

variable (catalogue : Catalogue)

/-- The service of a row, whatever its mode. -/
def findService (id : String) : Option MediaService := catalogue.services.find? (·.id = id)

/-- The path `deleteFile` erases. -/
def unlinkTarget (id : String) : Except DeleteRefusal Dir :=
  match catalogue.find id with
  | none => .error .MEDIA_NOT_FOUND
  | some item =>
    match item.file.bind (·.path) with
    | none => .error .MEDIA_HAS_NO_FILE
    | some reported =>
      if ((findService catalogue item.serviceId).map serviceMode) ≠ some .LOCAL then
        .error .MEDIA_NOT_ON_OUR_DISK
      else
        match (catalogue.findLibrary item.libraryId).bind (toLocalPath · (some reported) none) with
        | none => .error .MEDIA_NOT_ON_OUR_DISK
        | some path => .ok path

/-- **Erases one copy**, and says what it erased.  A file that is gone already is what was asked
for. -/
def deleteFile (files : Files) (id : String) : Except DeleteError Dir × Files :=
  match unlinkTarget catalogue id with
  | .error refusal => (.error (.refused refusal), files)
  | .ok path =>
    match files.unlink path with
    | .ok rest => (.ok path, rest)
    | .error .ENOENT => (.ok path, files)
    | .error error => (.error (.unlink error), files)

end

end MediaCenterSync.MediaManager
