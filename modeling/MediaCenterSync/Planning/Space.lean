import MediaCenterSync.Lib.OrderedMap
import MediaCenterSync.Placement.Service

/-!
# Does a run fit?

Once a plan is made, what it would write is added up per destination (`targets`), each destination
is asked how much room it has, and a run that a destination cannot take is refused
(`refuseOnSpace`).
-/

namespace MediaCenterSync.Planning

open Matching (MediaKind SyncState)
open OrderedMap (groupBy)
open Placement (Disk PlacementLibrary)
open TransferManager (Dir PlacedBy isInside textLength)

/-! ### Data -/

/-- One file of a plan, and where it would land. -/
structure PlannedItem where
  itemId : String
  localItemId : Option String
  title : String
  kind : MediaKind
  sourceServiceId : String
  sourceServiceName : String
  targetLibraryId : String
  targetLibraryName : String
  targetPath : Dir
  placedBy : PlacedBy
  lot : String
  bytes : ℕ
  contentId : Option String
  state : SyncState
deriving DecidableEq

inductive SpaceVerdict where
  | FITS
  | TIGHT
  | INSUFFICIENT
  | UNKNOWN
deriving DecidableEq

/-- One destination, what it has, and what a run would put in it. -/
structure TargetSpace where
  libraryId : String
  libraryName : String
  localPath : Dir
  freeBytes : Option ℕ
  requiredBytes : ℕ
  remainingBytes : Option ℤ
  reserveBytes : ℕ
  verdict : SpaceVerdict

inductive ErrorKey where
  | SYNC_NOT_ENOUGH_SPACE
  | SYNC_SPACE_NOT_ACKNOWLEDGED

structure SpaceRefusal where
  key : ErrorKey
  targets : List TargetSpace

/-! ### One destination -/

/-- Does it fit, and at what cost? -/
def spaceVerdict (freeBytes : Option ℕ) (requiredBytes reserveBytes : ℕ) : SpaceVerdict :=
  if requiredBytes = 0 then .FITS
  else
    match freeBytes with
    | none => .UNKNOWN
    | some free =>
      if free < requiredBytes then .INSUFFICIENT
      else if free - requiredBytes < reserveBytes then .TIGHT
      else .FITS

def targetSpace (libraryId libraryName : String) (localPath : Dir) (freeBytes : Option ℕ)
    (requiredBytes reserveBytes : ℕ) : TargetSpace where
  libraryId := libraryId
  libraryName := libraryName
  localPath := localPath
  freeBytes := freeBytes
  requiredBytes := requiredBytes
  remainingBytes := freeBytes.map fun free => (free : ℤ) - requiredBytes
  reserveBytes := reserveBytes
  verdict := spaceVerdict freeBytes requiredBytes reserveBytes

/-- A destination that cannot take it. -/
def refusesRun (targets : List TargetSpace) : Bool := targets.any (·.verdict = .INSUFFICIENT)

/-- A destination somebody has to answer for before the run starts. -/
def needsAcknowledgement (targets : List TargetSpace) : Bool :=
  targets.any fun target => target.verdict = .TIGHT ∨ target.verdict = .UNKNOWN

/-- How many directories are asked for before giving up on finding one that exists. -/
def NEAREST_DEPTH : ℕ := 16

/-- The path itself, or the closest directory above it that exists. -/
def nearestExisting (disk : Disk) (path : Dir) : Dir :=
  ((path.inits.reverse.take NEAREST_DEPTH).find? disk.existsAt).getD path

/-- The free bytes `LibraryManager.probe` reports of a path. -/
def probeFreeBytes (disk : Disk) (path : Dir) : Option ℕ :=
  if disk.existsAt path then disk.freeBytes path else none

def holding (libraries : List PlacementLibrary) (path : Dir) : Option PlacementLibrary :=
  let held := libraries.filterMap fun library => library.localPath.map (library, ·)
  (((held.filter (isInside path ·.2)).insertionSort fun left right =>
    textLength right.2 ≤ textLength left.2).head?).map (·.1)

/-! ### All of them -/

/-- What a run would write into one library. -/
structure Group where
  name : String
  path : Dir
  bytes : ℕ

/-- The directory that answers for an item: its library's own, or the one it lands in. -/
def destinationOf (libraries : List PlacementLibrary) (libraryId : String) (targetPath : Dir) :
    Dir :=
  ((libraries.find? (·.id = libraryId)).bind (·.localPath)).getD targetPath.dropLast

/-- One item, added to what goes into its library already.  The last item names the path. -/
def addToGroup (libraries : List PlacementLibrary) (item : PlannedItem) (existing : Option Group) :
    Group where
  name := ((libraries.find? (·.id = item.targetLibraryId)).map (·.name)).getD
    item.targetLibraryName
  path := destinationOf libraries item.targetLibraryId item.targetPath
  bytes := ((existing.map (·.bytes)).getD 0) + item.bytes

def grouped (libraries : List PlacementLibrary) (items : List PlannedItem) :
    List (String × Group) :=
  groupBy (·.targetLibraryId) (addToGroup libraries) items

/-- `_targets`: every destination a plan would write into, with the room left after it. -/
def targets (disk : Disk) (libraries all : List PlacementLibrary) (reserveBytes : ℕ)
    (items : List PlannedItem) : List TargetSpace :=
  (grouped libraries items).map fun (libraryId, group) =>
    let holder := if libraryId = "" then holding all group.path else none
    targetSpace ((holder.map (·.id)).getD libraryId) ((holder.map (·.name)).getD group.name)
      group.path (probeFreeBytes disk (nearestExisting disk group.path)) group.bytes reserveBytes

/-- Stop a run that a destination cannot take. -/
def refuseOnSpace (targets : List TargetSpace) (acknowledged : Bool) : Option SpaceRefusal :=
  if refusesRun targets then some ⟨.SYNC_NOT_ENOUGH_SPACE, targets⟩
  else if !acknowledged && needsAcknowledgement targets then
    some ⟨.SYNC_SPACE_NOT_ACKNOWLEDGED, targets⟩
  else none

end MediaCenterSync.Planning
