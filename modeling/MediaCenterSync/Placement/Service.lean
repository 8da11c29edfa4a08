import MediaCenterSync.Matching.Service
import MediaCenterSync.TransferManager.Destination

/-!
# Deciding where a pulled file lands

`candidates` lists the destinations worth probing, in the order of the rule; `resolve` takes the
first whose directory can be written into and has room, and gives the file the first name in it
that nothing holds (`freePath`).  A destination that was passed over leaves its reason.

A path is the list of its components.  What somebody typed into a setting may be relative
(`Folder`), and then it is no destination.
-/

namespace MediaCenterSync.Placement

open Matching (MediaKind)
open TransferManager (Dir PlacedBy isInside textLength)

/-! ### Data -/

inductive LibraryKind where
  | MOVIES
  | SHOWS
  | MUSIC
  | MIXED
  | OTHER
deriving DecidableEq

inductive PlacementStrategy where
  | BESIDE_EXISTING
  | DEFAULT_LIBRARY
  | FIXED_PATH
deriving DecidableEq

/-- A folder somebody typed. -/
inductive Folder where
  | absolute (dir : Dir)
  | relative (parts : List String)
deriving DecidableEq

/-- A configured destination: a library, or one of its roots. -/
inductive Choice where
  | library (id : String)
  | root (dir : Dir)
deriving DecidableEq

/-- A local library, reduced to what placement decides on. -/
structure PlacementLibrary where
  id : String
  name : String
  kind : LibraryKind
  localPath : Option Dir
  /-- Every directory of this library on our disk. -/
  localRoots : List Dir
  writable : Bool
  isDefaultTarget : Bool
  categoryKey : Option String

structure Settings where
  placement : PlacementStrategy
  fixedPath : Option Folder
  categoryTargets : List (String × Choice)
  defaultTargetLibraryId : Option Choice
  defaultTargetPath : Option Folder

/-- A lot's destination, carried from the item that decided it. -/
structure PlacementPin where
  root : Dir
  libraryId : String
  libraryName : String
  strategy : PlacementStrategy
  fallback : Bool
  placedBy : PlacedBy

structure PlacementRequest where
  kind : MediaKind
  categoryKey : Option String
  settings : Settings
  libraries : List PlacementLibrary
  /-- The path inside the library, given the root that was chosen. -/
  relativeName : Dir → List String
  existingPath : Option Dir
  /-- A folder somebody named for this download. -/
  pinnedPath : Option Folder
  preferredLibraryId : Option String
  preferredBy : PlacedBy
  requiredBytes : ℕ
  /-- The one file this pull may land on. -/
  replacesPath : Option Dir
  /-- Another name for the same file, when the first one is taken. -/
  disambiguate : List String → ℕ → List String
  /-- Paths earlier items of the same run already claimed. -/
  reserved : List Dir
  /-- The destination the rest of this lot already went to. -/
  pinned : Option PlacementPin

structure PlacementTarget where
  libraryId : String
  libraryName : String
  root : Dir
  directory : Dir
  path : Dir
  strategy : PlacementStrategy
  fallback : Bool
  reason : Option String
  placedBy : PlacedBy

structure PlacementAttempt where
  library : PlacementLibrary
  root : Dir
  strategy : PlacementStrategy
  fallback : Bool

inductive ErrorKey where
  | TRANSFER_NO_SPACE
  | LIBRARY_PATH_NOT_WRITABLE
  | TRANSFER_TARGET_OCCUPIED

structure Refusal where
  key : ErrorKey
  detail : List String

structure Disk where
  existsAt : Dir → Bool
  writable : Dir → Bool
  freeBytes : Dir → Option ℕ

/-! ### Paths -/

def text (dir : Dir) : String := "/" ++ "/".intercalate dir

def Choice.text : Choice → String
  | .library id => id
  | .root dir => Placement.text dir

/-- `normalize`, of the components of a relative path. -/
def normalize (parts : List String) : List String :=
  (parts.foldl (fun kept part =>
    if part = "" ∨ part = "." then kept
    else if part = ".." then
      match kept with
      | above :: rest => if above = ".." then part :: kept else rest
      | [] => [part]
    else part :: kept) []).reverse

/-- `split(/[\\/]+/)`, of one component. -/
def splitBackslashes (part : String) : List String :=
  (part.toList.splitOn (Char.ofNat 0x5C)).map String.ofList

/-- Keep a rendered name inside the library. -/
def safeRelative (relativeName : List String) : List String :=
  let cleaned := ((normalize relativeName).flatMap splitBackslashes).filter fun part =>
    part ∉ ["", ".", ".."]
  if cleaned = [] then ["untitled"] else cleaned

/-- `join(root, ...)`, of a rendered name. -/
def inRoot (root : Dir) (relativeName : List String) : Dir := root ++ safeRelative relativeName

/-! ### Candidates -/

/-- The libraries that can be written into, with the directory they are written in. -/
def usable (libraries : List PlacementLibrary) : List (PlacementLibrary × Dir) :=
  libraries.filterMap fun library =>
    if library.writable then library.localPath.map (library, ·) else none

/-- The library and the one of its roots that contains a path, the deepest. -/
def rootHolding (libraries : List PlacementLibrary) (path : Dir) :
    Option (PlacementLibrary × Dir) :=
  let roots := libraries.flatMap fun library =>
    (library.localPath.toList ++ library.localRoots).eraseDups.map (library, ·)
  ((roots.filter (isInside path ·.2)).insertionSort fun left right =>
    textLength right.2 ≤ textLength left.2).head?

def libraryHolding (libraries : List PlacementLibrary) (path : Dir) : Option PlacementLibrary :=
  (rootHolding libraries path).map (·.1)

def syntheticLibrary (path : Dir) : PlacementLibrary where
  id := ""
  name := text path
  kind := .OTHER
  localPath := some path
  localRoots := []
  writable := true
  isDefaultTarget := false
  categoryKey := none

def chosenLibrary (libraries : List PlacementLibrary) : Choice → Option PlacementLibrary
  | .root dir => libraries.find? (dir ∈ ·.localRoots)
  | .library id => libraries.find? (·.id = id)

/-- `_pushConfigured`: a configured destination, or the note saying why not. -/
def configured (libraries : List PlacementLibrary) (choice : Option Choice) (label : String) :
    Option (Except String PlacementAttempt) :=
  choice.map fun choice =>
    match chosenLibrary libraries choice with
    | none => .error (label ++ " no longer exists (" ++ choice.text ++ ")")
    | some library =>
      if !library.writable then .error (label ++ ", " ++ library.name ++ ", is not writable")
      else
        let root := match choice with
          | .root dir => some dir
          | .library _ => library.localPath
        match root with
        | none => .error (label ++ ", " ++ library.name ++ ", has no local path")
        | some root => .ok ⟨library, root, .DEFAULT_LIBRARY, false⟩

def libraryKindFor : MediaKind → LibraryKind
  | .MOVIE => .MOVIES
  | .COLLECTION => .MOVIES
  | _ => .SHOWS

def byPreference (libraries : List (PlacementLibrary × Dir)) (kind : MediaKind)
    (categoryKey : Option String) : List (PlacementLibrary × Dir) :=
  let wanted := libraryKindFor kind
  let ownFirst := fun (band : List (PlacementLibrary × Dir)) =>
    if categoryKey = none then band
    else band.filter (·.1.categoryKey = categoryKey) ++ band.filter (·.1.categoryKey ≠ categoryKey)
  let preferredFirst := fun (band : List (PlacementLibrary × Dir)) =>
    ownFirst (band.filter (·.1.isDefaultTarget)) ++ ownFirst (band.filter (!·.1.isDefaultTarget))
  preferredFirst (libraries.filter (·.1.kind = wanted)) ++
    preferredFirst (libraries.filter (·.1.kind = .MIXED)) ++
      preferredFirst (libraries.filter fun one => one.1.kind ≠ wanted ∧ one.1.kind ≠ .MIXED)

def distinctRoots : List PlacementAttempt → List PlacementAttempt
  | [] => []
  | attempt :: rest => attempt :: (distinctRoots rest).filter (·.root ≠ attempt.root)

/-- The folder somebody named, once its trailing slashes are gone; nothing else is a destination. -/
def namedFolder (folder : Option Folder) : Option Dir :=
  match folder with
  | some (.absolute (part :: parts)) => some (part :: parts)
  | _ => none

/-- A path from the settings. -/
def absoluteFolder (folder : Option Folder) : Option Dir :=
  match folder with
  | some (.absolute dir) => some dir
  | _ => none

/-- What the category of the item is configured to go to. -/
def perCategory (settings : Settings) (categoryKey : Option String) : Option Choice :=
  (categoryKey.filter (· ≠ "")).bind (List.lookup · settings.categoryTargets)

/-- The steps of the rule, for an item that decides for its lot. -/
def unpinnedCandidates (request : PlacementRequest) : List PlacementAttempt × List String :=
  let usable := usable request.libraries
  let libraries := usable.map (·.1)
  let settings := request.settings
  let named := (namedFolder request.pinnedPath).toList.map fun named =>
    ⟨(libraryHolding libraries named).getD (syntheticLibrary named), named, .FIXED_PATH, false⟩
  let existing := (request.existingPath.bind (rootHolding libraries)).toList.map fun host =>
    ⟨host.1, host.2, .BESIDE_EXISTING, false⟩
  let preferred := (usable.find? fun one => some one.1.id = request.preferredLibraryId).toList.map
    fun one => ⟨one.1, one.2, settings.placement, false⟩
  let category := configured request.libraries (perCategory settings request.categoryKey)
    ("the library configured for \"" ++ request.categoryKey.getD "null" ++ "\"")
  let default := configured request.libraries settings.defaultTargetLibraryId
    "the default target library"
  let configured := [category, default].filterMap id
  let fixed :=
    if settings.placement = .FIXED_PATH then
      (absoluteFolder settings.fixedPath).toList.map fun fixed =>
        ⟨((libraryHolding libraries fixed).or libraries.head?).getD (syntheticLibrary fixed), fixed,
          .FIXED_PATH, false⟩
    else []
  let fallback := (absoluteFolder settings.defaultTargetPath).toList.map fun path =>
    ⟨(libraryHolding libraries path).getD (syntheticLibrary path), path, .DEFAULT_LIBRARY, true⟩
  let rest := (byPreference usable request.kind request.categoryKey).map fun one =>
    ⟨one.1, one.2, .DEFAULT_LIBRARY, settings.placement ≠ .DEFAULT_LIBRARY⟩
  (distinctRoots (named ++ existing ++ preferred ++ configured.filterMap Except.toOption ++ fixed ++
      fallback ++ rest),
    configured.filterMap fun
      | .error note => some note
      | .ok _ => none)

/-- The ordered list of things to try, and what was passed over on the way. -/
def candidates (request : PlacementRequest) : List PlacementAttempt × List String :=
  match request.pinned with
  | some pinned =>
    let host := (request.libraries.find? (·.id = pinned.libraryId)).getD
      (syntheticLibrary pinned.root)
    ([⟨{ host with name := pinned.libraryName }, pinned.root, pinned.strategy, pinned.fallback⟩],
      [])
  | none => unpinnedCandidates request

/-! ### Probing -/

structure DirectoryProbe where
  writable : Bool
  freeBytes : Option ℕ
  error : Option String

/-- The directory itself, or the closest above it that exists. -/
def nearestAncestor (disk : Disk) (directory : Dir) : Option Dir :=
  directory.inits.reverse.find? disk.existsAt

/-- A margin on top of the file: 64 MiB, or a hundredth of the file; both sides in hundredths. -/
def lacksRoom (freeBytes requiredBytes : ℕ) : Bool :=
  100 * freeBytes < 100 * requiredBytes + max (100 * (64 * 1024 * 1024)) requiredBytes

/-- Is this directory usable, and is there room? -/
def probe (disk : Disk) (directory : Dir) (requiredBytes : ℕ) : DirectoryProbe :=
  match nearestAncestor disk directory with
  | none => ⟨false, none, some "no existing ancestor"⟩
  | some current =>
    if !disk.writable current then ⟨false, none, some (text current ++ " is not writable")⟩
    else if requiredBytes = 0 then ⟨true, none, none⟩
    else
      match disk.freeBytes current with
      -- unknown free space is no reason to refuse a target that can be written
      | none => ⟨true, none, none⟩
      | some freeBytes =>
        if lacksRoom freeBytes requiredBytes then
          ⟨false, some freeBytes, some ("not enough space (" ++ toString freeBytes ++ " free, " ++
            toString requiredBytes ++ " needed)")⟩
        else ⟨true, some freeBytes, none⟩

/-! ### The name -/

/-- How many alternative names are tried before a transfer is refused. -/
def MAX_NAME_ATTEMPTS : ℕ := 50

def occupied (disk : Disk) (reserved : List Dir) (replaces : Option Dir) (path : Dir) : Bool :=
  if some path = replaces then false
  else if path ∈ reserved then true
  else disk.existsAt path

/-- The paths a file may be given after the one it wants, in the order they are tried. -/
def alternatives (request : PlacementRequest) (root : Dir) (relativeName : List String) :
    List Dir :=
  ((List.range MAX_NAME_ATTEMPTS).map fun attempt =>
    inRoot root (request.disambiguate relativeName (attempt + 1))).filter
      (· ≠ inRoot root relativeName)

/-- The first path in this library nothing already holds, and whether it had to be renamed. -/
def freePath (disk : Disk) (request : PlacementRequest) (root : Dir) (relativeName : List String) :
    Except Refusal (Dir × Option String) :=
  let occupied := occupied disk request.reserved request.replacesPath
  let wanted := inRoot root relativeName
  if !occupied wanted then .ok (wanted, none)
  else
    match (alternatives request root relativeName).find? (!occupied ·) with
    | some candidate =>
      .ok (candidate, some (wanted.getLastD "" ++ " is taken, landing as " ++
        candidate.getLastD ""))
    | none => .error ⟨.TRANSFER_TARGET_OCCUPIED, [text wanted]⟩

/-! ### The answer -/

/-- `placedByFor`: which step of the rule is answerable for a destination. -/
def placedByFor (request : PlacementRequest) (libraryId : String) (path : Dir)
    (strategy : PlacementStrategy) : PlacedBy :=
  let chosen : Option Choice → Bool := (· = some (.library libraryId))
  if strategy = .BESIDE_EXISTING then .EXISTING_COPY
  else if request.preferredLibraryId ≠ some "" ∧ request.preferredLibraryId = some libraryId then
    request.preferredBy
  else if strategy = .FIXED_PATH then .FIXED_PATH
  else if chosen (perCategory request.settings request.categoryKey) then .CATEGORY
  else if chosen request.settings.defaultTargetLibraryId then .DEFAULT_LIBRARY
  else if (absoluteFolder request.settings.defaultTargetPath).any (isInside path ·) then
    .FALLBACK_PATH
  else .ANY_WRITABLE

/-- The destination a candidate makes, at the path that was free in it. -/
def targetOf (request : PlacementRequest) (skipped rejected : List String)
    (attempt : PlacementAttempt) (free : Dir × Option String) : PlacementTarget :=
  let notes := rejected ++ free.2.toList
  { libraryId := attempt.library.id
    libraryName := attempt.library.name
    root := attempt.root
    directory := (inRoot attempt.root (request.relativeName attempt.root)).dropLast
    path := free.1
    strategy := attempt.strategy
    fallback :=
      match request.pinned with
      | some pinned => pinned.fallback
      | none =>
        if attempt.strategy = .FIXED_PATH ∧ request.pinnedPath.isSome then false
        else skipped ≠ [] || attempt.fallback || attempt.strategy ≠ request.settings.placement
    reason := if notes = [] then none else some ("; ".intercalate notes)
    placedBy :=
      match request.pinned with
      | some pinned => pinned.placedBy
      | none => placedByFor request attempt.library.id free.1 attempt.strategy }

/-- Nothing left to try: freeing space, or fixing a path. -/
def nothingLeft (rejected : List String) : Refusal where
  key :=
    if rejected.any ("space".toList <:+: ·.toList) then .TRANSFER_NO_SPACE
    else .LIBRARY_PATH_NOT_WRITABLE
  detail := if rejected = [] then ["no local library is writable"] else rejected

def probeAttempt (disk : Disk) (request : PlacementRequest) (attempt : PlacementAttempt) :
    DirectoryProbe :=
  probe disk (inRoot attempt.root (request.relativeName attempt.root)).dropLast
    request.requiredBytes

/-- The first candidate that can take the file, with the notes of those before it. -/
def resolveFrom (disk : Disk) (request : PlacementRequest) (skipped : List String) :
    List PlacementAttempt → List String → Except Refusal PlacementTarget
  | [], rejected => .error (nothingLeft rejected)
  | attempt :: rest, rejected =>
    let probe := probeAttempt disk request attempt
    if probe.writable then
      match freePath disk request attempt.root (request.relativeName attempt.root) with
      | .ok free => .ok (targetOf request skipped rejected attempt free)
      | .error refusal => .error refusal
    else
      resolveFrom disk request skipped rest
        (rejected ++ [attempt.library.name ++ ": " ++ probe.error.getD "not writable"])

/-- **Where a file lands.** -/
def resolve (disk : Disk) (request : PlacementRequest) : Except Refusal PlacementTarget :=
  let (attempts, skipped) := candidates request
  resolveFrom disk request skipped attempts skipped

end MediaCenterSync.Placement
