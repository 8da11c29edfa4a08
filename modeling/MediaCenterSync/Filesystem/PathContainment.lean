import MediaCenterSync.Lib.PathWalk

/-!
# Deciding whether a path may be shown

The directory browser shows what is inside the roots it was given.  A requested path is judged by
where it really is: what exists of it is resolved (`resolveDeepest`), what does not is put back
behind that, and the answer is looked for in the roots as they really are (`resolveRoots`).

A path is the list of its names once it was made absolute (`resolvePath`).  As it is written it may
be relative, and go up.
-/

namespace MediaCenterSync.Filesystem

open PathWalk

inductive PathVerdict where
  | INSIDE
  | OUTSIDE
  | MISSING
  | UNREADABLE
deriving DecidableEq

structure ResolvedPath where
  verdict : PathVerdict
  path : Place
  root : Option Place

structure AbsolutePath where
  place : Place
  names : ∀ name ∈ place, Name name

/-- `resolve`, from the working directory. -/
def resolvePath (cwd : AbsolutePath) (written : Target) : AbsolutePath :=
  written.steps.foldl (fun path step =>
    if hstay : step = "" ∨ step = "." then path
    else if hup : step = ".." then
      ⟨path.place.dropLast, fun name hin => path.names name ((List.dropLast_sublist _).subset hin)⟩
    else
      ⟨path.place ++ [step], by
        intro name hin
        rcases List.mem_append.mp hin with hin | hin
        · exact path.names name hin
        · exact List.mem_singleton.mp hin ▸ name_iff.mpr ⟨hstay, hup⟩⟩)
    (if written.absolute then ⟨[], nofun⟩ else cwd)

def isInside (path root : Place) : Bool := root.isPrefixOf path

def MAX_LINKS : ℕ := 40

variable (fs : FileSystem)

def realpath (path : Place) : Except Errno Place := fs.walk MAX_LINKS [] path

/-- `resolveDeepest`: the real path of the deepest ancestor that exists, with the missing tail put
back, and whether there is none. -/
def resolveDeepest (wanted : Place) : List String → List String → Except Errno (Place × Bool)
  | [], missing =>
    match realpath fs [] with
    | .ok real => .ok (real ++ missing, missing.isEmpty)
    -- the filesystem root itself does not exist
    | .error .ENOENT => .ok (wanted, false)
    | .error error => .error error
  | name :: above, missing =>
    match realpath fs (name :: above).reverse with
    | .ok real => .ok (real ++ missing, missing.isEmpty)
    | .error .ENOENT => resolveDeepest wanted above (name :: missing)
    | .error error => .error error

/-- `realRoot`: a root as it really is on disk; one that does not exist keeps its form. -/
def realRoot (absolute : Place) : Place :=
  match realpath fs absolute with
  | .ok real => real
  | .error _ => absolute

def resolveRoots (cwd : AbsolutePath) (roots : List Target) : List Place :=
  roots.map fun root => realRoot fs (resolvePath cwd root).place

/-- `resolveWithinRoots`: where a requested path really is, and whether it is somewhere we agreed to
look. -/
def resolveWithinRoots (cwd : AbsolutePath) (requested : Target) (roots : List Target) :
    ResolvedPath :=
  let allowed := resolveRoots fs cwd roots
  let wanted := (resolvePath cwd requested).place
  match resolveDeepest fs wanted wanted.reverse [] with
  | .error _ =>
    match allowed.find? (isInside wanted) with
    | none => ⟨.OUTSIDE, wanted, none⟩
    | some blocked => ⟨.UNREADABLE, wanted, some blocked⟩
  | .ok (path, found) =>
    match allowed.find? (isInside path) with
    | none => ⟨.OUTSIDE, path, none⟩
    | some root => ⟨if found then .INSIDE else .MISSING, path, some root⟩

end MediaCenterSync.Filesystem
