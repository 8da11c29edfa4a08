import Mathlib.Data.List.Basic

/-!
# A tree of files and symbolic links

A `FilePath` is an absolute path of a file, as a program writes it: the components of its directory
and its name.  Directories may be reached through symbolic links, so two paths may name one
place: `Mounts.real` gives the physical directory behind the components of one, and
`Mounts.locate` the place a path names.  A `Disk` says what is at each place.  Places are
independent of each other (no hard links), and directories do not change.

Reading a path follows the links at its end, at most `maxLinks` of them; a link holds an absolute
path, or a relative one, which the system walks from the physical directory the link is in.
`Disk.trail` is the list of the places such a walk passes: changes away from it do not change
where it ends (`final_congr`).
-/

structure FilePath where
  dir : List String
  name : String
deriving DecidableEq, Repr, Inhabited

inductive LinkTarget where
  | absolute (path : FilePath)
  /-- The steps to the directory, `".."` among them, and the name in it. -/
  | relative (steps : List String) (name : String)
deriving DecidableEq, Repr

inductive Entry (β : Type*) where
  | file (content : List β)
  | link (target : LinkTarget)
deriving DecidableEq, Repr

def Entry.isLink {β : Type*} : Entry β → Bool
  | .file _ => false
  | .link _ => true

/-- The directories of a system: where each physically is, and on which device. -/
structure Mounts where
  real : List String → List String
  device : List String → ℕ

namespace Mounts

variable (M : Mounts)

def locate (p : FilePath) : FilePath := ⟨M.real p.dir, p.name⟩

def walk (dir : List String) (steps : List String) : List String :=
  steps.foldl (fun d step => if step = ".." then d.dropLast else M.real (d ++ [step])) dir

/-- The place a link at `place` leads to. -/
def follow (place : FilePath) : LinkTarget → FilePath
  | .absolute p => M.locate p
  | .relative steps name => ⟨M.walk place.dir steps, name⟩

@[simp] theorem locate_name (p : FilePath) : (M.locate p).name = p.name := rfl

@[simp] theorem locate_dir (p : FilePath) : (M.locate p).dir = M.real p.dir := rfl

/-- A system in which no directory is reached through a link. -/
def Plain : Prop := ∀ dir, M.real dir = dir

theorem Plain.walk_down {M : Mounts} (h : M.Plain) (dir steps : List String)
    (hs : ".." ∉ steps) : M.walk dir steps = dir ++ steps := by
  induction steps generalizing dir with
  | nil => simp [walk]
  | cons step steps ih =>
    rw [List.mem_cons, not_or] at hs
    have hne : step ≠ ".." := Ne.symm hs.1
    have := ih (dir ++ [step]) hs.2
    rw [walk, List.foldl_cons, if_neg hne, h]
    rwa [walk, List.append_assoc] at this

theorem walk_up (dir : List String) (k : ℕ) :
    M.walk dir (List.replicate k "..") = dir.take (dir.length - k) := by
  induction k generalizing dir with
  | zero => simp [walk]
  | succ k ih =>
    have := ih dir.dropLast
    rw [walk, List.replicate_succ, List.foldl_cons, if_pos rfl]
    rw [walk] at this
    rw [this, List.length_dropLast, List.dropLast_eq_take, List.take_take]
    congr 1
    omega

theorem walk_append (dir steps steps' : List String) :
    M.walk dir (steps ++ steps') = M.walk (M.walk dir steps) steps' :=
  List.foldl_append

end Mounts

abbrev Disk (β : Type*) := FilePath → Option (Entry β)

/-- How many links a lookup follows before it gives up. -/
def maxLinks : ℕ := 40

namespace Disk

variable {β : Type*} (M : Mounts) (d d' : Disk β)

/-- The place where the links that start at `place` end, if they end within `fuel` places. -/
def final (d : Disk β) : ℕ → FilePath → Option FilePath
  | 0, _ => none
  | fuel + 1, place =>
    match d place with
    | some (.link target) => final d fuel (M.follow place target)
    | _ => some place

/-- The places a lookup that starts at `place` passes. -/
def trail (d : Disk β) : ℕ → FilePath → List FilePath
  | 0, _ => []
  | fuel + 1, place =>
    place :: match d place with
      | some (.link target) => trail d fuel (M.follow place target)
      | _ => []

/-- The place a lookup of `p` ends at. -/
def lookup (p : FilePath) : Option FilePath := final M d (maxLinks + 1) (M.locate p)

/-- The content read at `p`, when a regular file is found there. -/
def read (p : FilePath) : Option (List β) :=
  (lookup M d p).bind fun place =>
    match d place with
    | some (.file content) => some content
    | _ => none

variable {M d d'}

theorem final_of_not_link {place : FilePath} (h : ∀ t, d place ≠ some (.link t)) (fuel : ℕ) :
    final M d (fuel + 1) place = some place := by
  rw [final]
  split
  · rename_i t ht; exact absurd ht (h t)
  · rfl

theorem read_of_file {p : FilePath} {content : List β} (h : d (M.locate p) = some (.file content)) :
    read M d p = some content := by
  rw [read, lookup, final_of_not_link (by simp [h])]
  simp [h]

theorem read_of_link {p : FilePath} {target : LinkTarget} {content : List β}
    (h : d (M.locate p) = some (.link target))
    (ht : d (M.follow (M.locate p) target) = some (.file content)) :
    read M d p = some content := by
  have hfinal : lookup M d p = some (M.follow (M.locate p) target) := by
    rw [lookup, final, h]
    exact final_of_not_link (by simp [ht]) _
  rw [read, hfinal]
  simp [ht]

theorem read_of_absent {p : FilePath} (h : d (M.locate p) = none) : read M d p = none := by
  rw [read, lookup, final_of_not_link (by simp [h])]
  simp [h]

theorem mem_trail_of_final {fuel : ℕ} {place last : FilePath}
    (h : final M d fuel place = some last) :
    last ∈ trail M d fuel place := by
  induction fuel generalizing place with
  | zero => simp [final] at h
  | succ fuel ih =>
    rw [trail]
    rw [final] at h
    split at h
    · rename_i t ht
      exact List.mem_cons_of_mem _ (by simpa [ht] using ih h)
    · cases h
      exact List.mem_cons_self

/-- **Frame rule for lookups**: two disks with the same links along a trail end the lookup at the
same place. -/
theorem final_congr {fuel : ℕ} {place : FilePath}
    (h : ∀ q ∈ trail M d fuel place, ∀ t, d' q = some (.link t) ↔ d q = some (.link t)) :
    final M d' fuel place = final M d fuel place := by
  induction fuel generalizing place with
  | zero => rfl
  | succ fuel ih =>
    have hhere := h place (by simp [trail])
    rw [final, final]
    cases hd : d place with
    | none =>
      have : ∀ t, d' place ≠ some (.link t) := fun t ht => by simpa [hd] using (hhere t).mp ht
      split
      · rename_i t ht; exact absurd ht (this t)
      · rfl
    | some e =>
      cases e with
      | file b =>
        have : ∀ t, d' place ≠ some (.link t) := fun t ht => by simpa [hd] using (hhere t).mp ht
        split
        · rename_i t ht; exact absurd ht (this t)
        · rfl
      | link t =>
        rw [(hhere t).mpr hd]
        exact ih fun q hq => h q (by simp [trail, hd, hq])

theorem entry_of_mem_trail {fuel : ℕ} {place last q : FilePath} {content : List β}
    (h : final M d fuel place = some last) (hlast : d last = some (.file content))
    (hq : q ∈ trail M d fuel place) :
    (∃ t, d q = some (.link t)) ∨ d q = some (.file content) := by
  induction fuel generalizing place with
  | zero => simp [final] at h
  | succ fuel ih =>
    rw [final] at h
    rw [trail] at hq
    split at h
    · rename_i t ht
      rcases List.mem_cons.mp hq with rfl | hq
      · exact .inl ⟨t, ht⟩
      · exact ih h (by simpa [ht] using hq)
    · rename_i hne
      cases h
      rcases List.mem_cons.mp hq with rfl | hq
      · exact .inr hlast
      · split at hq
        · rename_i t ht; exact absurd ht (hne t)
        · cases hq

theorem read_eq_some {p : FilePath} {content : List β} :
    read M d p = some content ↔ ∃ place, lookup M d p = some place ∧
      d place = some (.file content) := by
  rw [read, Option.bind_eq_some_iff]
  refine exists_congr fun place => and_congr_right fun _ => ?_
  split
  · rename_i b hb; simp [hb]
  · rename_i hne; exact ⟨fun h => (nomatch h), fun h => absurd h (hne _)⟩

/-- **Frame rule for reading**: what the trail passes decides what is read. -/
theorem read_congr {p : FilePath} (h : ∀ q ∈ trail M d (maxLinks + 1) (M.locate p), d' q = d q) :
    read M d' p = read M d p := by
  have hfinal : lookup M d' p = lookup M d p := final_congr fun q hq t => by rw [h q hq]
  rw [read, read, hfinal]
  cases hlast : lookup M d p with
  | none => rfl
  | some place =>
    simp only [Option.bind_some]
    rw [h place (mem_trail_of_final hlast)]

abbrev set (d : Disk β) (place : FilePath) (e : Option (Entry β)) : Disk β :=
  Function.update d place e

@[simp]
theorem set_here (place : FilePath) (e : Option (Entry β)) : d.set place e place = e :=
  Function.update_self ..

theorem set_away {place q : FilePath} (h : q ≠ place) (e : Option (Entry β)) :
    d.set place e q = d q :=
  Function.update_of_ne h ..

@[simp]
theorem set_set (place : FilePath) (e e' : Option (Entry β)) :
    (d.set place e).set place e' = d.set place e' :=
  Function.update_idem ..

theorem set_eq_self {place : FilePath} {e : Option (Entry β)} (h : d place = e) :
    d.set place e = d := by
  rw [← h]
  exact Function.update_eq_self ..

/-- A change away from links, of anything but the file found, does not disturb a lookup. -/
theorem read_set {p place : FilePath} {content : List β} {e : Option (Entry β)}
    (h : read M d p = some content) (hlink : ∀ t, d place ≠ some (.link t))
    (hne : d place ≠ some (.file content)) : read M (d.set place e) p = some content := by
  obtain ⟨last, hfinal, hlast⟩ := read_eq_some.mp h
  rw [read_congr, h]
  intro q hq
  refine set_away ?_ e
  rintro rfl
  rcases entry_of_mem_trail hfinal hlast hq with ⟨t, ht⟩ | hfile
  · exact hlink t ht
  · exact hne hfile

end Disk
