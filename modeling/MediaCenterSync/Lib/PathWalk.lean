import Mathlib.Data.List.Infix

/-!
# Resolving a path

A file system says what is at each place, a place being the names that lead to it from the root
through directories.  `walk` takes the steps of a path one after another: up, down, or behind a
symbolic link, of which it follows so many and no more.  `trail` are the places it looks at.

What `trail` looks at decides where the walk ends (`walk_congr`).  Taking more steps looks at the
same places first (`trail_append`), and fails as they did (`walk_append_error`).  Where a walk ends
is a place without a link in it (`Real`), and walking its names leads there (`walk_real`).
-/

namespace PathWalk

/-- The names from the root, and what a symbolic link says: steps, `".."` among them, from the root
or from the directory the link is in. -/
abbrev Place := List String

structure Target where
  absolute : Bool
  steps : List String
deriving DecidableEq

inductive Node where
  | file
  | dir
  | link (target : Target)
deriving DecidableEq

/-- What is at each place; the root is a directory, and so is what anything is in. -/
structure FileSystem where
  node : Place → Option Node
  root : node [] = some .dir
  parent : ∀ place name, node (place ++ [name]) ≠ none → node place = some .dir

inductive Errno where
  | ENOENT
  | ENOTDIR
  | ELOOP

def Target.start (target : Target) (dir : Place) : Place := if target.absolute then [] else dir

namespace FileSystem

variable (fs : FileSystem)

/-- The steps of a path from a directory, up to the first link; `follow` goes on behind it. -/
def stepsFrom (follow : Place → List String → Except Errno Place) :
    Place → List String → Except Errno Place
  | dir, [] => .ok dir
  | dir, step :: rest =>
    if step = "" ∨ step = "." then stepsFrom follow dir rest
    else if step = ".." then stepsFrom follow dir.dropLast rest
    else
      match fs.node (dir ++ [step]) with
      | none => .error .ENOENT
      | some .file => if rest = [] then .ok (dir ++ [step]) else .error .ENOTDIR
      | some .dir => stepsFrom follow (dir ++ [step]) rest
      | some (.link target) => follow (target.start dir) (target.steps ++ rest)

/-- The steps of a path from a directory, with so many links to follow. -/
def walk : ℕ → Place → List String → Except Errno Place
  | 0 => fs.stepsFrom fun _ _ => .error .ELOOP
  | links + 1 => fs.stepsFrom (walk links)

/-- The places that are looked at, up to the first link; `follow` gives those behind it. -/
def looksFrom (follow : Place → List String → List Place) : Place → List String → List Place
  | _, [] => []
  | dir, step :: rest =>
    if step = "" ∨ step = "." then looksFrom follow dir rest
    else if step = ".." then looksFrom follow dir.dropLast rest
    else (dir ++ [step]) ::
      match fs.node (dir ++ [step]) with
      | none | some .file => []
      | some .dir => looksFrom follow (dir ++ [step]) rest
      | some (.link target) => follow (target.start dir) (target.steps ++ rest)

/-- The places a walk looks at. -/
def trail : ℕ → Place → List String → List Place
  | 0 => fs.looksFrom fun _ _ => []
  | links + 1 => fs.looksFrom (trail links)

end FileSystem

def Name (step : String) : Prop := step ∉ ["", ".", ".."]

instance (step : String) : Decidable (Name step) := inferInstanceAs (Decidable (¬ _))

theorem name_iff {step : String} : Name step ↔ (¬ (step = "" ∨ step = ".")) ∧ step ≠ ".." := by
  simp [Name, and_assoc]

namespace FileSystem

variable {fs fs' : FileSystem}

/-! ### One step -/

section

variable (links : ℕ) (dir : Place) (step : String) (rest : List String)

@[simp] theorem walk_nil : fs.walk links dir [] = .ok dir := by cases links <;> rfl

@[simp] theorem trail_nil : fs.trail links dir [] = [] := by cases links <;> rfl

theorem walk_stay (h : step = "" ∨ step = ".") :
    fs.walk links dir (step :: rest) = fs.walk links dir rest := by
  cases links <;> exact if_pos h

theorem trail_stay (h : step = "" ∨ step = ".") :
    fs.trail links dir (step :: rest) = fs.trail links dir rest := by
  cases links <;> exact if_pos h

theorem walk_up : fs.walk links dir (".." :: rest) = fs.walk links dir.dropLast rest := by
  cases links <;> rfl

theorem trail_up : fs.trail links dir (".." :: rest) = fs.trail links dir.dropLast rest := by
  cases links <;> rfl

variable {dir step}

theorem walk_none (hname : Name step) (h : fs.node (dir ++ [step]) = none) :
    fs.walk links dir (step :: rest) = .error .ENOENT := by
  obtain ⟨hstay, hup⟩ := name_iff.mp hname
  cases links <;> simp only [walk, stepsFrom, if_neg hstay, if_neg hup, h]

theorem walk_file (hname : Name step) (h : fs.node (dir ++ [step]) = some .file) :
    fs.walk links dir (step :: rest) =
      if rest = [] then .ok (dir ++ [step]) else .error .ENOTDIR := by
  obtain ⟨hstay, hup⟩ := name_iff.mp hname
  cases links <;> simp only [walk, stepsFrom, if_neg hstay, if_neg hup, h]

theorem walk_dir (hname : Name step) (h : fs.node (dir ++ [step]) = some .dir) :
    fs.walk links dir (step :: rest) = fs.walk links (dir ++ [step]) rest := by
  obtain ⟨hstay, hup⟩ := name_iff.mp hname
  cases links <;> simp only [walk, stepsFrom, if_neg hstay, if_neg hup, h]

theorem walk_link {target : Target} (hname : Name step)
    (h : fs.node (dir ++ [step]) = some (.link target)) :
    fs.walk (links + 1) dir (step :: rest) =
      fs.walk links (target.start dir) (target.steps ++ rest) := by
  obtain ⟨hstay, hup⟩ := name_iff.mp hname
  simp only [walk, stepsFrom, if_neg hstay, if_neg hup, h]

theorem walk_link_zero {target : Target} (hname : Name step)
    (h : fs.node (dir ++ [step]) = some (.link target)) :
    fs.walk 0 dir (step :: rest) = .error .ELOOP := by
  obtain ⟨hstay, hup⟩ := name_iff.mp hname
  simp only [walk, stepsFrom, if_neg hstay, if_neg hup, h]

theorem trail_last (hname : Name step)
    (h : fs.node (dir ++ [step]) = none ∨ fs.node (dir ++ [step]) = some .file) :
    fs.trail links dir (step :: rest) = [dir ++ [step]] := by
  obtain ⟨hstay, hup⟩ := name_iff.mp hname
  rcases h with h | h <;> cases links <;>
    simp only [trail, looksFrom, if_neg hstay, if_neg hup, h]

theorem trail_dir (hname : Name step) (h : fs.node (dir ++ [step]) = some .dir) :
    fs.trail links dir (step :: rest) = (dir ++ [step]) :: fs.trail links (dir ++ [step]) rest := by
  obtain ⟨hstay, hup⟩ := name_iff.mp hname
  cases links <;> simp only [trail, looksFrom, if_neg hstay, if_neg hup, h]

theorem trail_link {target : Target} (hname : Name step)
    (h : fs.node (dir ++ [step]) = some (.link target)) :
    fs.trail (links + 1) dir (step :: rest) =
      (dir ++ [step]) :: fs.trail links (target.start dir) (target.steps ++ rest) := by
  obtain ⟨hstay, hup⟩ := name_iff.mp hname
  simp only [trail, looksFrom, if_neg hstay, if_neg hup, h]

theorem trail_link_zero {target : Target} (hname : Name step)
    (h : fs.node (dir ++ [step]) = some (.link target)) :
    fs.trail 0 dir (step :: rest) = [dir ++ [step]] := by
  obtain ⟨hstay, hup⟩ := name_iff.mp hname
  simp only [trail, looksFrom, if_neg hstay, if_neg hup, h]

end

/-- **Induction on a walk**: one case for each way it can take its next step. -/
theorem walk_induction (fs : FileSystem) {P : ℕ → Place → List String → Prop}
    (nil : ∀ links dir, P links dir [])
    (stay : ∀ links dir step rest, step = "" ∨ step = "." → P links dir rest →
      P links dir (step :: rest))
    (up : ∀ links dir rest, P links dir.dropLast rest → P links dir (".." :: rest))
    (absent : ∀ links dir step rest, Name step → fs.node (dir ++ [step]) = none →
      P links dir (step :: rest))
    (file : ∀ links dir step rest, Name step → fs.node (dir ++ [step]) = some .file →
      P links dir (step :: rest))
    (down : ∀ links dir step rest, Name step → fs.node (dir ++ [step]) = some .dir →
      P links (dir ++ [step]) rest → P links dir (step :: rest))
    (link : ∀ links dir step rest target, Name step →
      fs.node (dir ++ [step]) = some (.link target) →
        P links (target.start dir) (target.steps ++ rest) → P (links + 1) dir (step :: rest))
    (loop : ∀ dir step rest target, Name step → fs.node (dir ++ [step]) = some (.link target) →
      P 0 dir (step :: rest))
    (links : ℕ) (dir : Place) (steps : List String) : P links dir steps := by
  induction links generalizing dir steps with
  | zero =>
    induction steps generalizing dir with
    | nil => exact nil 0 dir
    | cons step rest ih =>
      by_cases hstay : step = "" ∨ step = "."
      · exact stay 0 dir step rest hstay (ih dir)
      · by_cases hup : step = ".."
        · exact hup ▸ up 0 dir rest (ih dir.dropLast)
        · have hname := name_iff.mpr ⟨hstay, hup⟩
          match h : fs.node (dir ++ [step]) with
          | none => exact absent 0 dir step rest hname h
          | some .file => exact file 0 dir step rest hname h
          | some .dir => exact down 0 dir step rest hname h (ih _)
          | some (.link target) => exact loop dir step rest target hname h
  | succ links ihlinks =>
    induction steps generalizing dir with
    | nil => exact nil _ dir
    | cons step rest ih =>
      by_cases hstay : step = "" ∨ step = "."
      · exact stay _ dir step rest hstay (ih dir)
      · by_cases hup : step = ".."
        · exact hup ▸ up _ dir rest (ih dir.dropLast)
        · have hname := name_iff.mpr ⟨hstay, hup⟩
          match h : fs.node (dir ++ [step]) with
          | none => exact absent _ dir step rest hname h
          | some .file => exact file _ dir step rest hname h
          | some .dir => exact down _ dir step rest hname h (ih _)
          | some (.link target) => exact link links dir step rest target hname h (ihlinks _ _)

/-- **What is looked at decides**: file systems that have the same there lead to the same place. -/
theorem walk_congr {links : ℕ} {dir : Place} {steps : List String}
    (h : ∀ place ∈ fs.trail links dir steps, fs'.node place = fs.node place) :
    fs'.walk links dir steps = fs.walk links dir steps := by
  induction links, dir, steps using fs.walk_induction with
  | nil links dir => simp
  | stay links dir step rest hstay ih =>
    rw [trail_stay _ _ _ _ hstay] at h
    rw [walk_stay _ _ _ _ hstay, walk_stay _ _ _ _ hstay, ih h]
  | up links dir rest ih =>
    rw [trail_up] at h
    rw [walk_up, walk_up, ih h]
  | absent links dir step rest hname hnode =>
    rw [trail_last _ _ hname (.inl hnode)] at h
    have hhere := h _ (List.mem_singleton_self _)
    rw [walk_none _ _ hname hnode, walk_none _ _ hname (hhere.trans hnode)]
  | file links dir step rest hname hnode =>
    rw [trail_last _ _ hname (.inr hnode)] at h
    have hhere := h _ (List.mem_singleton_self _)
    rw [walk_file _ _ hname hnode, walk_file _ _ hname (hhere.trans hnode)]
  | down links dir step rest hname hnode ih =>
    rw [trail_dir _ _ hname hnode] at h
    have hhere := h _ List.mem_cons_self
    rw [walk_dir _ _ hname hnode, walk_dir _ _ hname (hhere.trans hnode)]
    exact ih fun place hin => h place (List.mem_cons_of_mem _ hin)
  | link links dir step rest target hname hnode ih =>
    rw [trail_link _ _ hname hnode] at h
    have hhere := h _ List.mem_cons_self
    rw [walk_link _ _ hname hnode, walk_link _ _ hname (hhere.trans hnode)]
    exact ih fun place hin => h place (List.mem_cons_of_mem _ hin)
  | loop dir step rest target hname hnode =>
    rw [trail_link_zero _ hname hnode] at h
    have hhere := h _ (List.mem_singleton_self _)
    rw [walk_link_zero _ hname hnode, walk_link_zero _ hname (hhere.trans hnode)]

/-! ### More steps -/

theorem trail_append (links : ℕ) (dir : Place) (steps rest : List String) :
    fs.trail links dir steps <+: fs.trail links dir (steps ++ rest) := by
  induction links, dir, steps using fs.walk_induction with
  | nil links dir => simp
  | stay links dir step tail hstay ih =>
    rw [List.cons_append, trail_stay _ _ _ _ hstay, trail_stay _ _ _ _ hstay]
    exact ih
  | up links dir tail ih =>
    rw [List.cons_append, trail_up, trail_up]
    exact ih
  | absent links dir step tail hname hnode =>
    rw [List.cons_append, trail_last _ _ hname (.inl hnode), trail_last _ _ hname (.inl hnode)]
  | file links dir step tail hname hnode =>
    rw [List.cons_append, trail_last _ _ hname (.inr hnode), trail_last _ _ hname (.inr hnode)]
  | down links dir step tail hname hnode ih =>
    rw [List.cons_append, trail_dir _ _ hname hnode, trail_dir _ _ hname hnode]
    exact (List.prefix_cons_inj _).mpr ih
  | link links dir step tail target hname hnode ih =>
    rw [List.cons_append, trail_link _ _ hname hnode, trail_link _ _ hname hnode]
    rw [List.append_assoc] at ih
    exact (List.prefix_cons_inj _).mpr ih
  | loop dir step tail target hname hnode =>
    rw [List.cons_append, trail_link_zero _ hname hnode, trail_link_zero _ hname hnode]

theorem walk_append_error {links : ℕ} {dir : Place} {steps : List String} {error : Errno}
    (h : fs.walk links dir steps = .error error) (rest : List String) :
    fs.walk links dir (steps ++ rest) = .error error := by
  induction links, dir, steps using fs.walk_induction with
  | nil links dir => simp at h
  | stay links dir step tail hstay ih =>
    rw [walk_stay _ _ _ _ hstay] at h
    rw [List.cons_append, walk_stay _ _ _ _ hstay, ih h]
  | up links dir tail ih =>
    rw [walk_up] at h
    rw [List.cons_append, walk_up, ih h]
  | absent links dir step tail hname hnode =>
    rw [walk_none _ _ hname hnode] at h
    rw [List.cons_append, walk_none _ _ hname hnode, h]
  | file links dir step tail hname hnode =>
    rw [walk_file _ _ hname hnode] at h
    split_ifs at h with htail
    rw [List.cons_append, walk_file _ _ hname hnode, if_neg, h]
    exact fun hnil => htail (List.append_eq_nil_iff.mp hnil).1
  | down links dir step tail hname hnode ih =>
    rw [walk_dir _ _ hname hnode] at h
    rw [List.cons_append, walk_dir _ _ hname hnode, ih h]
  | link links dir step tail target hname hnode ih =>
    rw [walk_link _ _ hname hnode] at h
    rw [List.cons_append, walk_link _ _ hname hnode, ← List.append_assoc, ih h]
  | loop dir step tail target hname hnode =>
    rw [walk_link_zero _ hname hnode] at h
    rw [List.cons_append, walk_link_zero _ hname hnode, h]

/-! ### Places without a link in them -/

theorem dir_of_below {place : Place} {names : List String} (hne : names ≠ [])
    (h : fs.node (place ++ names) ≠ none) : fs.node place = some .dir := by
  induction names using List.reverseRecOn with
  | nil => exact absurd rfl hne
  | append_singleton names name ih =>
    rw [← List.append_assoc] at h
    have hparent := fs.parent _ _ h
    by_cases hnil : names = []
    · rwa [hnil, List.append_nil] at hparent
    · exact ih hnil (by rw [hparent]; exact Option.some_ne_none _)

/-- A place by its names, with a directory or a file at it. -/
structure Real (fs : FileSystem) (place : Place) : Prop where
  names : ∀ name ∈ place, Name name
  node : fs.node place = some .dir ∨ fs.node place = some .file

theorem real_root (fs : FileSystem) : fs.Real [] := ⟨nofun, .inl fs.root⟩

theorem Real.ne_none {place : Place} (h : fs.Real place) : fs.node place ≠ none := by
  rcases h.node with hnode | hnode <;> rw [hnode] <;> exact Option.some_ne_none _

theorem Real.above {place : Place} {names : List String} (h : fs.Real (place ++ names)) :
    fs.Real place := by
  refine ⟨fun name hin => h.names name (List.mem_append_left _ hin), ?_⟩
  by_cases hnil : names = []
  · rw [hnil, List.append_nil] at h
    exact h.node
  · exact .inl (dir_of_below hnil h.ne_none)

theorem Real.name_mem {dir : Place} {step : String} (h : fs.Real dir) (hname : Name step) :
    ∀ name ∈ dir ++ [step], Name name := by
  intro name hin
  rcases List.mem_append.mp hin with hin | hin
  · exact h.names name hin
  · exact List.mem_singleton.mp hin ▸ hname

theorem real_dropLast {dir : Place} (h : fs.Real dir) (hnode : fs.node dir = some .dir) :
    fs.Real dir.dropLast ∧ fs.node dir.dropLast = some .dir := by
  rcases dir.eq_nil_or_concat with rfl | ⟨above, name, rfl⟩
  · exact ⟨h, hnode⟩
  · rw [List.concat_eq_append] at h hnode ⊢
    rw [List.dropLast_concat]
    exact ⟨h.above, fs.parent above name (by rw [hnode]; exact Option.some_ne_none _)⟩

theorem real_start (target : Target) {dir : Place} (h : fs.Real dir)
    (hnode : fs.node dir = some .dir) :
    fs.Real (target.start dir) ∧ fs.node (target.start dir) = some .dir := by
  unfold Target.start
  split_ifs
  · exact ⟨fs.real_root, fs.root⟩
  · exact ⟨h, hnode⟩

theorem real_of_walk {links : ℕ} {dir last : Place} {steps : List String}
    (h : fs.walk links dir steps = .ok last) (hdir : fs.Real dir)
    (hnode : fs.node dir = some .dir) : fs.Real last := by
  induction links, dir, steps using fs.walk_induction with
  | nil links dir =>
    obtain rfl : dir = last := by simpa using h
    exact hdir
  | stay links dir step rest hstay ih =>
    rw [walk_stay _ _ _ _ hstay] at h
    exact ih h hdir hnode
  | up links dir rest ih =>
    rw [walk_up] at h
    obtain ⟨habove, habovedir⟩ := real_dropLast hdir hnode
    exact ih h habove habovedir
  | absent links dir step rest hname hhere =>
    rw [walk_none _ _ hname hhere] at h
    cases h
  | file links dir step rest hname hhere =>
    rw [walk_file _ _ hname hhere] at h
    split_ifs at h with hrest
    cases h
    exact ⟨hdir.name_mem hname, .inr hhere⟩
  | down links dir step rest hname hhere ih =>
    rw [walk_dir _ _ hname hhere] at h
    exact ih h ⟨hdir.name_mem hname, .inl hhere⟩ hhere
  | link links dir step rest target hname hhere ih =>
    rw [walk_link _ _ hname hhere] at h
    obtain ⟨hstart, hstartdir⟩ := real_start target hdir hnode
    exact ih h hstart hstartdir
  | loop dir step rest target hname hhere =>
    rw [walk_link_zero _ hname hhere] at h
    cases h

theorem walk_real (links : ℕ) {dir : Place} {names : List String} (h : fs.Real (dir ++ names)) :
    fs.walk links dir names = .ok (dir ++ names) := by
  induction names generalizing dir with
  | nil => simp
  | cons name rest ih =>
    have hname : Name name := h.names name (by simp)
    rw [List.append_cons] at h
    rcases h.above.node with hnode | hnode
    · rw [walk_dir _ _ hname hnode, ih h, ← List.append_cons dir]
    · rw [walk_file _ _ hname hnode]
      by_cases hrest : rest = []
      · rw [if_pos hrest, hrest]
      · cases hnode.symm.trans (dir_of_below hrest h.ne_none)

theorem walk_down (links : ℕ) {dir : Place} {names : List String} (h : fs.Real (dir ++ names))
    (hnode : fs.node (dir ++ names) = some .dir) (rest : List String) :
    fs.walk links dir (names ++ rest) = fs.walk links (dir ++ names) rest := by
  induction names generalizing dir with
  | nil => simp
  | cons name tail ih =>
    have hname : Name name := h.names name (by simp)
    rw [List.append_cons] at h hnode ⊢
    have hhere : fs.node (dir ++ [name]) = some .dir := by
      by_cases htail : tail = []
      · rwa [htail, List.append_nil] at hnode
      · exact dir_of_below htail h.ne_none
    rw [List.cons_append, walk_dir _ _ hname hhere, ih h hnode]

theorem eq_or_behind {first place : Place} {tail before after : List Place}
    (h : first :: tail = before ++ place :: after) :
    (before = [] ∧ place = first) ∨
      ∃ before', before = first :: before' ∧ tail = before' ++ place :: after := by
  rcases before with _ | ⟨one, before'⟩
  · exact .inl ⟨rfl, (List.cons_eq_cons.mp h).1.symm⟩
  · obtain ⟨rfl, htail⟩ := List.cons_eq_cons.mp h
    exact .inr ⟨before', rfl, htail⟩

/-- Every place that is looked at is looked at from a directory; file systems that have the same at
all places looked at before come to it alike. -/
theorem exists_look {links : ℕ} {dir place : Place} {steps : List String}
    {before after : List Place} (hdir : fs.Real dir) (hnode : fs.node dir = some .dir)
    (h : fs.trail links dir steps = before ++ place :: after) :
    ∃ left origin name rest, place = origin ++ [name] ∧ Name name ∧ fs.Real origin ∧
      fs.node origin = some .dir ∧
        ∀ fs' : FileSystem, (∀ one ∈ before, fs'.node one = fs.node one) →
          fs'.walk links dir steps = fs'.walk left origin (name :: rest) := by
  induction links, dir, steps using fs.walk_induction generalizing before with
  | nil links dir => simp at h
  | stay links dir step rest hstay ih =>
    rw [trail_stay _ _ _ _ hstay] at h
    obtain ⟨left, origin, name, more, hplace, hname, horigin, horigindir, hwalk⟩ := ih hdir hnode h
    refine ⟨left, origin, name, more, hplace, hname, horigin, horigindir, fun fs' hsame => ?_⟩
    rw [walk_stay _ _ _ _ hstay, hwalk fs' hsame]
  -- A step up looks at nothing.
  | up links dir rest ih =>
    rw [trail_up] at h
    obtain ⟨habove, habovedir⟩ := real_dropLast hdir hnode
    obtain ⟨left, origin, name, more, hplace, hname, horigin, horigindir, hwalk⟩ :=
      ih habove habovedir h
    refine ⟨left, origin, name, more, hplace, hname, horigin, horigindir, fun fs' hsame => ?_⟩
    rw [walk_up, hwalk fs' hsame]
  | absent links dir step rest hname hhere =>
    rw [trail_last _ _ hname (.inl hhere)] at h
    rcases eq_or_behind h with ⟨rfl, rfl⟩ | ⟨before', -, htail⟩
    · -- The place is the next one looked at: the walk starts here.
      exact ⟨links, dir, step, rest, rfl, hname, hdir, hnode, fun _ _ => rfl⟩
    · simp at htail
  | file links dir step rest hname hhere =>
    rw [trail_last _ _ hname (.inr hhere)] at h
    rcases eq_or_behind h with ⟨rfl, rfl⟩ | ⟨before', -, htail⟩
    · exact ⟨links, dir, step, rest, rfl, hname, hdir, hnode, fun _ _ => rfl⟩
    · simp at htail
  | down links dir step rest hname hhere ih =>
    rw [trail_dir _ _ hname hhere] at h
    rcases eq_or_behind h with ⟨rfl, rfl⟩ | ⟨before', rfl, htail⟩
    · exact ⟨links, dir, step, rest, rfl, hname, hdir, hnode, fun _ _ => rfl⟩
    · obtain ⟨left, origin, name, more, hplace, hname', horigin, horigindir, hwalk⟩ :=
        ih ⟨hdir.name_mem hname, .inl hhere⟩ hhere htail
      refine ⟨left, origin, name, more, hplace, hname', horigin, horigindir, fun fs' hsame => ?_⟩
      rw [walk_dir _ _ hname ((hsame _ List.mem_cons_self).trans hhere)]
      exact hwalk fs' fun one hin => hsame one (List.mem_cons_of_mem _ hin)
  | link links dir step rest target hname hhere ih =>
    rw [trail_link _ _ hname hhere] at h
    rcases eq_or_behind h with ⟨rfl, rfl⟩ | ⟨before', rfl, htail⟩
    · exact ⟨links + 1, dir, step, rest, rfl, hname, hdir, hnode, fun _ _ => rfl⟩
    · obtain ⟨hstart, hstartdir⟩ := real_start target hdir hnode
      obtain ⟨left, origin, name, more, hplace, hname', horigin, horigindir, hwalk⟩ :=
        ih hstart hstartdir htail
      refine ⟨left, origin, name, more, hplace, hname', horigin, horigindir, fun fs' hsame => ?_⟩
      rw [walk_link _ _ hname ((hsame _ List.mem_cons_self).trans hhere)]
      exact hwalk fs' fun one hin => hsame one (List.mem_cons_of_mem _ hin)
  -- No more links may be followed: this is the last look.
  | loop dir step rest target hname hhere =>
    rw [trail_link_zero _ hname hhere] at h
    rcases eq_or_behind h with ⟨rfl, rfl⟩ | ⟨before', -, htail⟩
    · exact ⟨0, dir, step, rest, rfl, hname, hdir, hnode, fun _ _ => rfl⟩
    · simp at htail

/-! ### Changing a place -/

/-- Where what a walk finds on its way was there, it led to the same place. -/
theorem walk_of_walk {last : Place}
    (hsame : ∀ links dir name rest found, Name name →
      fs'.walk links dir (name :: rest) = .ok last → fs'.node (dir ++ [name]) = some found →
        fs.node (dir ++ [name]) = some found)
    {links : ℕ} {dir : Place} {steps : List String} (h : fs'.walk links dir steps = .ok last) :
    fs.walk links dir steps = .ok last := by
  induction links, dir, steps using fs'.walk_induction with
  | nil links dir => simpa using h
  | stay links dir step rest hstay ih =>
    rw [walk_stay _ _ _ _ hstay] at h ⊢
    exact ih h
  | up links dir rest ih =>
    rw [walk_up] at h ⊢
    exact ih h
  | absent links dir step rest hname hnode =>
    rw [walk_none _ _ hname hnode] at h
    cases h
  | file links dir step rest hname hnode =>
    rw [walk_file _ _ hname (hsame _ _ _ _ _ hname h hnode)]
    rwa [walk_file _ _ hname hnode] at h
  | down links dir step rest hname hnode ih =>
    rw [walk_dir _ _ hname (hsame _ _ _ _ _ hname h hnode)]
    rw [walk_dir _ _ hname hnode] at h
    exact ih h
  | link links dir step rest target hname hnode ih =>
    rw [walk_link _ _ hname (hsame _ _ _ _ _ hname h hnode)]
    rw [walk_link _ _ hname hnode] at h
    exact ih h
  | loop dir step rest target hname hnode =>
    rw [walk_link_zero _ hname hnode] at h
    cases h

open Classical in
/-- Takes the links at some places away. -/
noncomputable def unlinked (fs : FileSystem) (gone : Place → Prop) : FileSystem where
  node place :=
    match fs.node place with
    | some (.link target) => if gone place then none else some (.link target)
    | other => other
  root := by rw [fs.root]
  parent place name h := by
    rw [fs.parent place name fun hnone => h (by rw [hnone])]

section

variable {gone : Place → Prop} {place : Place}

theorem node_unlinked (h : ∀ target, fs.node place = some (.link target) → ¬ gone place) :
    (fs.unlinked gone).node place = fs.node place := by
  simp only [unlinked]
  split
  · next target hlink => rw [if_neg (h target hlink), hlink]
  · rfl

/-- What is there stays there from before, and a link is none of those that went. -/
theorem of_node_unlinked {node : Node} (h : (fs.unlinked gone).node place = some node) :
    fs.node place = some node ∧ ∀ target, node = .link target → ¬ gone place := by
  simp only [unlinked] at h
  split at h
  · next target hlink =>
    split_ifs at h with hgone
    exact ⟨hlink.trans h, fun _ _ => hgone⟩
  · next hother =>
    exact ⟨h, fun target heq => absurd (h.trans (congrArg some heq)) (hother target)⟩

theorem walk_of_walk_unlinked {links : ℕ} {dir last : Place} {steps : List String}
    (h : (fs.unlinked gone).walk links dir steps = .ok last) :
    fs.walk links dir steps = .ok last :=
  walk_of_walk (fun _ _ _ _ _ _ _ hfound => (of_node_unlinked hfound).1) h

end

/-- Puts something else at a place, and nothing below it. -/
def replace (fs : FileSystem) (place : Place) (node : Option Node) (hplace : place ≠ [])
    (hparent : fs.node place.dropLast = some .dir) : FileSystem where
  node one := if place <+: one then if one = place then node else none else fs.node one
  root := by
    rw [if_neg, fs.root]
    exact fun h => hplace (List.prefix_nil.mp h)
  parent one name h := by
    by_cases hbelow : place <+: one ++ [name]
    · rw [if_pos hbelow] at h
      split_ifs at h with heq
      · rw [← heq, List.dropLast_concat] at hparent
        rw [if_neg, hparent]
        intro hbegins
        have hlength := hbegins.length_le
        rw [← heq, List.length_append, List.length_singleton] at hlength
        omega
      · exact absurd rfl h
    · rw [if_neg hbelow] at h
      rw [if_neg, fs.parent one name h]
      exact fun hbegins => hbelow (hbegins.trans (List.prefix_append _ _))

section

variable {place : Place} {node : Option Node} {hplace : place ≠ []}
  {hparent : fs.node place.dropLast = some .dir}

theorem node_replace_self : (fs.replace place node hplace hparent).node place = node := by
  simp [replace]

theorem node_replace_of_not_below {one : Place} (h : ¬ place <+: one) :
    (fs.replace place node hplace hparent).node one = fs.node one :=
  if_neg h

theorem not_below_of_node_replace {one : Place} (hne : one ≠ place)
    (h : (fs.replace place node hplace hparent).node one ≠ none) : ¬ place <+: one := by
  intro hbelow
  apply h
  simp [replace, hbelow, hne]

theorem walk_of_walk_replace
    (hfails : ∀ links dir name rest last, dir ++ [name] = place → Name name →
      (fs.replace place node hplace hparent).walk links dir (name :: rest) ≠ .ok last)
    {links : ℕ} {dir last : Place} {steps : List String}
    (h : (fs.replace place node hplace hparent).walk links dir steps = .ok last) :
    fs.walk links dir steps = .ok last := by
  refine walk_of_walk (fun links dir name rest found hname hok hfound => ?_) h
  have hne : dir ++ [name] ≠ place := fun heq => hfails links dir name rest last heq hname hok
  rwa [node_replace_of_not_below (not_below_of_node_replace hne
    (by rw [hfound]; exact Option.some_ne_none _))] at hfound

end

def selfLink (place : Place) : Node := .link ⟨true, place⟩

/-- A walk that comes to a link to itself, or starts with the steps to it, does not come past it. -/
theorem walk_selfLink {dir : Place} {name : String} (hdir : fs.Real dir)
    (hnode : fs.node dir = some .dir) (hname : Name name)
    (hself : fs.node (dir ++ [name]) = some (selfLink (dir ++ [name]))) (links : ℕ)
    (rest : List String) :
    fs.walk links dir (name :: rest) = .error .ELOOP ∧
      fs.walk links [] (dir ++ [name] ++ rest) = .error .ELOOP := by
  have hdown : ∀ links rest,
      fs.walk links [] (dir ++ [name] ++ rest) = fs.walk links dir (name :: rest) := by
    intro links rest
    rw [List.append_assoc, @walk_down fs links [] dir hdir hnode]
    rfl
  have hloop : ∀ links rest, fs.walk links dir (name :: rest) = .error .ELOOP := by
    intro links
    induction links with
    | zero => exact fun rest => walk_link_zero _ hname hself
    | succ links ih =>
      intro rest
      rw [walk_link _ _ hname hself]
      exact (hdown links rest).trans (ih rest)
  exact ⟨hloop links rest, (hdown links rest).trans (hloop links rest)⟩

theorem real_replace {dir : Place} {name : String} (node : Option Node)
    (hplace : dir ++ [name] ≠ []) (hparent : fs.node (dir ++ [name]).dropLast = some .dir)
    (hdir : fs.Real dir) :
    (fs.replace (dir ++ [name]) node hplace hparent).Real dir ∧
      (fs.replace (dir ++ [name]) node hplace hparent).node dir = some .dir := by
  have hsame : (fs.replace (dir ++ [name]) node hplace hparent).node dir = fs.node dir := by
    refine node_replace_of_not_below fun hbegins => ?_
    have hlength := hbegins.length_le
    rw [List.length_append, List.length_singleton] at hlength
    omega
  rw [List.dropLast_concat] at hparent
  exact ⟨⟨hdir.names, .inl (hsame.trans hparent)⟩, hsame.trans hparent⟩

end FileSystem

end PathWalk
