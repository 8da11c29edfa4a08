import MediaCenterSync.Filesystem.PathContainment

/-!
# The browser cannot be used to probe the host

A path is judged by the deepest of its ancestors that resolves (`Judged`).  What is shown is there,
and inside a root as both really are (`exists_of_inside`).  What is written outside the roots is
refused, whatever is there (`outside_of_written`).  What is written inside a root is judged without
a look outside as long as the resolution stays with the roots (`StaysKnown`): a link that leads out
tells what is there, and so does the way to a root that is not there.
-/

namespace MediaCenterSync.Filesystem

open PathWalk

variable {fs fs' : FileSystem} {cwd : AbsolutePath} {requested : Target} {roots : List Target}
  {allowed : List Place} {wanted : Place}

/-! ### Specification -/

/-- At or below one of the roots. -/
def Inside (allowed : List Place) (place : Place) : Prop := ∃ root ∈ allowed, root <+: place

/-- At or below one of the roots, or above one that something is at. -/
def Known (fs : FileSystem) (allowed : List Place) (place : Place) : Prop :=
  ∃ root ∈ allowed, root <+: place ∨ place <+: root ∧ fs.node root ≠ none

/-- No link outside the roots leads back inside: not it, and nothing below it, be it there or
missing. -/
def NoWayBack (fs : FileSystem) (allowed : List Place) : Prop :=
  ∀ place target, fs.node place = some (.link target) → ¬ Inside allowed place →
    ∀ links below missing real, (∀ name ∈ missing, Name name) →
      fs.walk links (target.start place.dropLast) (target.steps ++ below) = .ok real →
        (∀ name rest, missing = name :: rest →
          fs.walk links (target.start place.dropLast) (target.steps ++ (below ++ [name]))
            = .error .ENOENT) →
          ¬ Inside allowed (real ++ missing)

/-- They differ only in what exists outside the resolved roots, of which one that does not exist
keeps the form it is written in. -/
structure SameInside (cwd : AbsolutePath) (roots : List Target) (fs fs' : FileSystem) : Prop where
  allowed : resolveRoots fs' cwd roots = resolveRoots fs cwd roots
  node : ∀ place, Inside (resolveRoots fs cwd roots) place → fs'.node place = fs.node place

/-- The resolution of a path looks at nothing but what is in the roots, and above one that is there:
it follows no link out of them. -/
def StaysKnown (fs : FileSystem) (allowed : List Place) (wanted : Place) : Prop :=
  ∀ place ∈ fs.trail MAX_LINKS [] wanted, Known fs allowed place

/-! ### The deepest ancestor -/

/-- The deepest ancestor of a path that resolves, and the names that are missing. -/
structure Deepest (fs : FileSystem) (wanted above : Place) (missing : List String) (real : Place) :
    Prop where
  split : wanted = above ++ missing
  real : realpath fs above = .ok real
  next : ∀ name rest, missing = name :: rest → realpath fs (above ++ [name]) = .error .ENOENT

theorem realpath_append_error {path : Place} {error : Errno} (h : realpath fs path = .error error)
    (rest : List String) : realpath fs (path ++ rest) = .error error :=
  FileSystem.walk_append_error h rest

theorem realpath_root (fs : FileSystem) : realpath fs [] = .ok [] := FileSystem.walk_nil _ _

/-- What is answered for a path that does not resolve as far as `current`. -/
theorem resolveDeepest_spec (fs : FileSystem) (wanted : Place) (current missing : List String)
    (hnext : ∀ name rest, missing = name :: rest →
      realpath fs (current.reverse ++ [name]) = .error .ENOENT) :
    (∃ above names real, Deepest fs (current.reverse ++ missing) above names real ∧
      resolveDeepest fs wanted current missing = .ok (real ++ names, names.isEmpty)) ∨
    ∃ error, error ≠ .ENOENT ∧ resolveDeepest fs wanted current missing = .error error ∧
      realpath fs (current.reverse ++ missing) = .error error := by
  induction current generalizing missing with
  | nil => exact .inl ⟨[], missing, [], ⟨rfl, realpath_root fs, hnext⟩, by
      rw [resolveDeepest, realpath_root]⟩
  | cons name above ih =>
    rw [resolveDeepest]
    split
    · next real hreal => exact .inl ⟨_, missing, real, ⟨rfl, hreal, hnext⟩, rfl⟩
    · next hnone =>
      rw [List.reverse_cons] at hnone ⊢
      have hmissing := ih (name :: missing) fun _ _ heq => by
        obtain ⟨rfl, -⟩ := List.cons_eq_cons.mp heq
        exact hnone
      rwa [List.append_assoc]
    · next error hother herror =>
      exact .inr ⟨error, hother, rfl, realpath_append_error herror missing⟩

inductive Judged (fs : FileSystem) (allowed : List Place) (wanted : Place) : PathVerdict → Prop
  | unreadable (error : Errno) : error ≠ .ENOENT → realpath fs wanted = .error error →
      Inside allowed wanted → Judged fs allowed wanted .UNREADABLE
  | refused (error : Errno) : error ≠ .ENOENT → realpath fs wanted = .error error →
      ¬ Inside allowed wanted → Judged fs allowed wanted .OUTSIDE
  | outside (above : Place) (missing : List String) (real : Place) :
      Deepest fs wanted above missing real → ¬ Inside allowed (real ++ missing) →
        Judged fs allowed wanted .OUTSIDE
  | inside (real : Place) : realpath fs wanted = .ok real → Inside allowed real →
      Judged fs allowed wanted .INSIDE
  | missing (above : Place) (missing : List String) (real : Place) :
      Deepest fs wanted above missing real → missing ≠ [] → Inside allowed (real ++ missing) →
        Judged fs allowed wanted .MISSING

theorem find_isInside_eq_none {path : Place} :
    allowed.find? (isInside path) = none ↔ ¬ Inside allowed path := by
  simp [Inside, isInside]

theorem inside_of_find {path root : Place} (h : allowed.find? (isInside path) = some root) :
    Inside allowed path := by
  have hinside : isInside path root = true := List.find?_some h
  exact ⟨root, List.mem_of_find?_eq_some h, List.isPrefixOf_iff_prefix.mp hinside⟩

theorem judged (fs : FileSystem) (cwd : AbsolutePath) (requested : Target) (roots : List Target) :
    Judged fs (resolveRoots fs cwd roots) (resolvePath cwd requested).place
      (resolveWithinRoots fs cwd requested roots).verdict := by
  unfold resolveWithinRoots
  dsimp only
  generalize (resolvePath cwd requested).place = wanted
  generalize resolveRoots fs cwd roots = allowed
  rcases resolveDeepest_spec fs wanted wanted.reverse [] nofun with
    ⟨above, missing, real, hdeepest, hok⟩ | ⟨error, hne, herror, hreal⟩
  · rw [List.reverse_reverse, List.append_nil] at hdeepest
    rw [hok]
    dsimp only
    split
    · next hnone => exact .outside above missing real hdeepest (find_isInside_eq_none.mp hnone)
    · next root hfound =>
      have hinside := inside_of_find hfound
      rcases missing with _ | ⟨name, rest⟩
      · rw [List.append_nil] at hinside
        refine .inside real ?_ hinside
        rw [hdeepest.split, List.append_nil]
        exact hdeepest.real
      · exact .missing above _ real hdeepest (List.cons_ne_nil _ _) hinside
  · rw [List.reverse_reverse, List.append_nil] at hreal
    rw [herror]
    dsimp only
    split
    · next hnone => exact .refused error hne hreal (find_isInside_eq_none.mp hnone)
    · next root hfound => exact .unreadable error hne hreal (inside_of_find hfound)

/-! ### What is shown -/

theorem real_of_realpath {path real : Place} (h : realpath fs path = .ok real) : fs.Real real :=
  FileSystem.real_of_walk h fs.real_root fs.root

theorem realpath_real {path : Place} (h : fs.Real path) : realpath fs path = .ok path :=
  FileSystem.walk_real MAX_LINKS h

theorem realRoot_eq {path real : Place} (h : realpath fs path = .ok real) :
    realRoot fs path = real := by
  rw [realRoot, h]

/-- A root that something real is inside of resolves: one that does not keeps its form, and would
be real itself. -/
theorem realpath_of_inside {path real : Place} (hreal : fs.Real real)
    (h : realRoot fs path <+: real) : realpath fs path = .ok (realRoot fs path) := by
  cases hpath : realpath fs path with
  | ok found => rw [realRoot_eq hpath]
  | error error =>
    have hkept : realRoot fs path = path := by rw [realRoot, hpath]
    rw [hkept] at h
    obtain ⟨rest, rfl⟩ := h
    cases hpath.symm.trans (realpath_real hreal.above)

/-- **What is shown** is there, and at or below where a root really is. -/
theorem exists_of_inside (h : (resolveWithinRoots fs cwd requested roots).verdict = .INSIDE) :
    ∃ real, realpath fs (resolvePath cwd requested).place = .ok real ∧
      ∃ root ∈ roots, ∃ realRoot, realpath fs (resolvePath cwd root).place = .ok realRoot ∧
        realRoot <+: real := by
  have hjudged := judged fs cwd requested roots
  rw [h] at hjudged
  cases hjudged with
  | inside real hreal hinside =>
    obtain ⟨allowed, hallowed, hbegins⟩ := hinside
    obtain ⟨root, hroot, rfl⟩ := List.mem_map.mp hallowed
    exact ⟨real, hreal, root, hroot, _, realpath_of_inside (real_of_realpath hreal) hbegins,
      hbegins⟩

/-! ### What is written outside -/

theorem Inside.append {place : Place} (h : Inside allowed place) (rest : List String) :
    Inside allowed (place ++ rest) := by
  obtain ⟨root, hroot, hbegins⟩ := h
  exact ⟨root, hroot, hbegins.trans (List.prefix_append _ _)⟩

theorem outside_of_walk (hback : NoWayBack fs allowed) {links : ℕ} {dir real : Place}
    {names missing : List String} (hnames : ∀ name ∈ names, Name name)
    (hmissing : ∀ name ∈ missing, Name name)
    (hout : ¬ Inside allowed (dir ++ names ++ missing)) (h : fs.walk links dir names = .ok real)
    (hnext : ∀ name rest, missing = name :: rest →
      fs.walk links dir (names ++ [name]) = .error .ENOENT) :
    ¬ Inside allowed (real ++ missing) := by
  induction names generalizing dir with
  | nil =>
    obtain rfl : dir = real := by simpa using h
    rwa [List.append_nil] at hout
  | cons name rest ih =>
    have hname := hnames name List.mem_cons_self
    rw [List.append_cons] at hout
    have hhere : ¬ Inside allowed (dir ++ [name]) := fun hinside =>
      hout ((hinside.append rest).append missing)
    match hnode : fs.node (dir ++ [name]) with
    | none =>
      rw [FileSystem.walk_none _ _ hname hnode] at h
      cases h
    | some .file =>
      rw [FileSystem.walk_file _ _ hname hnode] at h
      split_ifs at h with hrest
      cases h
      rwa [hrest, List.append_nil] at hout
    | some .dir =>
      rw [FileSystem.walk_dir _ _ hname hnode] at h
      refine ih (fun one hin => hnames one (List.mem_cons_of_mem _ hin)) hout h ?_
      intro one tail htail
      have hgone := hnext one tail htail
      rwa [List.cons_append, FileSystem.walk_dir _ _ hname hnode] at hgone
    | some (.link target) =>
      match links with
      | 0 =>
        rw [FileSystem.walk_link_zero _ hname hnode] at h
        cases h
      | links + 1 =>
        rw [FileSystem.walk_link _ _ hname hnode] at h
        refine hback _ target hnode hhere links rest missing real hmissing ?_
          fun one tail htail => ?_
        · rwa [List.dropLast_concat]
        · have hgone := hnext one tail htail
          rw [List.cons_append, FileSystem.walk_link _ _ hname hnode] at hgone
          rwa [List.dropLast_concat]

theorem Deepest.outside (hback : NoWayBack fs allowed) {above real : Place} {missing : List String}
    (hnames : ∀ name ∈ wanted, Name name) (hout : ¬ Inside allowed wanted)
    (h : Deepest fs wanted above missing real) : ¬ Inside allowed (real ++ missing) := by
  obtain ⟨rfl, hfound, hnext⟩ := h
  have habove : ∀ name ∈ above, Name name := fun name hin =>
    hnames name (List.mem_append_left _ hin)
  have hmissing : ∀ name ∈ missing, Name name := fun name hin =>
    hnames name (List.mem_append_right _ hin)
  exact outside_of_walk hback habove hmissing hout hfound hnext

/-- **What is written outside the roots** is refused, whatever is there. -/
theorem outside_of_written (hback : NoWayBack fs (resolveRoots fs cwd roots))
    (hout : ¬ Inside (resolveRoots fs cwd roots) (resolvePath cwd requested).place) :
    (resolveWithinRoots fs cwd requested roots).verdict = .OUTSIDE := by
  have hjudged := judged fs cwd requested roots
  have houtside : ∀ {above real : Place} {missing : List String},
      Deepest fs (resolvePath cwd requested).place above missing real →
        ¬ Inside (resolveRoots fs cwd roots) (real ++ missing) :=
    fun h => h.outside hback (resolvePath cwd requested).names hout
  generalize (resolveWithinRoots fs cwd requested roots).verdict = verdict at hjudged ⊢
  cases hjudged with
  | unreadable error hne herror hinside => exact absurd hinside hout
  | refused error hne herror hkept => rfl
  | outside above missing real hdeepest hkept => rfl
  | inside real hreal hinside =>
    have hdeepest : Deepest fs (resolvePath cwd requested).place
        (resolvePath cwd requested).place [] real := ⟨by rw [List.append_nil], hreal, nofun⟩
    rw [← List.append_nil real] at hinside
    exact absurd hinside (houtside hdeepest)
  | missing above missing real hdeepest hne hinside => exact absurd hinside (houtside hdeepest)

/-! ### What is written inside -/

theorem SameInside.known (h : SameInside cwd roots fs fs') {place : Place}
    (hknown : Known fs (resolveRoots fs cwd roots) place) : fs'.node place = fs.node place := by
  obtain ⟨root, hroot, hbelow | ⟨⟨rest, rfl⟩, hthere⟩⟩ := hknown
  · exact h.node place ⟨root, hroot, hbelow⟩
  · rcases rest with _ | ⟨name, rest⟩
    · exact h.node place ⟨_, hroot, by simp⟩
    · -- what a root that is there is below is a directory, in both
      have hsame := h.node _ ⟨_, hroot, List.prefix_rfl⟩
      rw [FileSystem.dir_of_below (List.cons_ne_nil name rest) hthere,
        FileSystem.dir_of_below (List.cons_ne_nil name rest) (hsame ▸ hthere)]

theorem SameInside.realpath_above (h : SameInside cwd roots fs fs')
    (hstays : StaysKnown fs (resolveRoots fs cwd roots) wanted) {above : Place}
    (habove : above <+: wanted) : realpath fs' above = realpath fs above := by
  refine FileSystem.walk_congr fun place hin => h.known (hstays place ?_)
  obtain ⟨rest, rfl⟩ := habove
  exact (FileSystem.trail_append MAX_LINKS [] above rest).subset hin

theorem resolveDeepest_congr (wanted : Place) {current : List String} (missing : List String)
    (h : ∀ above, above <+: current.reverse → realpath fs' above = realpath fs above) :
    resolveDeepest fs' wanted current missing = resolveDeepest fs wanted current missing := by
  induction current generalizing missing with
  | nil => rw [resolveDeepest, resolveDeepest, realpath_root, realpath_root]
  | cons name above ih =>
    have hrest : ∀ one, one <+: above.reverse → realpath fs' one = realpath fs one := by
      intro one hone
      refine h one (hone.trans ?_)
      rw [List.reverse_cons]
      exact List.prefix_append _ _
    rw [resolveDeepest, resolveDeepest, h _ List.prefix_rfl, ih _ hrest]

/-- **What is written inside the roots** is judged the same, where the resolution stays with
them. -/
theorem same_of_staysKnown (h : SameInside cwd roots fs fs')
    (hstays : StaysKnown fs (resolveRoots fs cwd roots) (resolvePath cwd requested).place) :
    resolveWithinRoots fs' cwd requested roots = resolveWithinRoots fs cwd requested roots := by
  have habove : ∀ above, above <+: (resolvePath cwd requested).place.reverse.reverse →
      realpath fs' above = realpath fs above := by
    intro above habove
    rw [List.reverse_reverse] at habove
    exact h.realpath_above hstays habove
  have hdeepest := resolveDeepest_congr (resolvePath cwd requested).place [] habove
  unfold resolveWithinRoots
  rw [h.allowed]
  dsimp only
  rw [hdeepest]

/-! ### A link that leads out -/

theorem exists_first_unknown {places : List Place}
    (h : ¬ ∀ place ∈ places, Known fs allowed place) :
    ∃ before place after, places = before ++ place :: after ∧ ¬ Known fs allowed place ∧
      ∀ one ∈ before, Known fs allowed one := by
  induction places with
  | nil => exact absurd (fun place hin => absurd hin List.not_mem_nil) h
  | cons first rest ih =>
    by_cases hfirst : Known fs allowed first
    · have hrest : ¬ ∀ place ∈ rest, Known fs allowed place := fun hall => h fun place hin => by
        rcases List.mem_cons.mp hin with rfl | hin
        · exact hfirst
        · exact hall place hin
      obtain ⟨before, place, after, rfl, hunknown, hbefore⟩ := ih hrest
      refine ⟨first :: before, place, after, rfl, hunknown, fun one hin => ?_⟩
      rcases List.mem_cons.mp hin with rfl | hin
      · exact hfirst
      · exact hbefore one hin
    · exact ⟨[], first, rest, rfl, hfirst, nofun⟩

theorem Known.node_eq_none {place one : Place} (h : Known fs allowed one)
    (hplace : ¬ Known fs allowed place) (hbelow : place <+: one) : fs.node one = none := by
  obtain ⟨root, hroot, hbegins | ⟨hbegins, hthere⟩⟩ := h
  · rcases List.prefix_or_prefix_of_prefix hbegins hbelow with hin | habove
    · exact absurd ⟨root, hroot, .inl hin⟩ hplace
    · -- the place is above a root that nothing is at
      have hnone : fs.node root = none := by
        by_contra hthere
        exact hplace ⟨root, hroot, .inr ⟨habove, hthere⟩⟩
      obtain ⟨rest, rfl⟩ := hbegins
      by_contra hsome
      by_cases hrest : rest = []
      · rw [hrest, List.append_nil] at hsome
        exact hsome hnone
      · cases hnone.symm.trans (FileSystem.dir_of_below hrest hsome)
  · exact absurd ⟨root, hroot, .inr ⟨hbelow.trans hbegins, hthere⟩⟩ hplace

theorem Known.inside_of_link {place : Place} {target : Target} (h : Known fs allowed place)
    (hlink : fs.node place = some (.link target)) : Inside allowed place := by
  obtain ⟨root, hroot, hbegins | ⟨⟨rest, rfl⟩, hthere⟩⟩ := h
  · exact ⟨root, hroot, hbegins⟩
  · by_cases hrest : rest = []
    · exact ⟨_, hroot, by simp [hrest]⟩
    · cases hlink.symm.trans (FileSystem.dir_of_below hrest hthere)

/-- The file system without its links outside the roots. -/
private noncomputable def apart (fs : FileSystem) (allowed : List Place) : FileSystem :=
  fs.unlinked fun place => ¬ Inside allowed place

private theorem node_apart {one : Place} (h : Known fs allowed one) :
    (apart fs allowed).node one = fs.node one :=
  FileSystem.node_unlinked fun _ hlink => not_not.mpr (h.inside_of_link hlink)

section

variable {place : Place} {node : Option Node} {hplace : place ≠ []}
  {hparent : (apart fs allowed).node place.dropLast = some .dir}

/-- What is put at a place that is not known changes nothing that is. -/
private theorem node_probe {one : Place} (h : Known fs allowed one)
    (hunknown : ¬ Known fs allowed place) :
    ((apart fs allowed).replace place node hplace hparent).node one = fs.node one := by
  by_cases hbelow : place <+: one
  · have hne : one ≠ place := fun heq => hunknown (heq ▸ h)
    rw [h.node_eq_none hunknown hbelow]
    by_contra hsome
    exact FileSystem.not_below_of_node_replace hne hsome hbelow
  · rw [FileSystem.node_replace_of_not_below hbelow, node_apart h]

/-- Where no walk gets past what is put there, those that get somewhere did before. -/
private theorem realpath_of_probe
    (hfails : ∀ links dir name rest last, dir ++ [name] = place → Name name →
      ((apart fs allowed).replace place node hplace hparent).walk links dir (name :: rest)
        ≠ .ok last) {path real : Place}
    (h : realpath ((apart fs allowed).replace place node hplace hparent) path = .ok real) :
    realpath fs path = .ok real :=
  FileSystem.walk_of_walk_unlinked (FileSystem.walk_of_walk_replace hfails h)

end

section

variable {place : Place} {node : Option Node} {hplace : place ≠ []}
  {hparent : (apart fs (resolveRoots fs cwd roots)).node place.dropLast = some .dir}

/-- It is a change outside the roots, which those that resolve are resolved without a look at. -/
private theorem sameInside_probe
    (hroots : ∀ root ∈ roots, ∀ real, realpath fs (resolvePath cwd root).place = .ok real →
      StaysKnown fs (resolveRoots fs cwd roots) (resolvePath cwd root).place)
    (hunknown : ¬ Known fs (resolveRoots fs cwd roots) place)
    (hfails : ∀ links dir name rest last, dir ++ [name] = place → Name name →
      ((apart fs (resolveRoots fs cwd roots)).replace place node hplace hparent).walk links dir
        (name :: rest) ≠ .ok last) :
    SameInside cwd roots fs
      ((apart fs (resolveRoots fs cwd roots)).replace place node hplace hparent) := by
  refine ⟨List.map_congr_left fun root hroot => ?_, fun one hone => node_probe ?_ hunknown⟩
  · cases hreal : realpath fs (resolvePath cwd root).place with
    | ok real =>
      have hsame : realpath
          ((apart fs (resolveRoots fs cwd roots)).replace place node hplace hparent)
          (resolvePath cwd root).place = realpath fs (resolvePath cwd root).place :=
        FileSystem.walk_congr fun one hin =>
          node_probe (hroots root hroot real hreal one hin) hunknown
      rw [realRoot, realRoot, hsame]
    | error error =>
      -- a root that does not resolve still does not
      rw [realRoot, realRoot, hreal]
      split
      · next real hprobe => cases hreal.symm.trans (realpath_of_probe hfails hprobe)
      · rfl
  · obtain ⟨root, hroot, hbegins⟩ := hone
    exact ⟨root, hroot, .inl hbegins⟩

/-- The only link outside the roots is the one that is put there, which no walk gets past. -/
private theorem noWayBack_probe
    (hself : ∀ target links below last, node = some (.link target) →
      ((apart fs (resolveRoots fs cwd roots)).replace place node hplace hparent).walk links
        (target.start place.dropLast) (target.steps ++ below) ≠ .ok last) :
    NoWayBack ((apart fs (resolveRoots fs cwd roots)).replace place node hplace hparent)
      (resolveRoots fs cwd roots) := by
  intro one target hlink hout links below missing real _ hwalk
  by_cases heq : one = place
  · subst heq
    rw [FileSystem.node_replace_self] at hlink
    exact absurd hwalk (hself target links below real hlink)
  · rw [FileSystem.node_replace_of_not_below (FileSystem.not_below_of_node_replace heq
      (by rw [hlink]; exact Option.some_ne_none _))] at hlink
    exact absurd hout ((FileSystem.of_node_unlinked hlink).2 target rfl)

end

/-- A path that resolves as far as something is there fails, if it does, for want of the rest. -/
theorem Deepest.error_eq {above real : Place} {missing : List String} {error : Errno}
    (h : Deepest fs wanted above missing real) (herror : realpath fs wanted = .error error) :
    error = .ENOENT := by
  obtain ⟨rfl, hreal, hnext⟩ := h
  rcases missing with _ | ⟨name, rest⟩
  · rw [List.append_nil, hreal] at herror
    cases herror
  · rw [List.append_cons, realpath_append_error (hnext name rest rfl)] at herror
    exact (Except.error.inj herror).symm

theorem verdict_eq_unreadable_iff {error : Errno}
    (hinside : Inside (resolveRoots fs cwd roots) (resolvePath cwd requested).place)
    (herror : realpath fs (resolvePath cwd requested).place = .error error) :
    (resolveWithinRoots fs cwd requested roots).verdict = .UNREADABLE ↔ error ≠ .ENOENT := by
  have hjudged := judged fs cwd requested roots
  generalize (resolveWithinRoots fs cwd requested roots).verdict = verdict at hjudged ⊢
  cases hjudged with
  | unreadable error' hne herror' _ =>
    obtain rfl := Except.error.inj (herror.symm.trans herror')
    exact iff_of_true rfl hne
  | refused error' hne herror' hout => exact absurd hinside hout
  | outside above missing real hdeepest _ =>
    exact iff_of_false nofun fun hne => hne (hdeepest.error_eq herror)
  | inside real hreal _ => cases herror.symm.trans hreal
  | missing above missing real hdeepest _ _ =>
    exact iff_of_false nofun fun hne => hne (hdeepest.error_eq herror)

/-- **What is looked at tells what is there**: where the resolution of what is written inside the
roots looks at a place that is not known, what is there decides the verdict. -/
theorem staysKnown_of_same
    (hroots : ∀ root ∈ roots, ∀ real, realpath fs (resolvePath cwd root).place = .ok real →
      StaysKnown fs (resolveRoots fs cwd roots) (resolvePath cwd root).place)
    (hinside : Inside (resolveRoots fs cwd roots) (resolvePath cwd requested).place)
    (hsame : ∀ fs', SameInside cwd roots fs fs' → NoWayBack fs' (resolveRoots fs' cwd roots) →
      (resolveWithinRoots fs' cwd requested roots).verdict =
        (resolveWithinRoots fs cwd requested roots).verdict) :
    StaysKnown fs (resolveRoots fs cwd roots) (resolvePath cwd requested).place := by
  by_contra hleaves
  obtain ⟨before, place, after, htrail, hunknown, hbefore⟩ := exists_first_unknown hleaves
  obtain ⟨left, dir, name, rest, rfl, hname, hdir, hnode, hwalk⟩ :=
    FileSystem.exists_look fs.real_root fs.root htrail
  have hkept : (apart fs (resolveRoots fs cwd roots)).node dir = some .dir := by
    rw [apart, FileSystem.node_unlinked, hnode]
    exact fun target hlink => by cases hlink.symm.trans hnode
  have hreal : (apart fs (resolveRoots fs cwd roots)).Real dir := ⟨hdir.names, .inl hkept⟩
  have hplace : dir ++ [name] ≠ [] := by simp
  have hparent : (apart fs (resolveRoots fs cwd roots)).node (dir ++ [name]).dropLast
      = some .dir := by rwa [List.dropLast_concat]
  -- the verdict says how the resolution fails that comes to what is put there
  have hverdict : ∀ node error,
      (∀ links rest, ((apart fs (resolveRoots fs cwd roots)).replace (dir ++ [name]) node hplace
        hparent).walk links dir (name :: rest) = .error error) →
      (∀ target links below last, node = some (.link target) →
        ((apart fs (resolveRoots fs cwd roots)).replace (dir ++ [name]) node hplace hparent).walk
          links (target.start (dir ++ [name]).dropLast) (target.steps ++ below) ≠ .ok last) →
      ((resolveWithinRoots fs cwd requested roots).verdict = .UNREADABLE ↔ error ≠ .ENOENT) := by
    intro node error hfails hself
    have hpast : ∀ links dir' name' rest last, dir' ++ [name'] = dir ++ [name] → Name name' →
        ((apart fs (resolveRoots fs cwd roots)).replace (dir ++ [name]) node hplace hparent).walk
          links dir' (name' :: rest) ≠ .ok last := by
      intro links dir' name' rest last heq _ hok
      obtain ⟨rfl, hsingle⟩ := List.append_inj' heq rfl
      obtain ⟨rfl, -⟩ := List.cons_eq_cons.mp hsingle
      rw [hfails] at hok
      cases hok
    have hinsame := sameInside_probe hroots hunknown hpast
    rw [← hsame _ hinsame (hinsame.allowed.symm ▸ noWayBack_probe hself)]
    refine verdict_eq_unreadable_iff (hinsame.allowed.symm ▸ hinside) ?_
    rw [realpath, hwalk _ fun one hin => node_probe (hbefore one hin) hunknown]
    exact hfails left rest
  have hgone := hverdict none .ENOENT
    (fun links rest => FileSystem.walk_none links rest hname FileSystem.node_replace_self) nofun
  obtain ⟨hthere, htheredir⟩ := FileSystem.real_replace
    (some (FileSystem.selfLink (dir ++ [name]))) hplace hparent hreal
  have hloop := FileSystem.walk_selfLink hthere htheredir hname FileSystem.node_replace_self
  have hlooped := hverdict _ .ELOOP (fun links rest => (hloop links rest).1)
    fun target links below last htarget hok => by
      obtain rfl := Node.link.inj (Option.some.inj htarget)
      cases (hloop links below).2.symm.trans hok
  exact hgone.mp (hlooped.mpr nofun) rfl

/-- **What is shown is there and inside a root**; and what exists outside the roots has no say in a
verdict where the path is written outside, or its resolution stays with the roots.  Where the roots
that resolve are resolved so too, only there. -/
theorem shown_and_unprobed (fs : FileSystem) (cwd : AbsolutePath) (requested : Target)
    (roots : List Target) :
    ((resolveWithinRoots fs cwd requested roots).verdict = .INSIDE →
      ∃ real, realpath fs (resolvePath cwd requested).place = .ok real ∧
        ∃ root ∈ roots, ∃ realRoot, realpath fs (resolvePath cwd root).place = .ok realRoot ∧
          realRoot <+: real) ∧
    (NoWayBack fs (resolveRoots fs cwd roots) →
      (¬ Inside (resolveRoots fs cwd roots) (resolvePath cwd requested).place ∨
        StaysKnown fs (resolveRoots fs cwd roots) (resolvePath cwd requested).place) →
      ∀ fs', SameInside cwd roots fs fs' → NoWayBack fs' (resolveRoots fs' cwd roots) →
        (resolveWithinRoots fs' cwd requested roots).verdict =
          (resolveWithinRoots fs cwd requested roots).verdict) ∧
    ((∀ root ∈ roots, ∀ real, realpath fs (resolvePath cwd root).place = .ok real →
        StaysKnown fs (resolveRoots fs cwd roots) (resolvePath cwd root).place) →
      (∀ fs', SameInside cwd roots fs fs' → NoWayBack fs' (resolveRoots fs' cwd roots) →
        (resolveWithinRoots fs' cwd requested roots).verdict =
          (resolveWithinRoots fs cwd requested roots).verdict) →
      ¬ Inside (resolveRoots fs cwd roots) (resolvePath cwd requested).place ∨
        StaysKnown fs (resolveRoots fs cwd roots) (resolvePath cwd requested).place) := by
  refine ⟨exists_of_inside, ?_, fun hroots hsame => ?_⟩
  · rintro hback (hout | hstays) fs' hinside hback'
    · rw [outside_of_written hback hout,
        outside_of_written hback' (hinside.allowed.symm ▸ hout)]
    · rw [same_of_staysKnown hinside hstays]
  · by_cases hinside : Inside (resolveRoots fs cwd roots) (resolvePath cwd requested).place
    · exact .inr (staysKnown_of_same hroots hinside hsame)
    · exact .inl hinside

/-! ### A link out of the library -/

private theorem mem_of_lookup {entries : List (Place × Node)} {place : Place} {node : Node}
    (h : entries.lookup place = some node) : (place, node) ∈ entries := by
  obtain ⟨before, after, rfl, -⟩ := List.lookup_eq_some_iff.mp h
  simp

private def tree (entries : List (Place × Node))
    (h : ∀ entry ∈ entries,
      entry.1.dropLast = [] ∨ entries.lookup entry.1.dropLast = some .dir) : FileSystem where
  node place := if place = [] then some .dir else entries.lookup place
  root := rfl
  parent place name hthere := by
    rw [if_neg (by simp)] at hthere
    obtain ⟨node, hnode⟩ := Option.ne_none_iff_exists'.mp hthere
    have habove := h _ (mem_of_lookup hnode)
    rw [List.dropLast_concat] at habove
    split_ifs with hroot
    · rfl
    · exact habove.resolve_left hroot

private def library : List (Place × Node) :=
  [(["mnt"], .dir), (["mnt", "media"], .dir), (["mnt", "media", "shows"], .dir),
    (["mnt", "media", "old"], .link ⟨true, ["srv", "secret"]⟩)]

private def withoutSecret : FileSystem := tree library (by decide)

private def withSecret : FileSystem :=
  tree (library ++ [(["srv"], .dir), (["srv", "secret"], .file)]) (by decide)

private theorem names_root : ∀ name ∈ ([] : Place), Name name := nofun

private def atRoot : AbsolutePath := ⟨[], names_root⟩

private def media : List Target := [⟨true, ["mnt", "media"]⟩, ⟨true, ["mnt", "usb"]⟩]

private def mounted : List Place := [["mnt", "media"], ["mnt", "usb"]]

private theorem noWayBack_tree {entries : List (Place × Node)} {h}
    (hlinks : ∀ entry ∈ entries, entry.2 = .dir ∨ entry.2 = .file ∨ Inside allowed entry.1) :
    NoWayBack (tree entries h) allowed := by
  intro place target hnode hout
  have hlookup : entries.lookup place = some (.link target) := by
    by_cases hroot : place = []
    · cases (tree entries h).root.symm.trans (hroot ▸ hnode)
    · exact (if_neg hroot).symm.trans hnode
  rcases hlinks _ (mem_of_lookup hlookup) with hdir | hfile | hinside
  · cases hdir
  · cases hfile
  · exact absurd hinside hout

private theorem noWayBack_withoutSecret : NoWayBack withoutSecret mounted := by
  refine noWayBack_tree fun entry hin => ?_
  simp only [library, List.mem_cons, List.not_mem_nil, or_false] at hin
  rcases hin with rfl | rfl | rfl | rfl
  · exact .inl rfl
  · exact .inl rfl
  · exact .inl rfl
  · exact .inr (.inr ⟨["mnt", "media"], List.mem_cons_self, ["old"], rfl⟩)

private theorem allowed_withoutSecret : resolveRoots withoutSecret atRoot media = mounted := by
  decide +kernel

private theorem allowed_withSecret : resolveRoots withSecret atRoot media = mounted := by
  decide +kernel

private theorem sameInside_withSecret : SameInside atRoot media withoutSecret withSecret := by
  refine ⟨allowed_withSecret.trans allowed_withoutSecret.symm, fun place hplace => ?_⟩
  rw [allowed_withoutSecret] at hplace
  obtain ⟨root, hroot, rest, rfl⟩ := hplace
  simp only [mounted, List.mem_cons, List.not_mem_nil, or_false] at hroot
  rcases hroot with rfl | rfl <;>
    simp [withSecret, withoutSecret, tree, List.lookup_append, List.lookup_cons]

private theorem noWayBack_withSecret : NoWayBack withSecret mounted := by
  refine noWayBack_tree fun entry hin => ?_
  simp only [library, List.cons_append, List.nil_append, List.mem_cons, List.not_mem_nil,
    or_false] at hin
  rcases hin with rfl | rfl | rfl | rfl | rfl | rfl
  · exact .inl rfl
  · exact .inl rfl
  · exact .inl rfl
  · exact .inr (.inr ⟨["mnt", "media"], List.mem_cons_self, ["old"], rfl⟩)
  · exact .inl rfl
  · exact .inr (.inl rfl)

/-- A folder of the library is shown, whatever exists outside, and with another root that is not
mounted. -/
theorem shows_unprobed :
    (resolveWithinRoots withSecret atRoot ⟨true, ["mnt", "media", "shows"]⟩ media).verdict =
      .INSIDE := by
  have hnoway := noWayBack_withoutSecret
  have hback := noWayBack_withSecret
  rw [← allowed_withoutSecret] at hnoway
  rw [← allowed_withSecret] at hback
  rw [(shown_and_unprobed withoutSecret atRoot ⟨true, ["mnt", "media", "shows"]⟩ media).2.1 hnoway
    (.inr ?_) _ sameInside_withSecret hback]
  · decide +kernel
  · have htrail : withoutSecret.trail MAX_LINKS []
        (resolvePath atRoot ⟨true, ["mnt", "media", "shows"]⟩).place =
          [["mnt"], ["mnt", "media"], ["mnt", "media", "shows"]] := by decide +kernel
    intro place hin
    rw [htrail] at hin
    rw [allowed_withoutSecret]
    refine ⟨["mnt", "media"], List.mem_cons_self, ?_⟩
    have hthere : withoutSecret.node ["mnt", "media"] ≠ none := by decide
    have hbegins : ["mnt", "media"] <+: place ∨ place <+: ["mnt", "media"] := by
      revert place
      decide
    exact hbegins.imp_right fun h => ⟨h, hthere⟩

/-- Behind a link out of the library, what is missing is told from what is not. -/
theorem not_unprobed : SameInside atRoot media withoutSecret withSecret ∧
    NoWayBack withoutSecret (resolveRoots withoutSecret atRoot media) ∧
    NoWayBack withSecret (resolveRoots withSecret atRoot media) ∧
    (resolveWithinRoots withoutSecret atRoot ⟨true, ["mnt", "media", "old"]⟩ media).verdict =
      .MISSING ∧
    (resolveWithinRoots withSecret atRoot ⟨true, ["mnt", "media", "old"]⟩ media).verdict =
      .OUTSIDE := by
  refine ⟨sameInside_withSecret, ?_, ?_, by decide +kernel, by decide +kernel⟩
  · rw [allowed_withoutSecret]
    exact noWayBack_withoutSecret
  · rw [allowed_withSecret]
    exact noWayBack_withSecret

end MediaCenterSync.Filesystem
