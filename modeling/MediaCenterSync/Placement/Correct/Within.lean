import MediaCenterSync.Naming.Correct.Service

/-!
# A pull stays in its destination

Whatever a name is, what is left of it (`safeRelative`) is one step down after another.  So every
name that is tried in a root is below it (`below_of_tried`), and so is the one that is taken.  The
directory a placement answers with is that of the wanted name, and of the one that is taken where
the callback keeps the folder of the name it is given (`KeepsFolder`), as the one a plan hands over
does (`keepsFolder_of_naming`).
-/

namespace MediaCenterSync.Placement

open Matching (MediaKind)
open TransferManager (Dir PlacedBy)

variable {disk : Disk} {request : PlacementRequest} {target : PlacementTarget} {root : Dir}

/-! ### Specification -/

/-- Strictly below a directory: by at least one step, and none of them upwards. -/
def Below (root path : Dir) : Prop :=
  ∃ steps, steps ≠ [] ∧ (∀ step ∈ steps, step ∉ ["", ".", ".."]) ∧ path = root ++ steps

/-- The path is below the root, the directory is not above it, and the root is the one of the lot,
or of a destination that was to be tried. -/
structure PlacementTarget.Within (request : PlacementRequest) (target : PlacementTarget) :
    Prop where
  path : Below target.root target.path
  directory : target.directory = target.root ∨ Below target.root target.directory
  candidate : ∃ attempt ∈ (candidates request).1, attempt.root = target.root
  pinned : ∀ pin ∈ request.pinned, target.root = pin.root

/-- The path the callback's answers make in a root, counted from none. -/
def candidate (request : PlacementRequest) (root : Dir) (count : ℕ) : Dir :=
  inRoot root (request.disambiguate (request.relativeName root) (count + 1))

/-- The answer of the callback a file is given: the first, counted from none, whose path is not the
wanted one and that nothing occupies. -/
structure Taken (disk : Disk) (request : PlacementRequest) (root : Dir) (count : ℕ) : Prop where
  few : count < MAX_NAME_ATTEMPTS
  free : candidate request root count ≠ inRoot root (request.relativeName root) ∧
    occupied disk request.reserved request.replacesPath (candidate request root count) = false
  first : ∀ earlier < count,
    candidate request root earlier = inRoot root (request.relativeName root) ∨
      occupied disk request.reserved request.replacesPath (candidate request root earlier) = true

/-- Where the chosen candidate holds a file of the wanted name, the callback's first answer that is
free there keeps the folders of the name it was given. -/
def KeepsFolder (disk : Disk) (request : PlacementRequest) : Prop :=
  ∀ attempt ∈ chosen disk request,
    let name := request.relativeName attempt.root
    occupied disk request.reserved request.replacesPath (inRoot attempt.root name) = true →
      ∀ count, Taken disk request attempt.root count →
        (safeRelative (request.disambiguate name (count + 1))).dropLast
          = (safeRelative name).dropLast

/-! ### Names -/

theorem safeRelative_ne_nil (relativeName : List String) : safeRelative relativeName ≠ [] := by
  unfold safeRelative
  dsimp only
  split_ifs with hnone
  · exact List.cons_ne_nil _ _
  · exact hnone

theorem notMem_of_safeRelative {relativeName : List String} {step : String}
    (h : step ∈ safeRelative relativeName) : step ∉ ["", ".", ".."] := by
  unfold safeRelative at h
  dsimp only at h
  split_ifs at h with hnone
  · obtain rfl := List.mem_singleton.mp h
    decide
  · exact of_decide_eq_true (List.mem_filter.mp h).2

theorem below_inRoot (root : Dir) (relativeName : List String) :
    Below root (inRoot root relativeName) :=
  ⟨safeRelative relativeName, safeRelative_ne_nil relativeName,
    fun _ => notMem_of_safeRelative, rfl⟩

theorem Below.dropLast {path : Dir} (h : Below root path) :
    path.dropLast = root ∨ Below root path.dropLast := by
  obtain ⟨steps, hne, hsteps, rfl⟩ := h
  rw [List.dropLast_append_of_ne_nil hne]
  by_cases hone : steps.dropLast = []
  · exact .inl (by rw [hone, List.append_nil])
  · exact .inr ⟨steps.dropLast, hone, fun step hin => hsteps step (List.mem_of_mem_dropLast hin),
      rfl⟩

theorem below_of_tried {path : Dir} (h : path ∈ tried request root) : Below root path := by
  rcases List.mem_cons.mp h with rfl | hother
  · exact below_inRoot root _
  · obtain ⟨attempt, -, rfl⟩ := List.mem_map.mp (List.mem_filter.mp hother).1
    exact below_inRoot root _

/-! ### What is answered -/

theorem Taken.unique {count other : ℕ} (h : Taken disk request root count)
    (hother : Taken disk request root other) : count = other := by
  by_contra hne
  rcases Nat.lt_or_gt_of_ne hne with hlt | hlt
  · rcases hother.first count hlt with heq | hheld
    · exact h.free.1 heq
    · simp [h.free.2] at hheld
  · rcases h.first other hlt with heq | hheld
    · exact hother.free.1 heq
    · simp [hother.free.2] at hheld

theorem within_of_resolve (h : resolve disk request = .ok target) : target.Within request := by
  obtain ⟨attempt, rejected, free, hchosen, hfree, rfl⟩ := resolve_eq_ok h
  have hcandidate := List.mem_of_find?_eq_some hchosen
  refine ⟨below_of_tried (List.mem_of_find?_eq_some hfree), (below_inRoot _ _).dropLast,
    ⟨attempt, hcandidate, rfl⟩, fun pin hpin => ?_⟩
  rw [candidates, hpin] at hcandidate
  obtain rfl := List.mem_singleton.mp hcandidate
  rfl

theorem dropLast_inRoot (root : Dir) (relativeName : List String) :
    (inRoot root relativeName).dropLast = root ++ (safeRelative relativeName).dropLast :=
  List.dropLast_append_of_ne_nil (safeRelative_ne_nil relativeName)

/-- The other name that is found is the first answer that is free. -/
theorem find?_alternatives_eq_some {path : Dir} :
    (alternatives request root (request.relativeName root)).find?
        (!occupied disk request.reserved request.replacesPath ·) = some path ↔
      ∃ count, Taken disk request root count ∧ path = candidate request root count := by
  simp only [alternatives, List.find?_filter, List.find?_map, Option.map_eq_some_iff,
    List.find?_range_eq_some]
  constructor
  · rintro ⟨count, ⟨hfree, hin, hfirst⟩, rfl⟩
    refine ⟨count, ⟨List.mem_range.mp hin, by simpa [candidate] using hfree, ?_⟩, rfl⟩
    intro earlier hearlier
    simpa [candidate, or_iff_not_imp_left] using hfirst earlier hearlier
  · rintro ⟨count, htaken, rfl⟩
    refine ⟨count, ⟨by simpa [candidate] using htaken.free, List.mem_range.mpr htaken.few, ?_⟩, rfl⟩
    intro earlier hearlier
    simpa [candidate, or_iff_not_imp_left] using htaken.first earlier hearlier

theorem directory_iff (h : resolve disk request = .ok target) :
    target.directory = target.path.dropLast ↔ KeepsFolder disk request := by
  obtain ⟨attempt, rejected, free, hchosen, hfree, rfl⟩ := resolve_eq_ok h
  change (inRoot attempt.root (request.relativeName attempt.root)).dropLast = free.1.dropLast ↔ _
  have hkeeps : KeepsFolder disk request ↔
      (occupied disk request.reserved request.replacesPath
          (inRoot attempt.root (request.relativeName attempt.root)) = true →
        ∀ count, Taken disk request attempt.root count →
          (candidate request attempt.root count).dropLast
            = (inRoot attempt.root (request.relativeName attempt.root)).dropLast) := by
    simp only [KeepsFolder, hchosen, Option.mem_some_iff, forall_eq', candidate, dropLast_inRoot,
      List.append_cancel_left_eq]
  rw [hkeeps]
  rw [tried, List.find?_cons] at hfree
  split at hfree
  · next hwanted =>
    have hvacant := (Bool.not_eq_true' _).mp hwanted
    refine iff_of_true (congrArg List.dropLast (Option.some.inj hfree)) fun hheld => ?_
    rw [hvacant] at hheld
    cases hheld
  · next hwanted =>
    have hheld : occupied disk request.reserved request.replacesPath
        (inRoot attempt.root (request.relativeName attempt.root)) = true :=
      (Bool.not_eq_false' _).mp hwanted
    obtain ⟨count, htaken, hpath⟩ := find?_alternatives_eq_some.mp hfree
    rw [hpath]
    constructor
    · intro hfolder _ other hother
      rw [htaken.unique hother] at hfolder
      exact hfolder.symm
    · exact fun h => (h hheld count htaken).symm

/-- **A pull never writes outside its destination**; and the directory is the parent of the path
exactly where the name that is taken is in the folder of the wanted one. -/
theorem resolve_within (h : resolve disk request = .ok target) : target.Within request ∧
    (target.directory = target.path.dropLast ↔ KeepsFolder disk request) :=
  ⟨within_of_resolve h, directory_iff h⟩

/-! ### The names a plan gives -/

/-- The other names a plan gives keep the folder, but for one with a separator of the other kind in
it, which they are taken apart at. -/
theorem keepsFolder_of_naming {toLowerCase : String → String} {marks : Naming.VersionMarks}
    (hrequest : request.disambiguate = fun relativeName attempt =>
      Naming.disambiguate toLowerCase relativeName marks attempt)
    (hname : ∀ attempt ∈ chosen disk request, ∃ parts name, Proper name ∧
      (∀ part ∈ parts, Char.ofNat 0x5C ∉ part.toList) ∧
        request.relativeName attempt.root = parts ++ [name]) :
    KeepsFolder disk request := by
  intro attempt hattempt name _ count _
  obtain ⟨parts, last, hproper, hwhole, hparts⟩ := hname attempt hattempt
  have hfolders : parts.flatMap splitBackslashes = parts :=
    flatMap_splitBackslashes hwhole
  rw [hrequest]
  simp only [name, hparts, Naming.disambiguate_concat toLowerCase parts hproper, hfolders]
  rw [safeRelative_concat parts (Naming.proper_renamed toLowerCase last marks _),
    safeRelative_concat parts hproper, List.dropLast_concat, List.dropLast_concat]

/-- A folder with one file in it, that the request wants. -/
private def taken (folder : String) : Disk where
  existsAt := [[], ["films"], ["films", folder], ["films", folder, "Alien.mkv"]].contains
  writable _ := true
  freeBytes _ := none

/-- A film for one folder, with the other names a plan gives it. -/
private def film (folder : String) : PlacementRequest where
  kind := .MOVIE
  categoryKey := none
  settings := ⟨.FIXED_PATH, some (.absolute ["films"]), [], none, none⟩
  libraries := []
  relativeName _ := [folder, "Alien.mkv"]
  existingPath := none
  pinnedPath := none
  preferredLibraryId := none
  preferredBy := .REQUESTED
  requiredBytes := 0
  replacesPath := none
  disambiguate name attempt := Naming.disambiguate id name ⟨none, none⟩ attempt
  reserved := []
  pinned := none

/-- A film whose name is taken lands beside it. -/
theorem resolve_beside : KeepsFolder (taken "Alien") (film "Alien") ∧
    ∃ target, resolve (taken "Alien") (film "Alien") = .ok target ∧
      target.path = ["films", "Alien", "Alien - 2.mkv"] ∧ target.Within (film "Alien") ∧
      (target.directory = target.path.dropLast ↔ KeepsFolder (taken "Alien") (film "Alien")) := by
  have hkeeps : KeepsFolder (taken "Alien") (film "Alien") :=
    keepsFolder_of_naming rfl fun _ _ => ⟨["Alien"], "Alien.mkv", ⟨by decide, by decide⟩,
      by decide, rfl⟩
  have hok : (resolve (taken "Alien") (film "Alien")).toOption.map (·.path) =
      some ["films", "Alien", "Alien - 2.mkv"] := by decide +kernel
  obtain ⟨target, htarget, hpath⟩ := Option.map_eq_some_iff.mp hok
  cases h : resolve (taken "Alien") (film "Alien") with
  | ok answer =>
    rw [h] at htarget
    obtain rfl := Option.some.inj htarget
    exact ⟨hkeeps, answer, rfl, hpath, resolve_within h⟩
  | error refusal =>
    rw [h] at htarget
    cases htarget

/-- A folder whose name goes up, between separators of the other kind. -/
private def winding : String := "x\\..\\Alien"

private def held : Disk where
  existsAt :=
    [[], ["films"], ["films", "x", "Alien"], ["films", "x", "Alien", "Alien.mkv"]].contains
  writable _ := true
  freeBytes _ := none

/-- The other names of a film in it are elsewhere. -/
theorem not_resolve_elsewhere : ¬ ∀ (disk : Disk) (request : PlacementRequest)
    (target : PlacementTarget), resolve disk request = .ok target →
      target.directory = target.path.dropLast := by
  intro hall
  have hok : (resolve held (film winding)).toOption.map
      (fun target => (target.directory, target.path)) =
        some (["films", "x", "Alien"], ["films", "Alien", "Alien - 2.mkv"]) := by decide +kernel
  obtain ⟨target, htarget, heq⟩ := Option.map_eq_some_iff.mp hok
  obtain ⟨hdirectory, hpath⟩ := Prod.mk.inj heq
  cases h : resolve held (film winding) with
  | ok answer =>
    rw [h] at htarget
    obtain rfl := Option.some.inj htarget
    have hparent := hall held (film winding) answer h
    rw [hdirectory, hpath] at hparent
    exact absurd hparent (by decide)
  | error refusal =>
    rw [h] at htarget
    cases htarget

end MediaCenterSync.Placement
