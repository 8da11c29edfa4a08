import MediaCenterSync.Lib.Fallible
import MediaCenterSync.Planning.Correct.Plan

/-!
# No path twice, and nobody's file

A name is free for an item when nothing holds it and nothing claimed it, or when it is what the
media service reports of the copy the item replaces.  The last is asked first.  So a plan hands out
every path once, and only paths that are free or the copy's own (`HandsOutOnce`), exactly when no
item comes to that reported path after names that are all taken and finds it claimed, or finds a
file there that is not the copy (`Clashes`): `handsOutOnce_iff`.
-/

namespace MediaCenterSync.Planning

open Placement (Disk PlacementRequest chosen occupied tried)
open TransferManager (Dir)

/-- **No path is handed out twice, and none that somebody's file is at**, but the copy's own. -/
structure HandsOutOnce (planner : Planner) (planning : SyncPlanning) : Prop where
  distinct : ((planning.items ++ planning.dropped).map (·.targetPath)).Nodup
  unowned : ∀ item ∈ planning.items ++ planning.dropped, planner.disk.existsAt item.targetPath →
    (item.localItemId.bind planner.catalogue.find).bind planner.catalogue.gatewayPath
      = some item.targetPath

instance (planner : Planner) (planning : SyncPlanning) :
    Decidable (HandsOutOnce planner planning) :=
  decidable_of_iff (_ ∧ _) ⟨fun h => ⟨h.1, h.2⟩, fun h => ⟨h.distinct, h.unowned⟩⟩

/-- Every name tried before the reported path of the copy is taken, and so is that path: it was
claimed, or a file is there that is not the copy, which is at `own`. -/
def Clashes (disk : Disk) (request : PlacementRequest) (own : Option Dir) : Prop :=
  ∃ attempt before path after, chosen disk request = some attempt ∧
    tried request attempt.root = before ++ path :: after ∧
    (∀ name ∈ before, some name ≠ request.replacesPath ∧
      (name ∈ request.reserved ∨ disk.existsAt name)) ∧
    some path = request.replacesPath ∧
    (path ∈ request.reserved ∨ disk.existsAt path ∧ own ≠ some path)

section

variable {disk : Disk} {request : PlacementRequest} {target : Placement.PlacementTarget}
  {own : Option Dir}

theorem occupied_iff {reserved : List Dir} {replaces : Option Dir} {path : Dir} :
    occupied disk reserved replaces path ↔
      some path ≠ replaces ∧ (path ∈ reserved ∨ disk.existsAt path) := by
  rw [← not_iff_not, Bool.not_eq_true, Placement.occupied_eq_false_iff, not_and_or, not_not,
    not_or, Bool.not_eq_true]

theorem free_of_not_clashes (h : Placement.resolve disk request = .ok target)
    (hclash : ¬ Clashes disk request own) :
    target.path ∉ request.reserved ∧ (disk.existsAt target.path → own = some target.path) := by
  obtain ⟨attempt, hchosen, hfind⟩ := Placement.path_of_resolve h
  obtain ⟨hfree, before, after, htried, hbefore⟩ := List.find?_eq_some_iff_append.mp hfind
  rw [Bool.not_eq_true', Placement.occupied_eq_false_iff] at hfree
  rcases hfree with hreplaces | ⟨hreserved, hexists⟩
  · have hnames : ∀ name ∈ before, some name ≠ request.replacesPath ∧
        (name ∈ request.reserved ∨ disk.existsAt name) :=
      fun name hname => occupied_iff.mp (by simpa using hbefore name hname)
    constructor
    · intro hreserved
      exact hclash ⟨attempt, before, _, after, hchosen, htried, hnames, hreplaces, .inl hreserved⟩
    · intro hexists
      by_contra hown
      exact hclash ⟨attempt, before, _, after, hchosen, htried, hnames, hreplaces,
        .inr ⟨hexists, hown⟩⟩
  · exact ⟨hreserved, fun hthere => by rw [hexists] at hthere; cases hthere⟩

theorem path_of_clashes (h : Placement.resolve disk request = .ok target)
    (hclash : Clashes disk request own) :
    target.path ∈ request.reserved ∨ disk.existsAt target.path ∧ own ≠ some target.path := by
  obtain ⟨attempt, before, path, after, hchosen, htried, hbefore, hreplaces, htaken⟩ := hclash
  obtain ⟨other, hother, hfind⟩ := Placement.path_of_resolve h
  obtain rfl := Option.some.inj (hchosen.symm.trans hother)
  have hpath : (tried request attempt.root).find?
      (!occupied disk request.reserved request.replacesPath ·) = some path := by
    refine List.find?_eq_some_iff_append.mpr ⟨?_, before, after, htried, fun name hname => ?_⟩
    · rw [Bool.not_eq_true', Placement.occupied_eq_false_iff]
      exact .inl hreplaces
    · rw [Bool.not_not]
      exact occupied_iff.mpr (hbefore name hname)
  obtain rfl := Option.some.inj (hpath.symm.trans hfind)
  exact htaken

end

namespace Planner

variable {planner : Planner} {planning : SyncPlanning}

/-- Where the copy an item replaces really is. -/
def ownPath (planner : Planner) (entry : WantedItem) : Option Dir :=
  entry.heldAs.bind planner.catalogue.gatewayPath

theorem AboutToPlace.find_heldAs {siblings : List (String × Dir)} {placed : List Placed}
    {entry : WantedItem} (h : planner.AboutToPlace siblings placed entry) :
    (entry.heldAs.map (·.id)).bind planner.catalogue.find = entry.heldAs := by
  obtain ⟨wanted, estimate, _, _, hselect, -⟩ := id h
  have hentry : entry ∈ wanted := h.mem_wanted hselect
  cases hcopy : entry.heldAs with
  | none => rfl
  | some copy => exact find_eq_self (heldAs_of_select hselect hentry hcopy).1

theorem Ran.nodup_claimed {all : List Placed} (hran : Ran planner planning all)
    (h : ∀ siblings placed entry, planner.AboutToPlace siblings placed entry →
      ¬ Clashes planner.disk (planner.request siblings placed entry) (planner.ownPath entry)) :
    (claimed all).Nodup := by
  have hprefix : ∀ placed : List Placed, placed <+: all → (claimed placed).Nodup := by
    intro placed
    induction placed using List.reverseRecOn with
    | nil => exact fun _ => List.nodup_nil
    | append_singleton placed next ih =>
      rintro ⟨after, hall⟩
      rw [List.append_assoc, List.singleton_append] at hall
      obtain ⟨siblings, habout, hplace⟩ := hran.step placed next after hall.symm
      obtain ⟨-, -, hresolve⟩ := place_eq_ok hplace
      have hfree := (free_of_not_clashes hresolve (h siblings placed _ habout)).1
      rw [claimed, List.map_append, List.map_singleton, ← List.concat_eq_append]
      exact (ih ⟨_, hall⟩).concat hfree
  exact hprefix all List.prefix_rfl

/-- **A plan hands out every path once** exactly when no item of it clashes. -/
theorem handsOutOnce_iff (hplan : planner.plan = .ok planning) :
    HandsOutOnce planner planning ↔
      ∀ siblings placed entry, planner.AboutToPlace siblings placed entry →
        ¬ Clashes planner.disk (planner.request siblings placed entry)
          (planner.ownPath entry) := by
  obtain ⟨all, hran⟩ := exists_ran hplan
  have hpaths : (planning.items ++ planning.dropped).map (·.targetPath) = claimed all := by
    rw [hran.lines, List.map_map]
    rfl
  constructor
  · intro h siblings placed entry habout hclash
    obtain ⟨next, after, hall, hplace⟩ := hran.comes siblings placed entry habout
    obtain ⟨hentry, -, hresolve⟩ := place_eq_ok hplace
    rcases path_of_clashes hresolve hclash with hclaimed | ⟨hexists, hown⟩
    · have hnodup := h.distinct
      rw [hpaths, hall, claimed, List.map_append, List.map_cons] at hnodup
      exact (List.nodup_append.mp hnodup).2.2 _ hclaimed _ (List.mem_cons_self ..) rfl
    · have hline : planner.plannedItem next ∈ planning.items ++ planning.dropped := by
        rw [hran.lines, hall]
        exact List.mem_map_of_mem (List.mem_append_right _ (List.mem_cons_self ..))
      have hpath := h.unowned _ hline hexists
      rw [plannedItem, hentry, habout.find_heldAs] at hpath
      exact hown hpath
  · intro h
    refine ⟨hpaths ▸ hran.nodup_claimed h, ?_⟩
    intro item hitem hexists
    rw [hran.lines] at hitem
    obtain ⟨next, hnext, rfl⟩ := List.mem_map.mp hitem
    obtain ⟨before, after, hall⟩ := List.append_of_mem hnext
    obtain ⟨siblings, habout, hplace⟩ := hran.step before next after hall
    obtain ⟨-, -, hresolve⟩ := place_eq_ok hplace
    have hown := (free_of_not_clashes hresolve (h siblings before _ habout)).2 hexists
    rw [plannedItem, habout.find_heldAs]
    exact hown

/-! ### Two versions of one copy -/

/-- A film of ours that another server has in one or more versions, which are asked for although it
is held. -/
def versions (others : List MediaItem) (rows : List Correlation.MediaMatch)
    (nodup : ((ourDune :: others).map (·.id)).Nodup) : Planner where
  catalogue :=
    { items := ourDune :: others
      services := [ourServer [⟨["films"], ["films"]⟩], theirServer]
      libraries := [ourFilms ["films"]]
      categories := []
      matchRows := rows
      nodup := nodup }
  effective := { everything with filter := { everything.filter with includeHeld := true } }
  settings := plainSettings
  disk := diskWith [["films", "Dune (2021)", "Dune.mkv"]]
  normalize := id
  toLowerCase := id

def oneVersion : Planner :=
  versions [theirDune "theirs" "v1:b"] [correlated 0 "ours" "theirs"] (by decide)

theorem handsOutOnce_iff_oneVersion :
    ∃ planning, oneVersion.plan = .ok planning ∧ HandsOutOnce oneVersion planning ∧
      ∀ siblings placed entry, oneVersion.AboutToPlace siblings placed entry →
        ¬ Clashes oneVersion.disk (oneVersion.request siblings placed entry)
          (oneVersion.ownPath entry) := by
  obtain ⟨planning, hplan⟩ : ∃ planning, oneVersion.plan = .ok planning :=
    Fallible.exists_eq_ok (by decide +kernel)
  have honce : ∀ planning ∈ oneVersion.plan.toOption, HandsOutOnce oneVersion planning := by
    decide +kernel
  have h : HandsOutOnce oneVersion planning := honce planning (by rw [hplan]; rfl)
  exact ⟨planning, hplan, h, (handsOutOnce_iff hplan).mp h⟩

/-- Two versions, and each is to take the place of the copy. -/
def twoVersions : Planner :=
  versions [theirDune "theirs" "v1:b", theirDune "extended" "v1:c"]
    [correlated 0 "ours" "theirs", correlated 1 "ours" "extended"] (by decide)

/-- **Two versions are given one path.** -/
theorem not_handsOutOnce_twoVersions :
    twoVersions.plan.toOption.map (fun planning => planning.items.map (·.targetPath)) =
        some [["films", "Dune (2021)", "Dune.mkv"], ["films", "Dune (2021)", "Dune.mkv"]] ∧
      ∃ planning, twoVersions.plan = .ok planning ∧ ¬ HandsOutOnce twoVersions planning := by
  obtain ⟨planning, hplan⟩ : ∃ planning, twoVersions.plan = .ok planning :=
    Fallible.exists_eq_ok (by decide +kernel)
  have htwice : ∀ planning ∈ twoVersions.plan.toOption, ¬ HandsOutOnce twoVersions planning := by
    decide +kernel
  exact ⟨by decide +kernel, planning, hplan, htwice planning (by rw [hplan]; rfl)⟩

end Planner

end MediaCenterSync.Planning
