import MediaCenterSync.Placement.Correct.Service
import MediaCenterSync.Planning.Correct.Select
import MediaCenterSync.Planning.Plan

/-!
# The steps of a plan

A plan places one item after another, and what it does to one depends on those before it.
`AboutToPlace` says that an item is placed after certain others; a plan that comes to an end has
placed every item it takes that way (`Ran`, `exists_ran`).
-/

namespace MediaCenterSync.Planning

open TransferManager (Dir)

/-! ### Rows -/

theorem find_eq_self {catalogue : Catalogue} {item : MediaItem} (h : item ∈ catalogue.items) :
    catalogue.find item.id = some item := by
  have hfound : ∀ items : List MediaItem, (items.map (·.id)).Nodup → item ∈ items →
      items.find? (·.id = item.id) = some item := by
    intro items hnodup hin
    induction items with
    | nil => cases hin
    | cons first rest ih =>
      rw [List.map_cons, List.nodup_cons] at hnodup
      rcases List.mem_cons.mp hin with rfl | hin
      · simp
      · have hne : first.id ≠ item.id := fun heq =>
          hnodup.1 (heq ▸ List.mem_map_of_mem (f := (·.id)) hin)
        rw [List.find?_cons_of_neg (by simpa using hne)]
        exact ih hnodup.2 hin
  exact hfound _ catalogue.nodup h

theorem mem_of_find {catalogue : Catalogue} {id : String} {item : MediaItem}
    (h : catalogue.find id = some item) : item ∈ catalogue.items := List.mem_of_find?_eq_some h

theorem mem_of_counterparts {catalogue : Catalogue} {item other : MediaItem}
    (h : other ∈ catalogue.counterparts item) : other ∈ catalogue.items := by
  obtain ⟨row, -, hother⟩ := List.mem_filterMap.mp h
  obtain ⟨hother, -⟩ := Option.filter_eq_some_iff.mp hother
  obtain ⟨hother, -⟩ := Option.filter_eq_some_iff.mp hother
  obtain ⟨id, -, hid⟩ := Option.bind_eq_some_iff.mp hother
  exact mem_of_find hid

theorem mem_of_candidates {catalogue : Catalogue} {effective : EffectiveRequest}
    {candidates : List MediaItem} (h : catalogue.candidates effective = .ok candidates)
    {item : MediaItem} (hitem : item ∈ candidates) : item ∈ catalogue.items := by
  simp only [Catalogue.candidates] at h
  split_ifs at h
  cases h
  exact (List.mem_filter.mp hitem).1

theorem exists_of_select {toLowerCase : String → String} {catalogue : Catalogue}
    {effective : EffectiveRequest} {wanted : List WantedItem} {estimate : SyncEstimate}
    (h : select toLowerCase catalogue effective = .ok (wanted, estimate)) {entry : WantedItem}
    (hentry : entry ∈ wanted) :
    ∃ candidates key members, catalogue.candidates effective = .ok candidates ∧
      (key, members) ∈ groups candidates ∧
      transferOf catalogue (catalogue.sourceOrder effective.sourceServiceIds) members
        = some entry := by
  rw [select] at h
  cases hcandidates : catalogue.candidates effective with
  | error refusal => rw [hcandidates] at h; cases h
  | ok candidates =>
    rw [hcandidates] at h
    obtain rfl : wantedOf toLowerCase catalogue effective candidates = wanted :=
      congrArg Prod.fst (Except.ok.inj h)
    obtain ⟨⟨key, members⟩, hgroup, hentry⟩ := List.mem_filterMap.mp hentry
    exact ⟨candidates, key, members, rfl, hgroup, (Option.filter_eq_some_iff.mp hentry).1⟩

theorem not_isLocal_of_select {toLowerCase : String → String} {catalogue : Catalogue}
    {effective : EffectiveRequest} {wanted : List WantedItem} {estimate : SyncEstimate}
    (h : select toLowerCase catalogue effective = .ok (wanted, estimate)) {entry : WantedItem}
    (hentry : entry ∈ wanted) : ¬ catalogue.isLocal entry.item := by
  obtain ⟨candidates, key, members, -, -, htransfer⟩ := exists_of_select h hentry
  obtain ⟨source, hsource, rfl⟩ := Option.map_eq_some_iff.mp htransfer
  have hmem := (List.mem_insertionSort _).mp (List.mem_of_head? hsource)
  simpa using (List.mem_filter.mp hmem).2

theorem heldAs_of_select {toLowerCase : String → String} {catalogue : Catalogue}
    {effective : EffectiveRequest} {wanted : List WantedItem} {estimate : SyncEstimate}
    (h : select toLowerCase catalogue effective = .ok (wanted, estimate)) {entry : WantedItem}
    (hentry : entry ∈ wanted) {copy : MediaItem} (hcopy : entry.heldAs = some copy) :
    copy ∈ catalogue.items ∧ catalogue.isLocal copy := by
  obtain ⟨candidates, key, members, hcandidates, hgroup, htransfer⟩ := exists_of_select h hentry
  obtain ⟨source, -, rfl⟩ := Option.map_eq_some_iff.mp htransfer
  have hcopy : copy ∈ localCopies catalogue members source := List.mem_of_head? hcopy
  obtain ⟨first, -, -, -, rfl⟩ := mem_groups.mp hgroup
  obtain ⟨hlocal, ⟨hmember, -⟩ | ⟨member, -, hcorrelated⟩⟩ := (mem_localCopies ..).mp hcopy
  · exact ⟨mem_of_candidates hcandidates (mem_sharing.mp hmember).1, hlocal⟩
  · exact ⟨mem_of_counterparts hcorrelated, hlocal⟩

/-! ### Steps -/

namespace Planner

variable {planner : Planner} {siblings : List (String × Dir)} {planning : SyncPlanning}

theorem place_eq_ok {placed : List Placed} {entry : WantedItem} {next : Placed}
    (h : planner.place siblings placed entry = .ok next) :
    next.entry = entry ∧
      next.lot = planner.catalogue.lotOf planner.effective.scope entry.item ∧
      Placement.resolve planner.disk (planner.request siblings placed entry) = .ok next.target := by
  rw [place] at h
  cases hresolve : Placement.resolve planner.disk (planner.request siblings placed entry) with
  | error refusal => rw [hresolve] at h; cases h
  | ok target =>
    rw [hresolve] at h
    cases h
    exact ⟨rfl, rfl, rfl⟩

theorem placeAll_append (placed : List Placed) (before after : List WantedItem) :
    planner.placeAll siblings placed (before ++ after) =
      planner.placeAll siblings placed before >>= (planner.placeAll siblings · after) := by
  induction before generalizing placed with
  | nil => rfl
  | cons entry rest ih =>
    rw [List.cons_append, placeAll, placeAll]
    cases planner.place siblings placed entry with
    | error refusal => rfl
    | ok next => exact ih _

theorem placeAll_eq_ok {placed all : List Placed} {entries : List WantedItem}
    (h : planner.placeAll siblings placed entries = .ok all) :
    ∃ later, all = placed ++ later ∧ later.map (·.entry) = entries := by
  induction entries generalizing placed with
  | nil =>
    cases h
    exact ⟨[], (List.append_nil _).symm, rfl⟩
  | cons entry rest ih =>
    rw [placeAll] at h
    cases hplace : planner.place siblings placed entry with
    | error refusal => rw [hplace] at h; cases h
    | ok next =>
      rw [hplace] at h
      obtain ⟨later, rfl, hlater⟩ := ih h
      obtain ⟨rfl, -, -⟩ := place_eq_ok hplace
      exact ⟨next :: later, by simp, by simp [hlater]⟩

theorem placeAll_split {before after : List WantedItem} {entry : WantedItem} {all : List Placed}
    (h : planner.placeAll siblings [] (before ++ entry :: after) = .ok all) :
    ∃ placed next later, planner.placeAll siblings [] before = .ok placed ∧
      planner.place siblings placed entry = .ok next ∧ all = placed ++ next :: later := by
  rw [placeAll_append] at h
  cases hbefore : planner.placeAll siblings [] before with
  | error refusal => rw [hbefore] at h; cases h
  | ok placed =>
    rw [hbefore] at h
    simp only [bind, Except.bind, placeAll] at h
    cases hnext : planner.place siblings placed entry with
    | error refusal => rw [hnext] at h; cases h
    | ok next =>
      rw [hnext] at h
      obtain ⟨later, hall, -⟩ := placeAll_eq_ok h
      exact ⟨placed, next, later, rfl, hnext, by rw [hall, List.append_assoc]; rfl⟩

/-- An item a plan comes to, and what it has placed before. -/
def AboutToPlace (planner : Planner) (siblings : List (String × Dir)) (placed : List Placed)
    (entry : WantedItem) : Prop :=
  ∃ wanted estimate before after,
    select planner.toLowerCase planner.catalogue planner.effective = .ok (wanted, estimate) ∧
    wanted.take MAX_PLANNED_ITEMS = before ++ entry :: after ∧
    siblings = localSiblings planner.catalogue planner.normalize
      ((wanted.take MAX_PLANNED_ITEMS).map (·.item)) ∧
    planner.placeAll siblings [] before = .ok placed

theorem AboutToPlace.mem_wanted {placed : List Placed} {entry : WantedItem}
    (h : planner.AboutToPlace siblings placed entry) {wanted : List WantedItem}
    {estimate : SyncEstimate}
    (hselect : select planner.toLowerCase planner.catalogue planner.effective
      = .ok (wanted, estimate)) : entry ∈ wanted := by
  obtain ⟨wanted', estimate', before, after, hselect', htake, -, -⟩ := h
  obtain ⟨rfl, -⟩ := Prod.mk.inj (Except.ok.inj (hselect.symm.trans hselect'))
  exact List.mem_of_mem_take (htake ▸ List.mem_append_right _ (List.mem_cons_self ..))

/-- Everything a plan placed, in order, each item after those before it. -/
structure Ran (planner : Planner) (planning : SyncPlanning) (all : List Placed) : Prop where
  lines : planning.items ++ planning.dropped = all.map planner.plannedItem
  /-- What is placed was about to be, and landed where its request says. -/
  step : ∀ before next after, all = before ++ next :: after →
    ∃ siblings, planner.AboutToPlace siblings before next.entry ∧
      planner.place siblings before next.entry = .ok next
  comes : ∀ siblings placed entry, planner.AboutToPlace siblings placed entry →
    ∃ next after, all = placed ++ next :: after ∧ planner.place siblings placed entry = .ok next

theorem applyCeilings_append (ceilings : RunCeilings) (count bytes : ℕ) (items : List PlannedItem) :
    (applyCeilings ceilings count bytes items).1 ++ (applyCeilings ceilings count bytes items).2.1
      = items := by
  induction items generalizing count bytes with
  | nil => rfl
  | cons item rest ih =>
    rw [applyCeilings]
    cases stopsAt ceilings count bytes item with
    | some reason => rfl
    | none => exact congrArg (item :: ·) (ih _ _)

theorem ran_of_placements {wanted : List WantedItem} {estimate : SyncEstimate} {all : List Placed}
    (hselect : select planner.toLowerCase planner.catalogue planner.effective
      = .ok (wanted, estimate)) (hall : planner.placements wanted = .ok all) :
    Ran planner (planner.planning estimate all) all := by
  simp only [placements] at hall
  refine ⟨applyCeilings_append .., ?_, ?_⟩
  · intro before next after hsplit
    obtain ⟨later, hlater, hentries⟩ := placeAll_eq_ok hall
    rw [List.nil_append] at hlater
    rw [← hlater, hsplit, List.map_append, List.map_cons] at hentries
    rw [← hentries] at hall
    obtain ⟨placed, other, rest, hplaced, hnext, hall'⟩ := placeAll_split hall
    obtain ⟨_, heq, hmap⟩ := placeAll_eq_ok hplaced
    have hlength : before.length = placed.length := by
      rw [List.nil_append] at heq
      rw [heq, ← List.length_map (f := Placed.entry), ← hmap, List.length_map]
    obtain ⟨rfl, hcons⟩ := List.append_inj (hsplit.symm.trans hall') hlength
    obtain ⟨rfl, rfl⟩ := List.cons.inj hcons
    rw [hentries] at hplaced hnext
    exact ⟨_, ⟨wanted, estimate, _, _, hselect, hentries.symm, rfl, hplaced⟩, hnext⟩
  · rintro siblings placed entry ⟨wanted', estimate', before, after, hselect', htake, rfl, hplaced⟩
    obtain ⟨rfl, rfl⟩ := Prod.mk.inj (Except.ok.inj (hselect.symm.trans hselect'))
    rw [htake] at hall hplaced ⊢
    obtain ⟨placed', next, later, hplaced', hnext, rfl⟩ := placeAll_split hall
    obtain rfl := Except.ok.inj (hplaced.symm.trans hplaced')
    exact ⟨next, later, rfl, hnext⟩

theorem exists_placements (h : planner.plan = .ok planning) : ∃ wanted estimate all,
    select planner.toLowerCase planner.catalogue planner.effective = .ok (wanted, estimate) ∧
    planner.placements wanted = .ok all ∧ planning = planner.planning estimate all := by
  simp only [plan] at h
  cases hselect : select planner.toLowerCase planner.catalogue planner.effective with
  | error refusal => rw [hselect] at h; cases h
  | ok selection =>
    rw [hselect] at h
    simp only [bind, Except.bind] at h
    split at h
    · cases h
    · next all hall =>
      exact ⟨selection.1, selection.2, all, rfl, hall, (Except.ok.inj h).symm⟩

/-- **A plan that comes to an end ran.** -/
theorem exists_ran (h : planner.plan = .ok planning) : ∃ all, Ran planner planning all := by
  obtain ⟨wanted, estimate, all, hselect, hall, rfl⟩ := exists_placements h
  exact ⟨all, ran_of_placements hselect hall⟩

end Planner

/-! ### A gateway with one library -/

/-- A file nothing is known of but its path and its version. -/
def fileAt (path : Dir) (contentId : Option String) : MediaFile where
  path := some path
  size := 0
  videoCodec := none
  width := none
  height := none
  durationMs := none
  bitrate := none
  contentId := contentId
  checksum := none
  edition := none

def ourDune : MediaItem :=
  { dune "ours" "home" "tt1160419" none with
    file := some (fileAt ["films", "Dune (2021)", "Dune.mkv"] (some "v1:a")) }

def theirDune (id contentId : String) : MediaItem :=
  { dune id "away" "tt1160419" none with
    file := some (fileAt ["movies", id, "Dune.mkv"] (some contentId)) }

def ourServer (rootMappings : List RootMapping) : MediaService where
  id := "home"
  name := "Home"
  peerId := none
  filesMounted := true
  rootMappings := rootMappings

def theirServer : MediaService where
  id := "away"
  name := "Away"
  peerId := none
  filesMounted := false
  rootMappings := []

def ourFilms (reported : Dir) : Library where
  id := "home-films"
  name := "Films"
  serviceId := "home"
  kind := .MOVIES
  paths := [reported]
  localPath := some ["films"]
  writable := true
  isDefaultTarget := false

def correlated (id : ℕ) (ours theirs : String) : Correlation.MediaMatch where
  id := id
  localItemId := some ours
  remoteItemId := theirs
  remoteServiceId := "away"
  remotePeerId := none
  strategy := .EXTERNAL_ID
  confidence := 1
  state := .IN_SYNC
  reason := none
  confirmedAt := none

/-- Nothing is configured, and a file keeps the name it has. -/
def plainSettings : PlanSettings where
  placement := .DEFAULT_LIBRARY
  fixedPath := none
  categoryTargets := []
  defaultTargetLibraryId := none
  defaultTargetPath := none
  namingOrder := [.SOURCE]
  diskReserveBytes := 0

def diskWith (files : List Dir) : Placement.Disk where
  existsAt := fun dir => files.any fun file => dir.isPrefixOf file
  writable := fun _ => true
  freeBytes := fun _ => none

end MediaCenterSync.Planning
