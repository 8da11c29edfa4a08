import MediaCenterSync.Planning.Correct.Direct

/-!
# What a media server calls its own folders

A plan is the same whether our servers report paths of their own or the gateway's, as long as every
copy we hold of what is pulled is reported under the gateway's path (`independent_iff`): a sibling
is looked up under the path the gateway reaches it at, and a copy under the path its server reports.
-/

namespace MediaCenterSync.Planning

open TransferManager (Dir)

namespace Catalogue.Direct

variable {catalogue other : Catalogue} (h : catalogue.Direct other)

include h

/-! ### Where things are -/

theorem allPlacementLibraries : other.libraries.map other.placementLibrary =
    catalogue.libraries.map catalogue.placementLibrary := by
  have hboth := congrArg (List.map Prod.snd) h.libraries
  rwa [List.map_map, List.map_map] at hboth

theorem placementLibraries : other.placementLibraries = catalogue.placementLibraries := by
  have hboth := congrArg (fun libraries => (libraries.filter fun
    one : Library × Placement.PlacementLibrary =>
      one.1.serviceId ∈ catalogue.findLocal.map (·.id)).map Prod.snd) h.libraries
  simp only [List.filter_map, List.map_map] at hboth
  unfold Catalogue.placementLibraries
  rw [h.localIds]
  exact hboth

theorem categoryKeyOf (libraryId : String) :
    other.categoryKeyOf libraryId = catalogue.categoryKeyOf libraryId := by
  unfold Catalogue.categoryKeyOf
  rw [h.categories]

theorem serviceName (id : String) : (other.services.find? (·.id = id)).map (·.name) =
    (catalogue.services.find? (·.id = id)).map (·.name) := by
  have hnames := congrArg (fun services =>
    (services.find? fun service : MediaService => service.id = id).map (·.name)) h.services
  simp only [List.find?_map, Option.map_map] at hnames
  exact hnames

/-! ### Rows above others -/

theorem parentOf (item : MediaItem) :
    other.parentOf (catalogue.direct item) = (catalogue.parentOf item).map catalogue.direct := by
  unfold Catalogue.parentOf
  rw [direct_parentId]
  cases item.parentId with
  | none => rfl
  | some id => exact h.find id

theorem ancestry (depth : ℕ) (item : MediaItem) :
    other.ancestry depth (catalogue.direct item) =
      (catalogue.ancestry depth item).map catalogue.direct := by
  induction depth generalizing item with
  | zero => rfl
  | succ depth ih =>
    rw [Catalogue.ancestry, Catalogue.ancestry, h.parentOf, List.map_cons]
    cases catalogue.parentOf item with
    | none => rfl
    | some parent => exact congrArg _ (ih parent)

theorem seriesFacts (item : MediaItem) :
    Planning.seriesFacts other (catalogue.direct item) = Planning.seriesFacts catalogue item := by
  unfold Planning.seriesFacts
  rw [direct_kind, h.parentOf]
  cases catalogue.parentOf item with
  | none => rfl
  | some season =>
    simp only [Option.map_some, Option.bind_some, h.parentOf]
    cases catalogue.parentOf season <;> rfl

theorem siblingKey (normalize : String → String) (item : MediaItem) :
    Planning.siblingKey other normalize (catalogue.direct item) =
      Planning.siblingKey catalogue normalize item := by
  unfold Planning.siblingKey
  rw [h.seriesFacts, direct_kind, direct_normalizedTitle]

theorem spread (root : String) (depth : ℕ) (lots : List (String × String))
    (frontier : List String) :
    other.spread root depth lots frontier = catalogue.spread root depth lots frontier := by
  induction depth generalizing lots frontier with
  | zero => rfl
  | succ depth ih =>
    unfold Catalogue.spread
    simp only [h.childIds, ih]

theorem lotFromParents (item : MediaItem) :
    other.lotFromParents (catalogue.direct item) = catalogue.lotFromParents item := by
  unfold Catalogue.lotFromParents
  rw [h.parentOf, Option.map_map]
  congr 1
  funext parent
  rw [Function.comp_apply, h.parentOf]
  cases catalogue.parentOf parent <;> rfl

theorem lotOf (scope : SyncScope) (item : MediaItem) :
    other.lotOf scope (catalogue.direct item) = catalogue.lotOf scope item := by
  unfold Catalogue.lotOf rootLots
  simp only [h.lotFromParents, h.spread, h.length_items, direct_id]

/-! ### Siblings -/

theorem visit (walk : Walk) {child : MediaItem} (hchild : child ∈ catalogue.items) :
    walk.visit other (catalogue.direct child) = walk.visit catalogue child := by
  unfold Walk.visit
  rw [h.gatewayPath child hchild, direct_parentId, direct_id]

theorem level (walk : Walk) : walk.level other = walk.level catalogue := by
  unfold Walk.level
  rw [h.childrenOf, List.foldl_map]
  exact List.foldl_ext _ _ _ fun walk child hchild => h.visit walk (List.mem_of_mem_filter hchild)

theorem fileUnder (containers : List MediaItem) :
    Planning.fileUnder other (containers.map catalogue.direct) =
      Planning.fileUnder catalogue containers := by
  unfold Planning.fileUnder
  simp only [h.level, List.map_map]
  rfl

/-- **The same files are imitated**: they are looked up under the gateway's own paths. -/
theorem localSiblings (normalize : String → String) (items : List MediaItem) :
    Planning.localSiblings other normalize (items.map catalogue.direct) =
      Planning.localSiblings catalogue normalize items := by
  unfold Planning.localSiblings
  have hkeys : (items.map catalogue.direct).map (Planning.siblingKey other normalize) =
      items.map (Planning.siblingKey catalogue normalize) := by
    rw [List.map_map]
    exact List.map_congr_left fun item _ => h.siblingKey normalize item
  have hcontainer (row : MediaItem) :
      decide ((catalogue.direct row).file = none) = decide (row.file = none) := by
    simp only [← Option.isNone_iff_eq_none, ← Option.not_isSome, direct_file, isSome_directFile]
  dsimp only
  rw [hkeys]
  set titles := (items.map (Planning.siblingKey catalogue normalize)).filter (· ≠ "")
  have hrows : other.items.filter (fun row =>
        decide (row.normalizedTitle ∈ titles ∧ other.isLocal row)) =
      (catalogue.items.filter fun row =>
        decide (row.normalizedTitle ∈ titles ∧ catalogue.isLocal row)).map catalogue.direct := by
    rw [h.items, List.filter_map]
    simp only [Function.comp_def, h.isLocal, direct_normalizedTitle]
  rw [hrows, List.filterMap_map, List.filter_map]
  congr 1
  · refine List.filterMap_congr fun row hrow => ?_
    have hitem := List.mem_of_mem_filter hrow
    rw [Function.comp_apply, h.gatewayPath row hitem, direct_normalizedTitle]
  · rw [h.fileUnder]
    simp only [Function.comp_def, hcontainer]

end Catalogue.Direct

/-! ### A plan -/

namespace Planner

variable (planner : Planner) (other : Catalogue)

/-- The same plan, of another catalogue. -/
@[simps] def under : Planner := { planner with catalogue := other }

/-- **A copy of ours is recognised**: it is beside it, and over it, that the file is put, and its
folders are imitated. -/
def Recognises : Prop :=
  ∀ siblings placed entry held path, planner.AboutToPlace siblings placed entry →
    entry.heldAs = some held → planner.catalogue.gatewayPath held = some path →
    (planner.request siblings placed entry).existingPath = some path ∧
      (planner.request siblings placed entry).replacesPath = some path ∧
      planner.siblingPath siblings entry = some path

/-- **What a media server calls its own folders is nothing to a plan.** -/
def Independent : Prop := (planner.under other).plan = planner.plan ∧ planner.Recognises

variable {planner other} {siblings : List (String × Dir)} {placed : List Placed}
  {entry : WantedItem}

section

variable (h : planner.catalogue.Direct other)

include h

theorem nameable_under {item : MediaItem} (hitem : planner.catalogue.direct item = item) :
    (planner.under other).nameable item = planner.nameable item := by
  have hfacts : seriesFacts other item = seriesFacts planner.catalogue item := by
    rw [← h.seriesFacts, hitem]
  unfold nameable
  rw [under_catalogue, hfacts]

theorem folderOf_under {item : MediaItem} (hitem : planner.catalogue.direct item = item) :
    (planner.under other).folderOf item = planner.folderOf item := by
  have hfolders : (other.ancestry ANCESTOR_DEPTH item).map (·.targetFolder) =
      (planner.catalogue.ancestry ANCESTOR_DEPTH item).map (·.targetFolder) := by
    conv_lhs => rw [← hitem]
    rw [h.ancestry, List.map_map]
    rfl
  unfold folderOf
  rw [under_catalogue, hfolders]

theorem lotOf_under {item : MediaItem} (hitem : planner.catalogue.direct item = item)
    (scope : SyncScope) : other.lotOf scope item = planner.catalogue.lotOf scope item := by
  rw [← h.lotOf, hitem]

theorem siblingPath_under (hitem : planner.catalogue.direct entry.item = entry.item) :
    (planner.under other).siblingPath siblings entry = planner.siblingPath siblings entry := by
  have hkey : siblingKey other (planner.under other).normalize entry.item =
      siblingKey planner.catalogue planner.normalize entry.item := by
    rw [← h.siblingKey, hitem]
    rfl
  unfold siblingPath
  rw [under_catalogue, hkey]

/-- An item whose copy is reported under the gateway's path asks for the same. -/
theorem request_under (hitem : planner.catalogue.direct entry.item = entry.item) :
    (planner.under other).request siblings placed entry =
      planner.request siblings placed entry := by
  unfold request
  simp only [under_catalogue, under_effective, under_settings, h.placementLibraries,
    h.categoryKeyOf, lotOf_under h hitem, nameable_under h hitem, folderOf_under h hitem,
    siblingPath_under h hitem]
  rfl

theorem place_under (hitem : planner.catalogue.direct entry.item = entry.item) :
    (planner.under other).place siblings placed entry = planner.place siblings placed entry := by
  unfold place
  rw [request_under h hitem, under_disk, under_catalogue, under_effective, lotOf_under h hitem]

/-- Items that are reported alike, up to where the plan gets, are placed alike. -/
theorem placeAll_under {entries : List WantedItem}
    (hentries : ∀ before entry after all, entries = before ++ entry :: after →
      planner.placeAll siblings placed before = .ok all →
      planner.catalogue.directWanted entry = entry) :
    (planner.under other).placeAll siblings placed (entries.map planner.catalogue.directWanted) =
      planner.placeAll siblings placed entries := by
  induction entries generalizing placed with
  | nil => rfl
  | cons entry rest ih =>
    have hentry := hentries [] entry rest placed rfl rfl
    have hitem : planner.catalogue.direct entry.item = entry.item :=
      congrArg WantedItem.item hentry
    rw [List.map_cons, hentry, placeAll, placeAll, place_under h hitem]
    cases hplace : planner.place siblings placed entry with
    | error refusal => rfl
    | ok next =>
      refine ih fun before one after all hrest hall => ?_
      refine hentries (entry :: before) one after all (congrArg (entry :: ·) hrest) ?_
      rw [placeAll, hplace]
      exact hall

theorem plannedItem_under {one : Placed}
    (hitem : planner.catalogue.direct one.entry.item = one.entry.item) :
    (planner.under other).plannedItem one = planner.plannedItem one := by
  unfold plannedItem
  simp only [under_catalogue, nameable_under h hitem, h.serviceName]

theorem planning_under (estimate : SyncEstimate) {all : List Placed}
    (hall : ∀ one ∈ all, planner.catalogue.direct one.entry.item = one.entry.item) :
    (planner.under other).planning estimate all = planner.planning estimate all := by
  have hlines : all.map (planner.under other).plannedItem = all.map planner.plannedItem :=
    List.map_congr_left fun one hone => plannedItem_under h (hall one hone)
  unfold planning
  rw [hlines]
  simp only [under_catalogue, under_effective, under_settings, under_disk, h.placementLibraries,
    h.allPlacementLibraries]

end

/-- What is pulled is on another server, and is left alone. -/
theorem direct_of_select {wanted : List WantedItem} {estimate : SyncEstimate}
    (hselect : select planner.toLowerCase planner.catalogue planner.effective
      = .ok (wanted, estimate)) (hentry : entry ∈ wanted) :
    planner.catalogue.direct entry.item = entry.item :=
  Catalogue.direct_eq_self fun hlocal => absurd hlocal (not_isLocal_of_select hselect hentry)

theorem plan_under (h : planner.catalogue.Direct other)
    (hself : ∀ siblings placed entry, planner.AboutToPlace siblings placed entry →
      planner.catalogue.directWanted entry = entry) :
    (planner.under other).plan = planner.plan := by
  have hselected : select (planner.under other).toLowerCase other planner.effective =
      (select planner.toLowerCase planner.catalogue planner.effective).map
        fun selection => (selection.1.map planner.catalogue.directWanted, selection.2) :=
    h.select ..
  unfold plan
  rw [under_effective, under_catalogue, hselected]
  cases hselect : select planner.toLowerCase planner.catalogue planner.effective with
  | error refusal => rfl
  | ok selection =>
    obtain ⟨wanted, estimate⟩ := selection
    have hplacements : (planner.under other).placements
        (wanted.map planner.catalogue.directWanted) = planner.placements wanted := by
      have hsiblings : localSiblings other (planner.under other).normalize
          (((wanted.map planner.catalogue.directWanted).take MAX_PLANNED_ITEMS).map (·.item)) =
          localSiblings planner.catalogue planner.normalize
            ((wanted.take MAX_PLANNED_ITEMS).map (·.item)) := by
        have hsame := h.localSiblings planner.normalize
          ((wanted.take MAX_PLANNED_ITEMS).map (·.item))
        rw [← List.map_take, ← hsame, List.map_map, List.map_map]
        rfl
      unfold placements
      dsimp only
      rw [under_catalogue, hsiblings, ← List.map_take]
      exact placeAll_under h fun before entry after all htake hall =>
        hself _ all entry ⟨wanted, estimate, before, after, hselect, htake, rfl, hall⟩
    simp only [Except.map, bind, Except.bind, hplacements]
    cases hall : planner.placements wanted with
    | error refusal => rfl
    | ok all =>
      refine congrArg Except.ok (planning_under h estimate fun one hone => ?_)
      obtain ⟨later, rfl, hentries⟩ := placeAll_eq_ok hall
      have hone : one.entry ∈ wanted.take MAX_PLANNED_ITEMS :=
        hentries ▸ List.mem_map_of_mem hone
      exact direct_of_select hselect (List.mem_of_mem_take hone)

/-- **A plan does not depend on what a media server calls its own folders** exactly when every copy
we hold of what it places is reported under the path the gateway reaches it at. -/
theorem independent_iff (h : planner.catalogue.Direct other) :
    planner.Independent other ↔ ∀ siblings placed entry held path,
      planner.AboutToPlace siblings placed entry → entry.heldAs = some held →
      planner.catalogue.gatewayPath held = some path → held.file.bind (·.path) = some path := by
  constructor
  · rintro ⟨-, hrecognises⟩ siblings placed entry held path habout hheld hpath
    obtain ⟨hexisting, -, -⟩ := hrecognises siblings placed entry held path habout hheld hpath
    rw [request, hheld, Option.bind_some] at hexisting
    exact hexisting
  · intro hreported
    refine ⟨plan_under h fun siblings placed entry habout => ?_, ?_⟩
    · obtain ⟨wanted, estimate, before, after, hselect, htake, -, -⟩ := id habout
      have hentry : entry ∈ wanted :=
        List.mem_of_mem_take (htake ▸ List.mem_append_right _ (List.mem_cons_self ..))
      have hheld : entry.heldAs.map planner.catalogue.direct = entry.heldAs := by
        cases hheld : entry.heldAs with
        | none => rfl
        | some held =>
          refine congrArg some (Catalogue.direct_eq_self fun _ path hpath => ?_)
          exact hreported siblings placed entry held path habout hheld hpath
      rw [Catalogue.directWanted, direct_of_select hselect hentry, hheld]
    · intro siblings placed entry held path habout hheld hpath
      have hfile := hreported siblings placed entry held path habout hheld hpath
      obtain ⟨file, hheldFile, hfilePath⟩ := Option.bind_eq_some_iff.mp hfile
      refine ⟨?_, ?_, ?_⟩
      · rw [request, hheld]
        exact hfile
      · rw [request, hheld]
        exact hfile
      · rw [siblingPath, hheld, Option.bind_some, hheldFile]
        exact hfilePath

/-! ### One film, under two names for its folder -/

def ourDuneUnder (reported : Dir) : MediaItem :=
  { ourDune with
    file := some (fileAt (reported ++ ["Dune (2021)", "Dune.mkv"]) (some "v1:a")) }

/-- Another version of the film is pulled, whether it is held or not. -/
def dunesUnder (reported : Dir) (matchRows : List Correlation.MediaMatch) : Planner where
  catalogue :=
    { items := [ourDuneUnder reported, theirDune "theirs" "v1:b"]
      services := [ourServer [⟨reported, ["films"]⟩], theirServer]
      libraries := [ourFilms reported]
      categories := []
      matchRows := matchRows
      nodup := by
        show ["ours", "theirs"].Nodup
        decide }
  effective := { everything with filter := { everything.filter with includeHeld := true } }
  settings := plainSettings
  disk := diskWith [["films", "Dune (2021)", "Dune.mkv"]]
  normalize := id
  toLowerCase := id

theorem direct_dunesUnder (matchRows : List Correlation.MediaMatch) :
    (dunesUnder ["media"] matchRows).catalogue.Direct
      (dunesUnder ["films"] matchRows).catalogue where
  items := rfl
  services := rfl
  libraries := rfl
  categories := rfl
  matchRows := rfl
  gatewayPath := by
    intro row hrow
    rcases List.mem_pair.mp hrow with rfl | rfl <;> rfl

/-- Another film, under the name its server has for the folder. -/
def arrival (id serviceId : String) (path : Dir) (contentId : String) : MediaItem :=
  { dune id serviceId "tt2543164" none with
    title := "Arrival"
    normalizedTitle := "arrival"
    file := some (fileAt path (some contentId)) }

/-- Other versions of both are pulled: of one we hold a copy, reported under the gateway's path. -/
def filmsUnder (reported : Dir) : Planner where
  catalogue :=
    { items := [ourDune,
        arrival "arrival" "home" (reported ++ ["Arrival (2016)", "Arrival.mkv"]) "v1:c",
        theirDune "theirs" "v1:b", arrival "other" "away" ["movies", "Arrival.mkv"] "v1:d"]
      services := [ourServer [⟨reported, ["films"]⟩], theirServer]
      libraries := [{ ourFilms reported with paths := [["films"], reported] }]
      categories := []
      matchRows := [correlated 1 "ours" "theirs"]
      nodup := by
        show ["ours", "arrival", "theirs", "other"].Nodup
        decide }
  effective := { everything with filter := { everything.filter with includeHeld := true } }
  settings := plainSettings
  disk := diskWith [["films", "Dune (2021)", "Dune.mkv"], ["films", "Arrival (2016)", "Arrival.mkv"]]
  normalize := id
  toLowerCase := id

theorem direct_filmsUnder :
    (filmsUnder ["media"]).catalogue.Direct (filmsUnder ["films"]).catalogue where
  items := rfl
  services := rfl
  libraries := rfl
  categories := rfl
  matchRows := rfl
  gatewayPath := by decide

/-- The folder of the copy is imitated, and that of the film reported elsewhere. -/
theorem independent_iff_twoFilms :
    (filmsUnder ["media"]).plan.toOption.map (fun planning =>
        planning.items.map (·.targetPath)) =
        some [["films", "Dune (2021)", "Dune.mkv"], ["films", "Arrival (2016)", "Arrival - 2.mkv"]] ∧
      (filmsUnder ["media"]).Independent (filmsUnder ["films"]).catalogue := by
  have hheld : ∀ selection ∈ (select id (filmsUnder ["media"]).catalogue
      (filmsUnder ["media"]).effective).toOption,
      ∀ entry ∈ selection.1, ∀ held ∈ entry.heldAs, ∀ path ∈
        (filmsUnder ["media"]).catalogue.gatewayPath held,
          held.file.bind (·.path) = some path := by
    decide +kernel
  refine ⟨by decide +kernel, (independent_iff direct_filmsUnder).mpr ?_⟩
  intro siblings placed entry held path habout hcopy hpath
  obtain ⟨wanted, hselect⟩ : ∃ wanted, select id (filmsUnder ["media"]).catalogue
      (filmsUnder ["media"]).effective = .ok wanted := ⟨_, rfl⟩
  exact hheld wanted (by rw [hselect]; rfl) entry (habout.mem_wanted hselect) held hcopy path hpath

/-- **A copy of ours is not recognised** under the name its server has for its folder. -/
theorem not_independent_correlated :
    (dunesUnder ["media"] [correlated 1 "ours" "theirs"]).catalogue.Direct
        (dunesUnder ["films"] [correlated 1 "ours" "theirs"]).catalogue ∧
      (dunesUnder ["media"] [correlated 1 "ours" "theirs"]).plan.toOption.map (fun planning =>
        planning.items.map (·.targetPath)) = some [["films", "Dune", "Dune.mkv"]] ∧
      (dunesUnder ["films"] [correlated 1 "ours" "theirs"]).plan.toOption.map (fun planning =>
        planning.items.map (·.targetPath)) = some [["films", "Dune (2021)", "Dune.mkv"]] ∧
      ¬ (dunesUnder ["media"] [correlated 1 "ours" "theirs"]).Independent
        (dunesUnder ["films"] [correlated 1 "ours" "theirs"]).catalogue := by
  have hmedia : (dunesUnder ["media"] [correlated 1 "ours" "theirs"]).plan.toOption.map
      (fun planning => planning.items.map (·.targetPath)) = some [["films", "Dune", "Dune.mkv"]] :=
    rfl
  have hfilms : (dunesUnder ["films"] [correlated 1 "ours" "theirs"]).plan.toOption.map
      (fun planning => planning.items.map (·.targetPath)) =
        some [["films", "Dune (2021)", "Dune.mkv"]] := rfl
  refine ⟨direct_dunesUnder _, hmedia, hfilms, fun ⟨hplan, _⟩ => ?_⟩
  -- the other planner is the same but for its catalogue
  have hsame : (dunesUnder ["films"] [correlated 1 "ours" "theirs"]).plan =
      (dunesUnder ["media"] [correlated 1 "ours" "theirs"]).plan := hplan
  rw [hsame, hmedia] at hfilms
  revert hfilms
  decide

end Planner

end MediaCenterSync.Planning
