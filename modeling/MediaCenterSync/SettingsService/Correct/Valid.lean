import MediaCenterSync.SettingsService.Correct.Service

/-!
# What a check accepts and what a read repairs

Two passes decide what a valid setting is: `validate` refuses, `clamp` repairs.

* `validate_eq_self_iff`: settings are accepted as they are when every text is normalised and every
  check passes, field by field but for the path a fixed placement needs.
* `unlocked_iff`: what is read of a table is accepted as it is, and no field is refused for another,
  exactly when the placement that is stored can be executed and the target path that is stored has no
  white space before its trailing slashes (`Table.Usable`); and what was accepted is read back exactly
  when every field has a value of its shape and the target path is such a one (`Storable`).

The placement is checked and not repaired, so a bad row of it is held against every other field
(`not_unlocked_fixedPath`).
-/

namespace MediaCenterSync.SettingsService

open Quality (trim trim_trim)
open Service (only oneUrl originsParse_oneUrl emptyTable)

/-! ### Target paths -/

def UsablePath (path : String) : Prop :=
  isAbsolute (trim path) ∧ ['.', '.'] ∉ (trim path).toList.splitOn '/' ∧
    Char.ofNat 0 ∉ (trim path).toList

instance (path : String) : Decidable (UsablePath path) := inferInstanceAs (Decidable (_ ∧ _))

theorem trim_ne_of_usable {path : String} (h : UsablePath path) : trim path ≠ "" := by
  intro hempty
  have habsolute := h.1
  rw [hempty] at habsolute
  revert habsolute
  decide

theorem normaliseTargetPath_of_usable {path : String} (h : UsablePath path) :
    normaliseTargetPath (some path) = .ok (some (withoutSlashes (trim path))) := by
  have hcleared : cleared (some path) = some (trim path) := by
    rw [cleared, Option.bind_some, if_neg (trim_ne_of_usable h)]
  rw [normaliseTargetPath, hcleared]
  dsimp only
  rw [if_neg]
  rintro (habsolute | hdots | hnul)
  · rw [h.1] at habsolute
    cases habsolute
  · exact h.2.1 hdots
  · exact h.2.2 hnul

theorem usable_of_normaliseTargetPath {path : String} {text : Option String}
    (h : normaliseTargetPath (some path) = .ok text) :
    UsablePath path ∨ trim path = "" ∧ text = none := by
  by_cases hblank : trim path = ""
  · have hcleared : cleared (some path) = none := by
      rw [cleared, Option.bind_some, if_pos hblank]
    rw [normaliseTargetPath, hcleared] at h
    exact .inr ⟨hblank, (Except.ok.inj h).symm⟩
  · have hcleared : cleared (some path) = some (trim path) := by
      rw [cleared, Option.bind_some, if_neg hblank]
    rw [normaliseTargetPath, hcleared] at h
    dsimp only at h
    split at h
    · cases h
    · next hok =>
      simp only [Bool.not_eq_true', not_or, Bool.not_eq_false] at hok
      exact .inl hok

theorem trim_sublist (text : String) : (trim text).toList.Sublist text.toList := by
  rw [trim, String.toList_ofList]
  exact (List.rdropWhile_prefix ..).sublist.trans (List.dropWhile_suffix _).sublist

/-- A usable path that was normalised is normalised only when it is tidy: what another pass would
trim is gone for good. -/
theorem tidy_of_again {path : String}
    (hagain : normaliseTargetPath (some (withoutSlashes (trim path))) =
      .ok (some (withoutSlashes (trim path)))) : Tidy path := by
  set left := withoutSlashes (trim path) with hleft
  rcases usable_of_normaliseTargetPath hagain with husable | ⟨-, hnone⟩
  · have hsecond := normaliseTargetPath_of_usable husable
    rw [hagain] at hsecond
    have hsame : left = withoutSlashes (trim left) := Option.some.inj (Except.ok.inj hsecond)
    obtain ⟨slashes, hsplit, -⟩ := toList_withoutSlashes husable.1
    have hprefix : left.toList.Sublist (trim left).toList := by
      rw [hsplit, ← hsame]
      exact List.sublist_append_left _ _
    exact String.toList_inj.mp ((trim_sublist left).antisymm hprefix)
  · cases hnone

theorem tidy_of_accepted {path : String} {text : Option String}
    (h : normaliseTargetPath (some path) = .ok text) (htidy : UsablePath path → Tidy path) :
    Tidy path := by
  rcases usable_of_normaliseTargetPath h with husable | ⟨hblank, -⟩
  · exact htidy husable
  · rw [Tidy, hblank]
    decide

/-! ### What is accepted -/

section

variable {newUrl : String → Option Url} {candidate next s : Settings}

theorem checkBounds_eq_ok_iff : checkBounds s = .ok s ↔ checkFixedPath s = .ok () ∧
    checkPlacement s = .ok () ∧ checkOrder s = .ok () ∧
      ∀ entry ∈ NUMERIC_BOUNDS, checkNumber s entry = .ok () := by
  unfold checkBounds
  simp only [Fallible.bind_eq_ok]
  constructor
  · rintro ⟨⟨⟩, hpath, ⟨⟩, hplacement, ⟨⟩, horder, ⟨⟩, hnumbers, -⟩
    exact ⟨hpath, hplacement, horder, Fallible.forM_eq_ok.mp hnumbers⟩
  · rintro ⟨hpath, hplacement, horder, hnumbers⟩
    exact ⟨⟨⟩, hpath, ⟨⟩, hplacement, ⟨⟩, horder, ⟨⟩, Fallible.forM_eq_ok.mpr hnumbers, rfl⟩

theorem eq_of_normalise {field : Field} {value value' : Option Json}
    (h : normalise newUrl field value = .ok value') (hplain : TEXT_NORMALISERS newUrl field = none) :
    value' = value := by
  rw [normalise, hplain] at h
  exact (Except.ok.inj h).symm

/-- **What a check does**: every text is normalised, and what comes of it is within its bounds. -/
theorem validate_eq_ok_iff : validate newUrl candidate = .ok next ↔
    (∀ field, normalise newUrl field (candidate field) = .ok (next field)) ∧
      checkBounds next = .ok next := by
  constructor
  · intro h
    refine ⟨(normalise_of_validate h).1, ?_⟩
    obtain ⟨publicUrl, -, h⟩ := Fallible.bind_eq_ok.mp h
    obtain ⟨path, -, h⟩ := Fallible.bind_eq_ok.mp h
    obtain ⟨library, -, h⟩ := Fallible.bind_eq_ok.mp h
    obtain ⟨rfl, -⟩ := inBounds_of_checkBounds h
    exact h
  · rintro ⟨hnormal, hbounds⟩
    refine Fallible.bind_eq_ok.mpr ⟨_, hnormal .publicUrl, ?_⟩
    refine Fallible.bind_eq_ok.mpr ⟨_, hnormal .defaultTargetPath, ?_⟩
    refine Fallible.bind_eq_ok.mpr ⟨_, hnormal .defaultTargetLibraryId, ?_⟩
    refine Eq.trans (congrArg checkBounds (funext fun key => ?_)) hbounds
    cases key with
    | publicUrl | defaultTargetPath | defaultTargetLibraryId => rfl
    | _ => exact (eq_of_normalise (hnormal _) rfl).symm

theorem validate_eq_self_iff :
    validate newUrl s = .ok s ↔ Settled newUrl s ∧ checkBounds s = .ok s :=
  validate_eq_ok_iff

/-! Each check looks at its own fields only. -/

theorem checkFixedPath_congr (hplacement : s .placement = next .placement)
    (hpath : s .fixedPath = next .fixedPath) : checkFixedPath s = checkFixedPath next := by
  rw [checkFixedPath, checkFixedPath, hplacement, hpath]

theorem checkPlacement_congr (h : s .placement = next .placement) :
    checkPlacement s = checkPlacement next := by
  rw [checkPlacement, checkPlacement, h]

theorem checkOrder_congr (h : s .namingOrder = next .namingOrder) :
    checkOrder s = checkOrder next := by
  rw [checkOrder, checkOrder, h]

theorem checkNumber_congr {entry : Field × Bounds} (h : s entry.1 = next entry.1) :
    checkNumber s entry = checkNumber next entry := by
  rw [checkNumber, checkNumber, h]

/-- A value that some settings are accepted with.  The placement and the fixed path go together, so a
value of the one has to go with what there is of the other. -/
structure ValidFor (newUrl : String → Option Url) (s : Settings) (field : Field) (value : Json) :
    Prop where
  accepted : ∃ t next, validate newUrl t = .ok next ∧ t field = some value
  tied : field = .placement ∨ field = .fixedPath →
    checkFixedPath (spread s (only field value)) = .ok ()

theorem spread_only_same (field : Field) (value : Json) :
    spread s (only field value) field = some value := by
  simp [spread, only]

theorem spread_only_of_ne {field key : Field} (h : key ≠ field) (value : Json) :
    spread s (only field value) key = s key := by
  simp [spread, only, h]

/-- **A valid value is not refused for another field** when what there is would be accepted. -/
theorem prepare_only {pins : Pins} {field : Field} {value : Json}
    (hs : validate newUrl s = .ok s) (hpin : pins.value field = none)
    (hvalue : ValidFor newUrl s field value) :
    ∃ next, prepare newUrl pins (only field value) s = .ok next := by
  obtain ⟨hsettled, hbounds⟩ := validate_eq_self_iff.mp hs
  obtain ⟨hpath, hplacement, horder, hnumbers⟩ := checkBounds_eq_ok_iff.mp hbounds
  obtain ⟨⟨t, t', ht, htvalue⟩, htied⟩ := hvalue
  obtain ⟨htnormal, htbounds⟩ := validate_eq_ok_iff.mp ht
  obtain ⟨-, htplacement, htorder, htnumbers⟩ := checkBounds_eq_ok_iff.mp htbounds
  -- Only this field is new: every other check is one the settings passed.
  let next : Settings := fun key => if key = field then t' key else s key
  have hsame : ∀ key, key = field → next key = t' key := fun key h => if_pos h
  have hother : ∀ key, key ≠ field → next key = s key := fun key h => if_neg h
  have hnormal : ∀ key, normalise newUrl key (spread s (only field value) key) = .ok (next key) := by
    intro key
    by_cases hkey : key = field
    · subst hkey
      rw [spread_only_same, hsame key rfl, ← htvalue]
      exact htnormal key
    · rw [spread_only_of_ne hkey, hother key hkey]
      exact hsettled key
  have hplain : ∀ key, TEXT_NORMALISERS newUrl key = none →
      next key = spread s (only field value) key := fun key h => eq_of_normalise (hnormal key) h
  refine ⟨next, Fallible.bind_eq_ok.mpr ⟨⟨⟩, ?_, validate_eq_ok_iff.mpr ⟨hnormal, ?_⟩⟩⟩
  · refine Fallible.forM_eq_ok.mpr fun key hkey => ?_
    have hpinned : (pins.value key).isSome := by simpa using (List.mem_filter.mp hkey).2
    have hne : key ≠ field := by
      rintro rfl
      rw [hpin] at hpinned
      cases hpinned
    rw [checkPin, only, if_neg hne]
    rfl
  · refine checkBounds_eq_ok_iff.mpr ⟨?_, ?_, ?_, fun entry hentry => ?_⟩
    · rw [checkFixedPath_congr (hplain .placement rfl) (hplain .fixedPath rfl)]
      -- The one check that reads two fields.
      by_cases htie : field = .placement ∨ field = .fixedPath
      · exact htied htie
      · rw [not_or] at htie
        rw [checkFixedPath_congr (spread_only_of_ne (Ne.symm htie.1) value)
          (spread_only_of_ne (Ne.symm htie.2) value)]
        exact hpath
    · by_cases hkey : Field.placement = field
      · rw [checkPlacement_congr (hsame _ hkey)]
        exact htplacement
      · rw [checkPlacement_congr (hother _ hkey)]
        exact hplacement
    · by_cases hkey : Field.namingOrder = field
      · rw [checkOrder_congr (hsame _ hkey)]
        exact htorder
      · rw [checkOrder_congr (hother _ hkey)]
        exact horder
    · by_cases hkey : entry.1 = field
      · rw [checkNumber_congr (hsame _ hkey)]
        exact htnumbers entry hentry
      · rw [checkNumber_congr (hother _ hkey)]
        exact hnumbers entry hentry

end

/-! ### What is read of a table -/

theorem default_inBounds : ∀ entry ∈ NUMERIC_BOUNDS, ∃ n, DEFAULT_SETTINGS entry.1 = .number n ∧
    entry.2.min ≤ n ∧ n ≤ entry.2.max := by
  simp only [NUMERIC_BOUNDS, List.forall_mem_cons, List.not_mem_nil, false_imp_iff, implies_true,
    and_true, DEFAULT_SETTINGS, Json.number.injEq, exists_eq_left', MAX_SAFE_INTEGER,
    DEFAULT_PEER_MAX_DEPTH, MAX_PEER_MAX_DEPTH]
  norm_num

theorem boundsOf_of_mem {field : Field} {bounds : Bounds} (h : (field, bounds) ∈ NUMERIC_BOUNDS) :
    boundsOf field = some bounds :=
  (Fallible.lookup_eq_some_iff_mem (by decide) field bounds).mpr h

section

variable {newUrl : String → Option Url} {pins : Pins} {table : Table}

theorem clampField_number {field : Field} {bounds : Bounds}
    (h : (field, bounds) ∈ NUMERIC_BOUNDS) (value : Option Json) :
    ∃ n, clampField newUrl field value = some (.number n) ∧ bounds.min ≤ n ∧ n ≤ bounds.max := by
  obtain ⟨n, hn, hmin, hmax⟩ := default_inBounds _ h
  unfold clampField
  rw [boundsOf_of_mem h]
  dsimp only
  split
  · split_ifs
    · exact ⟨_, rfl, le_min (le_max_right ..) (hmin.trans hmax), min_le_right ..⟩
    · exact ⟨n, congrArg some hn, hmin, hmax⟩
  · exact ⟨n, congrArg some hn, hmin, hmax⟩

theorem resolvePins_inBounds {maxDepth : Option ℚ} {field : Field} {value : Json} {bounds : Bounds}
    (hpin : (resolvePins maxDepth).value field = some value)
    (h : (field, bounds) ∈ NUMERIC_BOUNDS) :
    ∃ n, value = .number n ∧ bounds.min ≤ n ∧ n ≤ bounds.max := by
  cases field with
  | peerMaxDepth =>
    have hbounds : bounds = ⟨1, MAX_PEER_MAX_DEPTH⟩ :=
      (Option.some.inj (boundsOf_of_mem h)).symm
    obtain ⟨depth, hdepth, rfl⟩ := Option.map_eq_some_iff.mp hpin
    obtain ⟨given, -, rfl⟩ := Option.map_eq_some_iff.mp hdepth
    have hone : (1 : ℚ) ≤ MAX_PEER_MAX_DEPTH := by decide
    rw [hbounds]
    exact ⟨_, rfl, le_min (le_max_right ..) hone, min_le_right ..⟩
  | _ => cases hpin

theorem checkNumber_read (maxDepth : Option ℚ) {entry : Field × Bounds}
    (hentry : entry ∈ NUMERIC_BOUNDS) :
    checkNumber (table.read newUrl (resolvePins maxDepth)) entry = .ok () := by
  have hnumber : ∃ n, table.read newUrl (resolvePins maxDepth) entry.1 = some (.number n) ∧
      entry.2.min ≤ n ∧ n ≤ entry.2.max := by
    rw [read_apply]
    rcases hpin : (resolvePins maxDepth).value entry.1 with _ | value
    · rw [Option.none_or]
      exact clampField_number hentry _
    · obtain ⟨n, rfl, hin⟩ := resolvePins_inBounds hpin hentry
      exact ⟨n, rfl, hin⟩
  obtain ⟨n, hn, hmin, hmax⟩ := hnumber
  rw [checkNumber, hn]
  dsimp only
  rw [if_neg]
  · rfl
  · rintro (hlow | hhigh)
    · exact absurd hmin (not_le.mpr hlow)
    · exact absurd hmax (not_le.mpr hhigh)

theorem checkOrder_read : checkOrder (table.read newUrl pins) = .ok () := by
  rw [checkOrder, if_neg]
  · rfl
  · rw [read_apply]
    show checkedNamingOrder (clampField newUrl .namingOrder _) ≠ none
    unfold clampField
    rw [show boundsOf .namingOrder = none from rfl]
    dsimp only
    rw [if_pos rfl]
    split_ifs with hnone
    · decide
    · exact hnone

/-- What has no bounds, no order and no shape of its own is read as it is. -/
theorem clampField_plain {field : Field} (hbounds : boundsOf field = none)
    (horder : field ≠ .namingOrder) (hplain : TEXT_NORMALISERS newUrl field = none)
    (value : Option Json) : clampField newUrl field value = value := by
  unfold clampField
  rw [hbounds]
  dsimp only
  rw [if_neg horder, normalise, hplain]

theorem read_placement : table.read newUrl pins .placement =
    match table.row .placement with
    | some (.string text) => some (.string text)
    | some .null => some .null
    | _ => some (.string "beside_existing") := by
  rw [read_apply, clampField_plain rfl (by decide) rfl]
  show overDefaults table.row _ .placement = _
  unfold overDefaults
  rcases table.row .placement with _ | value
  · rfl
  · cases value <;> rfl

theorem read_fixedPath : table.read newUrl pins .fixedPath =
    match table.row .fixedPath with
    | some (.string text) => some (.string text)
    | _ => some .null := by
  rw [read_apply, clampField_plain rfl (by decide) rfl]
  show overDefaults table.row _ .fixedPath = _
  unfold overDefaults
  rcases table.row .fixedPath with _ | value
  · rfl
  · cases value <;> rfl

/-- A table whose placement, as it is stored or inherited, can be executed and whose target path is
tidy. -/
structure Table.Usable (table : Table) : Prop where
  placement : table.row .placement ≠ some .null ∧
    ∀ text, table.row .placement = some (.string text) → text ∈ PLACEMENT_STRATEGIES
  fixedPath : table.row .placement = some (.string "fixed_path") →
    ∃ path, table.row .fixedPath = some (.string path) ∧ trim path ≠ ""
  targetPath : ∀ path, table.row .defaultTargetPath = some (.string path) → UsablePath path →
    SettingsService.Tidy path

theorem checkPlacement_read : checkPlacement (table.read newUrl pins) = .ok () ↔
    table.row .placement ≠ some .null ∧
      ∀ text, table.row .placement = some (.string text) → text ∈ PLACEMENT_STRATEGIES := by
  have hcheck : checkPlacement (table.read newUrl pins) = .ok () ↔
      ∃ text ∈ textOf (table.read newUrl pins .placement), text ∈ PLACEMENT_STRATEGIES := by
    unfold checkPlacement
    split_ifs with h
    · exact ⟨fun _ => h, fun _ => rfl⟩
    · exact ⟨nofun, fun hin => absurd hin h⟩
  rw [hcheck, read_placement]
  rcases table.row .placement with _ | value
  · simp [textOf, PLACEMENT_STRATEGIES]
  · cases value <;> simp [textOf, PLACEMENT_STRATEGIES]

theorem checkFixedPath_read : checkFixedPath (table.read newUrl pins) = .ok () ↔
    (table.row .placement = some (.string "fixed_path") →
      ∃ path, table.row .fixedPath = some (.string path) ∧ trim path ≠ "") := by
  have hplacement : textOf (table.read newUrl pins .placement) = some "fixed_path" ↔
      table.row .placement = some (.string "fixed_path") := by
    rw [read_placement]
    rcases table.row .placement with _ | value
    · simp [textOf]
    · cases value <;> simp [textOf]
  have hpath : (∃ path, table.row .fixedPath = some (.string path) ∧ trim path ≠ "") ↔
      ∃ typed, asText (table.read newUrl pins .fixedPath) = .ok typed ∧ cleared typed ≠ none := by
    rw [read_fixedPath]
    rcases table.row .fixedPath with _ | value
    · simp [asText, cleared]
    · cases value <;> simp [asText, cleared]
  unfold checkFixedPath
  rw [hpath]
  split_ifs with hfixed
  · rw [Fallible.bind_eq_ok]
    simp only [hplacement.mp hfixed, forall_const]
    refine exists_congr fun typed => and_congr_right fun _ => ?_
    split_ifs with hnone
    · exact ⟨(by simp), fun h => absurd hnone h⟩
    · exact ⟨fun _ => hnone, fun _ => rfl⟩
  · exact ⟨fun _ h => absurd (hplacement.mpr h) hfixed, fun _ => rfl⟩

theorem ofText_inj {text text' : Option String} (h : ofText text = ofText text') : text = text' := by
  cases text <;> cases text' <;> simp_all [ofText]

theorem normalise_targetPath {typed text : Option String} :
    normalise newUrl .defaultTargetPath (some (ofText typed)) = .ok (some (ofText text)) ↔
      normaliseTargetPath typed = .ok text := by
  have hasText : asText (some (ofText typed)) = .ok typed := by cases typed <;> rfl
  show (asText (some (ofText typed)) >>= fun typed =>
    normaliseTargetPath typed >>= fun text => pure (some (ofText text))) = _ ↔ _
  rw [hasText]
  show (normaliseTargetPath typed >>= fun text => pure (some (ofText text))) = _ ↔ _
  rw [Fallible.bind_eq_ok]
  constructor
  · rintro ⟨other, hother, hsame⟩
    rw [hother, ofText_inj (Option.some.inj (Except.ok.inj hsame))]
  · exact fun h => ⟨text, h, rfl⟩

/-- A target path that is read is left alone only when another pass leaves it alone. -/
theorem again_of_clampField {path : String}
    (h : clampField newUrl .defaultTargetPath (some (.string path)) = some (.string path)) :
    normaliseTargetPath (some path) = .ok (some path) := by
  unfold clampField at h
  rw [show boundsOf .defaultTargetPath = none from rfl] at h
  dsimp only at h
  rw [if_neg (by decide)] at h
  split at h
  · next value hvalue =>
    rw [h] at hvalue
    exact normalise_targetPath.mp hvalue
  · cases h

/-- A text that was repaired needs no other repair, unless it is a target path that is not tidy. -/
theorem normalise_clampField (hurl : OriginsParse newUrl) {field : Field} {value : Option Json}
    (htidy : field = .defaultTargetPath → ∀ path, value = some (.string path) → UsablePath path →
      Tidy path) (hbounds : boundsOf field = none) (horder : field ≠ .namingOrder) :
    normalise newUrl field (clampField newUrl field value) =
      .ok (clampField newUrl field value) := by
  unfold clampField
  rw [hbounds]
  dsimp only
  rw [if_neg horder]
  split
  · next read hread =>
    refine normalise_again hurl ?_ hread
    rintro rfl path rfl
    have haccepted : ∃ text, normaliseTargetPath (some path) = .ok text := by
      obtain ⟨typed, htyped, hrest⟩ := Fallible.bind_eq_ok.mp hread
      cases htyped
      obtain ⟨text, htext, -⟩ := Fallible.bind_eq_ok.mp hrest
      exact ⟨text, htext⟩
    obtain ⟨text, htext⟩ := haccepted
    exact tidy_of_accepted htext (htidy rfl path rfl)
  · cases field <;> rfl

theorem overDefaults_targetPath {naming : Option Json} {path : String}
    (h : overDefaults table.row naming .defaultTargetPath = some (.string path)) :
    table.row .defaultTargetPath = some (.string path) := by
  unfold overDefaults at h
  rcases hrow : table.row .defaultTargetPath with _ | value
  · rw [hrow] at h
    cases h
  · rw [hrow] at h
    cases value with
    | string text => exact h
    | _ => cases h

/-- **What is read is normalised** exactly when the target path is tidy. -/
theorem settled_read_iff (hurl : OriginsParse newUrl) : Settled newUrl (table.read newUrl pins) ↔
    ∀ path, table.row .defaultTargetPath = some (.string path) → UsablePath path → Tidy path := by
  constructor
  · intro hsettled path hrow husable
    have hpath := hsettled .defaultTargetPath
    have hread : table.read newUrl pins .defaultTargetPath =
        some (.string (withoutSlashes (trim path))) := by
      have hover : overDefaults table.row table.legacy .defaultTargetPath = some (.string path) := by
        unfold overDefaults
        rw [hrow]
        rfl
      have hnormal : normalise newUrl .defaultTargetPath (some (.string path)) =
          .ok (some (.string (withoutSlashes (trim path)))) :=
        normalise_targetPath.mpr (normaliseTargetPath_of_usable husable)
      rw [read_apply]
      show clampField newUrl .defaultTargetPath (overDefaults table.row _ .defaultTargetPath) = _
      rw [hover]
      unfold clampField
      rw [show boundsOf .defaultTargetPath = none from rfl]
      dsimp only
      rw [if_neg (by decide), hnormal]
    rw [hread] at hpath
    exact tidy_of_again (normalise_targetPath.mp hpath)
  · intro htidy field
    rcases hnormaliser : TEXT_NORMALISERS newUrl field with _ | normaliser
    · rw [normalise, hnormaliser]
    · have hplain : pins.value field = none ∧ boundsOf field = none ∧ field ≠ .namingOrder := by
        cases field with
        | publicUrl | defaultTargetPath | defaultTargetLibraryId => exact ⟨rfl, rfl, by decide⟩
        | _ => cases hnormaliser
      rw [read_apply, hplain.1, Option.none_or]
      refine normalise_clampField hurl ?_ hplain.2.1 hplain.2.2
      rintro rfl path hpath
      exact htidy path (overDefaults_targetPath hpath)

/-- **What is read is accepted as it is** exactly when the table is usable. -/
theorem validate_read_iff (hurl : OriginsParse newUrl) (maxDepth : Option ℚ) :
    validate newUrl (table.read newUrl (resolvePins maxDepth)) =
        .ok (table.read newUrl (resolvePins maxDepth)) ↔ table.Usable := by
  rw [validate_eq_self_iff, settled_read_iff hurl, checkBounds_eq_ok_iff, checkPlacement_read,
    checkFixedPath_read]
  constructor
  · rintro ⟨htarget, hfixed, hplacement, -⟩
    exact ⟨hplacement, hfixed, htarget⟩
  · rintro ⟨hplacement, hfixed, htarget⟩
    exact ⟨htarget, hfixed, hplacement, checkOrder_read, fun _ => checkNumber_read maxDepth⟩

/-! ### What is stored in full -/

/-- Settings with a value of its shape in every field, and a tidy target path. -/
structure Storable (newUrl : String → Option Url) (candidate : Settings) : Prop where
  shape : ∀ key, TEXT_NORMALISERS newUrl key = none → ∃ value, candidate key = some value ∧
    fitsTheShapeOf value (DEFAULT_SETTINGS key) key = true
  targetPath : ∀ path, candidate .defaultTargetPath = some (.string path) → Tidy path

theorem fits_of_normalise {field : Field} {value value' : Option Json}
    (h : normalise newUrl field value = .ok value') (htext : TEXT_NORMALISERS newUrl field ≠ none) :
    ∃ text, value' = some (ofText text) ∧
      fitsTheShapeOf (ofText text) (DEFAULT_SETTINGS field) field = true := by
  obtain ⟨normaliser, hnormaliser⟩ := Option.ne_none_iff_exists'.mp htext
  rw [normalise, hnormaliser] at h
  obtain ⟨typed, _, hrest⟩ := Fallible.bind_eq_ok.mp h
  obtain ⟨text, _, hsome⟩ := Fallible.bind_eq_ok.mp hrest
  refine ⟨text, (Except.ok.inj hsome).symm, ?_⟩
  cases field with
  | publicUrl | defaultTargetPath | defaultTargetLibraryId => cases text <;> rfl
  | _ => cases hnormaliser

theorem overDefaults_of_fits {stored : Field → Option Json} {naming : Option Json} {key : Field}
    {value : Json} (hrow : stored key = some value)
    (hfits : fitsTheShapeOf value (DEFAULT_SETTINGS key) key = true) :
    overDefaults stored naming key = some value := by
  simp only [overDefaults, hrow, hfits, if_true]

/-- What is read of a row that is not clamped has the shape of its field. -/
theorem fits_of_overDefaults {stored : Field → Option Json} {naming : Option Json} {key : Field}
    (hkey : key ≠ .namingOrder) (h : overDefaults stored naming key = stored key) :
    ∃ value, stored key = some value ∧
      fitsTheShapeOf value (DEFAULT_SETTINGS key) key = true := by
  have hdefault : fitsTheShapeOf (DEFAULT_SETTINGS key) (DEFAULT_SETTINGS key) key = true := by
    cases key <;> rfl
  unfold overDefaults at h
  split at h
  · next value hvalue =>
    split_ifs at h with hfits
    · exact ⟨value, hvalue, hfits⟩
    · exact ⟨_, h.symm, hdefault⟩
  · rw [if_neg hkey] at h
    exact ⟨_, h.symm, hdefault⟩

theorem fits_of_inBounds {settings : Settings} (hin : InBounds settings) {key : Field}
    (hkey : boundsOf key ≠ none ∨ key = .namingOrder) : ∃ value, settings key = some value ∧
      fitsTheShapeOf value (DEFAULT_SETTINGS key) key = true := by
  rcases hkey with hbounds | rfl
  · obtain ⟨bounds, hbounds⟩ := Option.ne_none_iff_exists'.mp hbounds
    have hmem := mem_of_boundsOf hbounds
    obtain ⟨n, hn, -⟩ := hin.numbers _ hmem
    obtain ⟨m, hm, -⟩ := default_inBounds _ hmem
    refine ⟨.number n, hn, ?_⟩
    rw [hm]
    rfl
  · have horder := hin.order
    unfold checkedNamingOrder at horder
    split at horder
    · next steps hsteps => exact ⟨.array steps, hsteps, rfl⟩
    · exact absurd rfl horder

/-- **What was accepted and stored in full is read back** exactly when it can be stored. -/
theorem readBack_iff (hurl : OriginsParse newUrl) {candidate next : Settings}
    (h : validate newUrl candidate = .ok next) (naming : Option Json) :
    clamp newUrl (overDefaults next naming) = next ↔ Storable newUrl candidate := by
  obtain ⟨hnormal, hin⟩ := normalise_of_validate h
  have hplain : ∀ key, TEXT_NORMALISERS newUrl key = none → next key = candidate key :=
    fun key hkey => eq_of_normalise (hnormal key) hkey
  have haccepted : ∀ path, candidate .defaultTargetPath = some (.string path) →
      ∃ text, normaliseTargetPath (some path) = .ok text ∧
        next .defaultTargetPath = some (ofText text) := by
    intro path hpath
    have hboth := hnormal .defaultTargetPath
    obtain ⟨text, htext, -⟩ := fits_of_normalise hboth (by rintro ⟨⟩)
    rw [hpath, htext] at hboth
    exact ⟨text, normalise_targetPath.mp hboth, htext⟩
  constructor
  · intro hback
    have hfield : ∀ key, clampField newUrl key (overDefaults next naming key) = next key :=
      fun key => congrFun hback key
    -- A field nothing normalises; then the path, which is normalised again.
    refine ⟨fun key hkey => ?_, fun path hpath => ?_⟩
    · rw [← hplain key hkey]
      by_cases hchecked : boundsOf key ≠ none ∨ key = .namingOrder
      · exact fits_of_inBounds hin hchecked
      · rw [not_or, not_not] at hchecked
        have hsame := hfield key
        rw [clampField_plain hchecked.1 hchecked.2 hkey] at hsame
        exact fits_of_overDefaults hchecked.2 hsame
    · obtain ⟨text, htext, hnext⟩ := haccepted path hpath
      refine tidy_of_accepted htext fun husable => ?_
      rw [normaliseTargetPath_of_usable husable] at htext
      cases htext
      have hover : overDefaults next naming .defaultTargetPath = next .defaultTargetPath := by
        rw [hnext]
        exact overDefaults_of_fits hnext rfl
      have hsame := hfield .defaultTargetPath
      rw [hover, hnext] at hsame
      exact tidy_of_again (again_of_clampField hsame)
  · rintro ⟨hshape, htidy⟩
    have hsettled : Settled newUrl next := by
      intro key
      refine normalise_again hurl (fun hkey path hpath => ?_) (hnormal key)
      exact htidy path (hkey ▸ hpath)
    funext key
    have hover : overDefaults next naming key = next key := by
      by_cases hkey : TEXT_NORMALISERS newUrl key = none
      · obtain ⟨value, hvalue, hfits⟩ := hshape key hkey
        rw [← hplain key hkey] at hvalue
        exact (overDefaults_of_fits hvalue hfits).trans hvalue.symm
      · obtain ⟨text, htext, hfits⟩ := fits_of_normalise (hnormal key) hkey
        exact (overDefaults_of_fits htext hfits).trans htext.symm
    show clampField newUrl key (overDefaults next naming key) = next key
    rw [hover]
    exact clampField_of_checked hsettled hin key

/-! ### The settings screen -/

/-- No row locks the screen: what is read is accepted as it is, and a valid value of one field that is
not pinned is not refused for another field. -/
structure Unlocked (newUrl : String → Option Url) (pins : Pins) (table : Table) : Prop where
  accepted : validate newUrl (table.read newUrl pins) = .ok (table.read newUrl pins)
  updates : ∀ field value, pins.value field = none →
    ValidFor newUrl (table.read newUrl pins) field value →
    ∃ next, prepare newUrl pins (only field value) (table.read newUrl pins) = .ok next

/-- **No stored row locks the screen** exactly when the placement can be executed and the target path
is tidy; **checking and reading back are inverse** exactly on settings with a value of its shape in
every field and a tidy target path. -/
theorem unlocked_iff (hurl : OriginsParse newUrl) (maxDepth : Option ℚ) :
    (∀ table, Unlocked newUrl (resolvePins maxDepth) table ↔ table.Usable) ∧
      ∀ candidate next naming, validate newUrl candidate = .ok next →
        (clamp newUrl (overDefaults next naming) = next ↔ Storable newUrl candidate) := by
  refine ⟨fun table => ?_, fun candidate next naming h => readBack_iff hurl h naming⟩
  rw [← validate_read_iff hurl maxDepth]
  constructor
  · exact fun h => h.accepted
  · exact fun h => ⟨h, fun field value hpin hvalue => prepare_only h hpin hvalue⟩

end

theorem usable_emptyTable : emptyTable.Usable :=
  ⟨⟨nofun, nofun⟩, nofun, nofun⟩

/-- Nobody has configured anything, and the environment asks for more circles than there can be. -/
theorem unlocked_emptyTable :
    Unlocked oneUrl (resolvePins (some 9)) emptyTable ∧
      clamp oneUrl (overDefaults (emptyTable.read oneUrl (resolvePins (some 9))) none) =
        emptyTable.read oneUrl (resolvePins (some 9)) := by
  obtain ⟨hunlocked, hback⟩ := unlocked_iff originsParse_oneUrl (some 9)
  have hempty := (hunlocked emptyTable).mpr usable_emptyTable
  refine ⟨hempty, (hback _ _ none hempty.accepted).mpr ⟨fun key hkey => ?_, nofun⟩⟩
  by_cases hchecked : boundsOf key ≠ none ∨ key = .namingOrder
  · exact fits_of_inBounds (normalise_of_validate hempty.accepted).2 hchecked
  · cases key with
    | publicUrl | defaultTargetPath | defaultTargetLibraryId => cases hkey
    | _ => first
      | exact absurd (by decide) hchecked
      | exact ⟨_, rfl, rfl⟩

/-- A table with one row, of a placement that needs a path. -/
def fixedPathTable : Table :=
  ⟨fun key => if key = .placement then some (some (.string "fixed_path")) else none, none, none⟩

/-- Pausing the queue is refused for the path. -/
theorem not_unlocked_fixedPath :
    prepare oneUrl (resolvePins none) (only .queuePaused (.bool true))
        (fixedPathTable.read oneUrl (resolvePins none)) =
          .error (.badRequest .SETTINGS_INVALID .fixedPath) ∧
      ¬ Unlocked oneUrl (resolvePins none) fixedPathTable := by
  refine ⟨rfl, fun h => ?_⟩
  have husable := (validate_read_iff originsParse_oneUrl none).mp h.accepted
  obtain ⟨path, hpath, -⟩ := husable.fixedPath rfl
  cases hpath

end MediaCenterSync.SettingsService
