import MediaCenterSync.Libraries.Correct.Categories
import MediaCenterSync.Libraries.Keywords

/-!
# Filing into a category files into that category

A keyword makes the libraries it folds read as the library it hangs on reads itself.  So it files
into the category it was given if and only if that library, which may be in the category by a
keyword of its own, reads as the category, or there is nothing to fold (`files_iff`).
-/

namespace MediaCenterSync.Libraries

open Quality (isSpace trim trim_trim)

variable {κ : Type*} {language : Language κ}

/-! ### The blanks at the ends of a name -/

theorem isMark_of_isSpace {c : Char} (h : isSpace c) : isMark c = false := by
  simp only [isSpace, List.mem_cons, List.not_mem_nil, or_false, decide_eq_true_eq] at h
  simp only [isMark, decide_eq_false_iff_not]
  omega

theorem isPlain_of_isSpace {c : Char} (h : isSpace c) : isPlain c = false := by
  simp only [isSpace, List.mem_cons, List.not_mem_nil, or_false, decide_eq_true_eq] at h
  simp only [isPlain, Char.isDigit, Bool.and_eq_true, decide_eq_true_eq, decide_eq_false_iff_not]
  rintro (⟨hlow, hhigh⟩ | ⟨hlow, hhigh⟩)
  · have hlow' : 48 ≤ c.toNat := UInt32.le_iff_toNat_le.mp hlow
    have hhigh' : c.toNat ≤ 57 := UInt32.le_iff_toNat_le.mp hhigh
    omega
  · have hlow' : 97 ≤ c.toNat := UInt32.le_iff_toNat_le.mp hlow
    have hhigh' : c.toNat ≤ 122 := UInt32.le_iff_toNat_le.mp hhigh
    omega

theorem trimDashes_dash_cons {c : Char} (h : isPlain c = false) (text : List Char) :
    trimDashes (dash (c :: text)) = trimDashes (dash text) := by
  have hcons : dash (c :: text) =
      if (dash text).head? = some '-' then dash text else '-' :: dash text := by
    rw [dash, List.foldr_cons, h, if_neg Bool.false_ne_true]
    rfl
  rw [hcons]
  split_ifs
  · rfl
  · rw [trimDashes, List.dropWhile_cons_of_pos (p := (· = '-')) (decide_eq_true rfl), trimDashes]

theorem dash_concat {c : Char} (h : isPlain c = false) (text : List Char) :
    dash (text ++ [c]) = dash text ∨ dash (text ++ [c]) = dash text ++ ['-'] := by
  induction text with
  | nil =>
    right
    rw [List.nil_append, dash, List.foldr_cons, h, if_neg Bool.false_ne_true]
    rfl
  | cons first text ih =>
    have hcons : ∀ rest, dash (first :: rest) = if isPlain first then first :: dash rest
        else if (dash rest).head? = some '-' then dash rest else '-' :: dash rest := fun _ => rfl
    rw [List.cons_append, hcons, hcons]
    rcases ih with heq | heq
    · exact .inl (by rw [heq])
    · rw [heq]
      by_cases hfirst : isPlain first
      · rw [if_pos hfirst, if_pos hfirst]
        exact .inr rfl
      · rw [if_neg hfirst, if_neg hfirst]
        rcases hdash : dash text with _ | ⟨d, rest⟩
        · exact .inl rfl
        · rw [List.cons_append, List.head?_cons, List.head?_cons]
          split_ifs
          · exact .inr rfl
          · exact .inr rfl

theorem trimDashes_concat (text : List Char) : trimDashes (text ++ ['-']) = trimDashes text := by
  rw [trimDashes, List.dropWhile_append]
  split_ifs with hempty
  · rw [List.isEmpty_iff] at hempty
    rw [trimDashes, hempty]
    rfl
  · rw [List.rdropWhile_concat_pos (· = '-') _ _ (decide_eq_true rfl), trimDashes]

theorem trimDashes_dash_concat {c : Char} (h : isPlain c = false) (text : List Char) :
    trimDashes (dash (text ++ [c])) = trimDashes (dash text) := by
  rcases dash_concat h text with heq | heq
  · rw [heq]
  · rw [heq, trimDashes_concat]

theorem trimDashes_blanks_append {blanks : List Char} (h : ∀ c ∈ blanks, isSpace c)
    (text : List Char) :
    trimDashes (dash (language.toLowerCase (blanks ++ text))) =
      trimDashes (dash (language.toLowerCase text)) := by
  induction blanks with
  | nil => rfl
  | cons c blanks ih =>
    have hc := h c List.mem_cons_self
    rw [List.cons_append, language.toLowerCase_cons hc,
      trimDashes_dash_cons (isPlain_of_isSpace hc)]
    exact ih fun d hd => h d (List.mem_cons_of_mem _ hd)

theorem trimDashes_append_blanks {blanks : List Char} (h : ∀ c ∈ blanks, isSpace c)
    (text : List Char) :
    trimDashes (dash (language.toLowerCase (text ++ blanks))) =
      trimDashes (dash (language.toLowerCase text)) := by
  induction blanks using List.reverseRecOn with
  | nil => rw [List.append_nil]
  | append_singleton blanks c ih =>
    have hc := h c List.mem_concat_self
    rw [← List.append_assoc, language.toLowerCase_concat hc,
      trimDashes_dash_concat (isPlain_of_isSpace hc)]
    exact ih fun d hd => h d (List.mem_append_left _ hd)

variable (language) in
/-- A text as it is folded, less the dashes at its ends. -/
def folding (text : List Char) : List Char :=
  trimDashes (dash (language.toLowerCase ((language.nfd text).filter (!isMark ·))))

theorem filter_nfd_blank {c : Char} (h : isSpace c) :
    (language.nfd [c]).filter (!isMark ·) = language.nfd [c] := by
  refine List.filter_eq_self.mpr fun d hd => ?_
  rw [isMark_of_isSpace (language.isSpace_nfd h d hd)]
  rfl

theorem folding_cons {c : Char} (h : isSpace c) (text : List Char) :
    folding language (c :: text) = folding language text := by
  rw [folding, language.nfd_cons h, List.filter_append, filter_nfd_blank h,
    trimDashes_blanks_append (language.isSpace_nfd h), folding]

theorem folding_concat {c : Char} (h : isSpace c) (text : List Char) :
    folding language (text ++ [c]) = folding language text := by
  rw [folding, language.nfd_concat h, List.filter_append, filter_nfd_blank h,
    trimDashes_append_blanks (language.isSpace_nfd h), folding]

theorem folding_dropWhile (text : List Char) :
    folding language (text.dropWhile isSpace) = folding language text := by
  induction text with
  | nil => rfl
  | cons c text ih =>
    by_cases hc : isSpace c
    · rw [List.dropWhile_cons_of_pos hc, ih, folding_cons hc]
    · rw [List.dropWhile_cons_of_neg hc]

theorem folding_rdropWhile (text : List Char) :
    folding language (text.rdropWhile isSpace) = folding language text := by
  induction text using List.reverseRecOn with
  | nil => rfl
  | append_singleton text c ih =>
    by_cases hc : isSpace c
    · rw [List.rdropWhile_concat_pos _ _ _ hc, ih, folding_concat hc]
    · rw [List.rdropWhile_concat_neg _ _ _ hc]

theorem categoryKeyOf_trim (name : String) :
    categoryKeyOf language (trim name) = categoryKeyOf language name := by
  have hfolding : folding language (trim name).toList = folding language name.toList := by
    rw [trim, String.toList_ofList, folding_rdropWhile, folding_dropWhile]
  have hkey : ∀ text, categoryKeyOf language text =
      if folding language text.toList = [] then "library"
      else .ofList (folding language text.toList) := fun _ => rfl
  rw [hkey, hkey, hfolding]

/-! ### What a library reads as -/

/-- What the libraries a keyword folds read as, when it hangs on this one. -/
def Library.filing (library : Library) : FiledCategory :=
  ⟨library.ownName, library.kind, library.position⟩

theorem get_filedByKeyword {libraries : List Library} {keywords : List CategoryKeyword}
    (hnodup : (keywords.map (·.normalized)).Nodup) (normalized : String) :
    OrderedMap.get (filedByKeyword libraries keywords) normalized =
      (Table.find (·.normalized) keywords normalized).bind fun row =>
        (Table.find (·.id) libraries row.libraryId).map Library.filing := by
  induction keywords using List.reverseRecOn with
  | nil => rfl
  | append_singleton keywords row ih =>
    rw [List.map_append, List.map_singleton, ← List.concat_eq_append, List.nodup_concat] at hnodup
    have hfind : Table.find (·.normalized) (keywords ++ [row]) normalized =
        (Table.find (·.normalized) keywords normalized).or
          (if row.normalized = normalized then some row else none) := by
      rw [Table.find, List.find?_append, List.find?_singleton]
      simp only [decide_eq_true_eq]
      rfl
    have hstep : filedByKeyword libraries (keywords ++ [row]) =
        (Table.find (·.id) libraries row.libraryId).elim (filedByKeyword libraries keywords)
          fun anchor => OrderedMap.modify (filedByKeyword libraries keywords) row.normalized
            fun _ => anchor.filing := by
      rw [filedByKeyword, List.foldl_append, List.foldl_cons, List.foldl_nil]
      cases Table.find (·.id) libraries row.libraryId <;> rfl
    rw [hstep, hfind]
    by_cases heq : row.normalized = normalized
    · obtain rfl := heq
      have hnone : Table.find (·.normalized) keywords row.normalized = none := by
        refine List.find?_eq_none.mpr fun other hother hsame => hnodup.1 ?_
        exact List.mem_map.mpr ⟨other, hother, of_decide_eq_true hsame⟩
      have hgone := ih hnodup.2
      rw [hnone, Option.bind_none] at hgone
      rw [hnone, Option.none_or, if_pos rfl, Option.bind_some]
      cases Table.find (·.id) libraries row.libraryId with
      | none => exact hgone
      | some anchor => exact OrderedMap.get_modify_self ..
    · rw [if_neg heq, Option.or_none, ← ih hnodup.2]
      cases Table.find (·.id) libraries row.libraryId with
      | none => rfl
      | some anchor => exact OrderedMap.get_modify_of_ne (Ne.symm heq) _

theorem keyOf_eq (filed : List (String × FiledCategory)) (library : Library) :
    keyOf language filed library =
      if library.alias? = none then
        categoryKeyOf language (((OrderedMap.get filed (categoryKeyOf language library.name)).map
          FiledCategory.name).getD library.ownName)
      else categoryKeyOf language library.ownName := by
  unfold keyOf read keywordMatch
  cases library.alias? with
  | some name => rfl
  | none =>
    rw [if_neg (by simp), if_pos rfl]
    cases OrderedMap.get filed (categoryKeyOf language library.name) <;> rfl

/-- The library is one that a keyword of this form files. -/
def Library.FoldsTo (language : Language κ) (normalized : String) (library : Library) : Prop :=
  library.alias? = none ∧ categoryKeyOf language library.name = normalized

/-- What a keyword catches is in the category of the name it hangs on. -/
theorem keyOf_of_get {filed : List (String × FiledCategory)} {library anchor : Library}
    {normalized : String} (hfolds : library.FoldsTo language normalized)
    (hget : OrderedMap.get filed normalized = some anchor.filing) :
    keyOf language filed library = categoryKeyOf language anchor.ownName := by
  rw [keyOf_eq, if_pos hfolds.1, hfolds.2, hget]
  rfl

theorem keyOf_congr {filed filed' : List (String × FiledCategory)} {library : Library}
    {normalized : String} (hfolds : ¬ library.FoldsTo language normalized)
    (hget : ∀ other, other ≠ normalized → OrderedMap.get filed' other = OrderedMap.get filed other) :
    keyOf language filed' library = keyOf language filed library := by
  rw [keyOf_eq, keyOf_eq]
  split_ifs with halias
  · rw [hget _ fun heq => hfolds ⟨halias, heq⟩]
  · rfl

namespace Tables

variable [LinearOrder κ] {t t' : Tables}

/-! ### The keyword that is answered -/

variable (language) in
def InCategory (t : Tables) (libraryId key : String) : Prop :=
  ∃ category ∈ t.categories language, category.key = key ∧ libraryId ∈ category.libraryIds

theorem inCategory_iff {library : Library} (h : library ∈ t.libraries) {key : String} :
    t.InCategory language library.id key ↔ keyOf language t.folded library = key := by
  constructor
  · rintro ⟨category, hcategory, rfl, hid⟩
    exact (mem_libraryIds hcategory h).mp hid
  · rintro rfl
    obtain ⟨category, hcategory, hkey, hid⟩ := exists_category language h
    exact ⟨category, hcategory, hkey, hid⟩

theorem categoryOf_eq_some {libraryId : String} {category : MediaCategory}
    (h : t.categoryOf language libraryId = some category) :
    category ∈ t.categories language ∧ libraryId ∈ category.libraryIds := by
  unfold categoryOf at h
  have hid := List.find?_some h
  exact ⟨List.mem_reverse.mp (List.mem_of_find?_eq_some h), of_decide_eq_true hid⟩

theorem exists_library {category : MediaCategory} (h : category ∈ t.categories language)
    {id : String} (hid : id ∈ category.libraryIds) :
    ∃ library ∈ t.libraries, library.id = id ∧ keyOf language t.folded library = category.key := by
  obtain ⟨namedAt, hin⟩ := mem_categories.mp h
  rw [(merges_of_mem hin).2.gathers.libraryIds] at hid
  obtain ⟨library, hlibrary, heq⟩ := List.mem_map.mp hid
  obtain ⟨hlibrary, hkey⟩ := mem_sharing.mp hlibrary
  exact ⟨library, hlibrary, heq, hkey⟩

theorem oneKeyword_eq_ok {id : String} {reading : KeywordReading}
    (h : t.oneKeyword language id = .ok reading) {row : CategoryKeyword} (hrow : row ∈ t.keywords)
    (hid : row.id = id) {anchor : Library} (hanchor : anchor ∈ t.libraries)
    (hhangs : row.libraryId = anchor.id) :
    reading.id = id ∧ reading.categoryKey = keyOf language t.folded anchor := by
  unfold oneKeyword at h
  split at h
  · cases h
  · next found hfound =>
    obtain rfl := Except.ok.inj h
    have hreading : found.id = id := by simpa using List.find?_some hfound
    obtain ⟨other, hother, heq⟩ := List.mem_filterMap.mp (List.mem_of_find?_eq_some hfound)
    obtain ⟨category, hcategory, rfl⟩ := Option.map_eq_some_iff.mp heq
    obtain rfl := List.inj_on_of_nodup_map t.keywordIds_nodup hother hrow (hreading.trans hid.symm)
    obtain ⟨hcategory, hin⟩ := categoryOf_eq_some hcategory
    refine ⟨hreading, ?_⟩
    rw [hhangs] at hin
    exact ((mem_libraryIds hcategory hanchor).mp hin).symm

theorem requireCategory_eq_ok {key : String} {category : MediaCategory}
    (h : t.requireCategory language key = .ok category) :
    category ∈ t.categories language ∧ category.key = key := by
  unfold requireCategory at h
  split at h
  · cases h
  · next found hfound =>
    cases h
    exact ⟨List.mem_of_find?_eq_some hfound, by simpa using List.find?_some hfound⟩

/-! ### The library a keyword hangs on -/

instance {ours : List String} : IsTrans Library (standsBefore ours) where
  trans a b c := by
    unfold standsBefore
    grind

instance {ours : List String} : Std.Total (standsBefore ours) where
  total a b := by
    unfold standsBefore
    grind

theorem standsBefore_antisymm {ours : List String} {a b : Library} (hab : standsBefore ours a b)
    (hba : standsBefore ours b a) : a.id = b.id := by
  unfold standsBefore at hab hba
  grind

variable (language) in
/-- The library of a category that comes before every other: ours before others, then by position,
then by identifier. -/
def First (t : Tables) (key : String) (library : Library) : Prop :=
  library ∈ t.libraries ∧ keyOf language t.folded library = key ∧
    ∀ other ∈ t.libraries, keyOf language t.folded other = key →
      standsBefore (ourServiceIds t.services) library other

theorem mem_findByIds {ids : List String} {library : Library} :
    library ∈ t.findByIds ids ↔ library ∈ t.libraries ∧ library.id ∈ ids := by
  rw [findByIds, List.mem_insertionSort, List.mem_filter, decide_eq_true_eq]

theorem anchorOf_eq_ok {category : MediaCategory} (hcategory : category ∈ t.categories language)
    {id : String} (h : t.anchorOf category = .ok id) :
    ∃ anchor, t.First language category.key anchor ∧ anchor.id = id := by
  unfold anchorOf at h
  split at h
  · cases h
  · next anchor hhead =>
    cases h
    obtain ⟨rest, hsorted⟩ := List.head?_eq_some_iff.mp hhead
    have hordered := List.pairwise_insertionSort (standsBefore (ourServiceIds t.services))
      (t.findByIds category.libraryIds)
    rw [hsorted, List.pairwise_cons] at hordered
    have hmem : ∀ other, other ∈ anchor :: rest ↔
        other ∈ t.libraries ∧ other.id ∈ category.libraryIds := by
      intro other
      rw [← hsorted, List.mem_insertionSort, mem_findByIds]
    obtain ⟨hanchor, hid⟩ := (hmem anchor).mp List.mem_cons_self
    refine ⟨anchor, ⟨hanchor, (mem_libraryIds hcategory hanchor).mp hid, ?_⟩, rfl⟩
    intro other hother hkey
    rcases List.mem_cons.mp ((hmem other).mpr ⟨hother, (mem_libraryIds hcategory hother).mpr hkey⟩)
      with rfl | hrest
    · exact or_self_iff.mp (total_of (standsBefore (ourServiceIds t.services)) other other)
    · exact hordered.1 other hrest

omit [LinearOrder κ] in
theorem First.unique {key : String} {a b : Library} (ha : t.First language key a)
    (hb : t.First language key b) : a = b :=
  List.inj_on_of_nodup_map t.ids_nodup ha.1 hb.1
    (standsBefore_antisymm (ha.2.2 b hb.1 hb.2.1) (hb.2.2 a ha.1 ha.2.1))

/-! ### A keyword that is put somewhere -/

variable (language) in
/-- After a keyword was filed into a category it answers with that category, what it catches is in
it, and nothing has left it. -/
structure FilesInto (t t' : Tables) (key normalized : String) (reading : KeywordReading) :
    Prop where
  answers : reading.categoryKey = key
  caught : ∀ library ∈ t'.libraries, library.FoldsTo language normalized →
    t'.InCategory language library.id key
  kept : ∀ library ∈ t.libraries, t.InCategory language library.id key →
    t'.InCategory language library.id key

variable (language) in
/-- The library a keyword hangs on reads as the category itself, or the keyword catches nothing. -/
def Sits (t : Tables) (key normalized : String) (anchor : Library) : Prop :=
  categoryKeyOf language anchor.ownName = key ∨
    ∀ library ∈ t.libraries, ¬ library.FoldsTo language normalized

/-- What is caught reads as the library the keyword hangs on, and the rest as it did. -/
theorem filesInto_iff {key normalized : String} {anchor : Library} {reading : KeywordReading}
    (hlibraries : t'.libraries = t.libraries) (hanchor : anchor ∈ t.libraries)
    (hkey : keyOf language t.folded anchor = key)
    (hget : OrderedMap.get t'.folded normalized = some anchor.filing)
    (hother : ∀ other, other ≠ normalized →
      OrderedMap.get t'.folded other = OrderedMap.get t.folded other)
    (hreading : reading.categoryKey = keyOf language t'.folded anchor) :
    FilesInto language t t' key normalized reading ↔ t.Sits language key normalized anchor := by
  have hmem : ∀ library, library ∈ t'.libraries ↔ library ∈ t.libraries := by
    intro library
    rw [hlibraries]
  constructor
  · intro h
    by_cases hcatches : ∃ library ∈ t.libraries, library.FoldsTo language normalized
    · obtain ⟨library, hlibrary, hfolds⟩ := hcatches
      have hin := h.caught library ((hmem _).mpr hlibrary) hfolds
      rw [inCategory_iff ((hmem _).mpr hlibrary), keyOf_of_get hfolds hget] at hin
      exact .inl hin
    · push Not at hcatches
      exact .inr hcatches
  · intro hsits
    -- what is caught is in the category, by the library the keyword hangs on
    have hcaught : ∀ library ∈ t.libraries, library.FoldsTo language normalized →
        keyOf language t'.folded library = key := by
      intro library hlibrary hfolds
      rcases hsits with hown | hnone
      · rw [keyOf_of_get hfolds hget, hown]
      · exact absurd hfolds (hnone library hlibrary)
    have hkept : ∀ library ∈ t.libraries, keyOf language t.folded library = key →
        keyOf language t'.folded library = key := by
      intro library hlibrary hin
      by_cases hfolds : library.FoldsTo language normalized
      · exact hcaught library hlibrary hfolds
      · rw [keyOf_congr hfolds hother, hin]
    refine ⟨hreading.trans (hkept anchor hanchor hkey), ?_, ?_⟩
    · intro library hlibrary hfolds
      rw [inCategory_iff hlibrary]
      exact hcaught library ((hmem _).mp hlibrary) hfolds
    · intro library hlibrary hin
      rw [inCategory_iff ((hmem _).mpr hlibrary)]
      exact hkept library hlibrary ((inCategory_iff hlibrary).mp hin)

theorem get_folded (t : Tables) (normalized : String) :
    OrderedMap.get t.folded normalized =
      (Table.find (·.normalized) t.keywords normalized).bind fun row =>
        (Table.find (·.id) t.libraries row.libraryId).map Library.filing :=
  get_filedByKeyword t.normalized_nodup normalized

theorem get_folded_of_row {t : Tables} {row : CategoryKeyword} (hrow : row ∈ t.keywords)
    {anchor : Library} (hanchor : anchor ∈ t.libraries) (hhangs : row.libraryId = anchor.id) :
    OrderedMap.get t.folded row.normalized = some anchor.filing := by
  rw [get_folded, Table.find_of_mem t.normalized_nodup hrow, Option.bind_some, hhangs,
    Table.find_of_mem t.ids_nodup hanchor, Option.map_some]

theorem get_folded_congr {t t' : Tables} (hlibraries : t'.libraries = t.libraries)
    {normalized : String} (hfind : Table.find (·.normalized) t'.keywords normalized =
      Table.find (·.normalized) t.keywords normalized) :
    OrderedMap.get t'.folded normalized = OrderedMap.get t.folded normalized := by
  rw [get_folded, get_folded, hfind, hlibraries]

variable (language) in
/-- The library that a keyword put into a category hangs on: for one that is there already, the one
it hung on; for a new one, the one that comes first. -/
def Holder (t : Tables) (key normalized : String) (anchor : Library) : Prop :=
  match t.findByNormalized normalized with
  | some existing => anchor ∈ t.libraries ∧ anchor.id = existing.libraryId
  | none => t.First language key anchor

omit [LinearOrder κ] in
theorem Holder.unique {key normalized : String} {a b : Library}
    (ha : t.Holder language key normalized a) (hb : t.Holder language key normalized b) :
    a = b := by
  unfold Holder at ha hb
  split at ha
  · next existing hfound =>
    rw [hfound] at hb
    exact List.inj_on_of_nodup_map t.ids_nodup ha.1 hb.1 (ha.2.trans hb.2.symm)
  · next hnone =>
    rw [hnone] at hb
    exact ha.unique hb

omit [LinearOrder κ] in
theorem normalizeKeyword_eq_ok {word normalized : String}
    (h : normalizeKeyword language word = .ok normalized) :
    normalized = categoryKeyOf language word := by
  unfold normalizeKeyword at h
  split_ifs at h
  exact (Except.ok.inj h).symm

theorem addKeyword_eq_ok {fresh : t.FreshId} {key word : String} {reading : KeywordReading}
    (h : t.addKeyword language fresh key word = .ok (t', reading)) :
    ∃ category ∈ t.categories language, category.key = key ∧
      ((∃ existing, t.findByNormalized (categoryKeyOf language word) = some existing ∧
          existing.libraryId ∈ category.libraryIds ∧ t' = t ∧
            t.oneKeyword language existing.id = .ok reading) ∨
        ∃ hnone anchor, t.anchorOf category = .ok anchor ∧
          t' = t.insertKeyword fresh anchor (trim word) (categoryKeyOf language word) hnone ∧
            t'.oneKeyword language fresh.1 = .ok reading) := by
  unfold addKeyword at h
  rcases hnormal : normalizeKeyword language word with _ | normalized
  · rw [hnormal] at h
    cases h
  obtain rfl := normalizeKeyword_eq_ok hnormal
  rcases hrequired : t.requireCategory language key with _ | category
  · rw [hnormal, hrequired] at h
    cases h
  obtain ⟨hcategory, hkey⟩ := requireCategory_eq_ok hrequired
  refine ⟨category, hcategory, hkey, ?_⟩
  rw [hnormal, hrequired] at h
  simp only [bind, Except.bind] at h
  split at h
  · next existing hfound =>
    split_ifs at h with hin
    rcases hone : t.oneKeyword language existing.id with _ | found
    · rw [hone] at h
      cases h
    · rw [hone] at h
      cases h
      exact .inl ⟨existing, hfound, hin, rfl, hone⟩
  · next hnone =>
    rcases hanchor : t.anchorOf category with _ | anchor
    · rw [hanchor] at h
      cases h
    · rw [hanchor] at h
      simp only at h
      rcases hone : (t.insertKeyword fresh anchor (trim word) (categoryKeyOf language word)
        hnone).oneKeyword language fresh.1 with _ | found
      · rw [hone] at h
        cases h
      · rw [hone] at h
        cases h
        exact .inr ⟨hnone, anchor, rfl, rfl, hone⟩

theorem mem_of_findByNormalized {normalized : String} {row : CategoryKeyword}
    (h : t.findByNormalized normalized = some row) :
    row ∈ t.keywords ∧ row.normalized = normalized :=
  ⟨Table.mem_of_find h, Table.key_of_find h⟩

theorem addKeyword_filesInto {fresh : t.FreshId} {key word : String} {reading : KeywordReading}
    (h : t.addKeyword language fresh key word = .ok (t', reading)) :
    ∃ anchor, t.Holder language key (categoryKeyOf language word) anchor ∧
      (FilesInto language t t' key (categoryKeyOf language word) reading ↔
        t.Sits language key (categoryKeyOf language word) anchor) := by
  obtain ⟨category, hcategory, rfl, ⟨existing, hfound, hin, rfl, hone⟩ |
    ⟨hnone, id, hanchor, rfl, hone⟩⟩ := addKeyword_eq_ok h
  · obtain ⟨hrow, hnormal⟩ := mem_of_findByNormalized hfound
    obtain ⟨anchor, hanchor, hid, hkey⟩ := exists_library hcategory hin
    refine ⟨anchor, ?_, filesInto_iff rfl hanchor hkey ?_ (fun _ _ => rfl) ?_⟩
    · unfold Holder
      rw [hfound]
      exact ⟨hanchor, hid⟩
    · rw [← hnormal]
      exact get_folded_of_row hrow hanchor hid.symm
    · exact (oneKeyword_eq_ok hone hrow rfl hanchor hid.symm).2
  · obtain ⟨anchor, hfirst, rfl⟩ := anchorOf_eq_ok hcategory hanchor
    set row : CategoryKeyword := ⟨fresh.1, anchor.id, trim word, categoryKeyOf language word⟩
    have hrow : row ∈ (t.insertKeyword fresh anchor.id (trim word) (categoryKeyOf language word)
      hnone).keywords := List.mem_concat_self
    refine ⟨anchor, ?_, filesInto_iff rfl hfirst.1 hfirst.2.1 ?_ ?_ ?_⟩
    · unfold Holder
      rw [hnone]
      exact hfirst
    · exact get_folded_of_row hrow hfirst.1 rfl
    · intro other hother
      apply get_folded_congr
      · rfl
      · show List.find? _ (t.keywords ++ [row]) = _
        rw [List.find?_append, List.find?_singleton, if_neg, Option.or_none]
        · rfl
        · simpa using hother.symm
    · exact (oneKeyword_eq_ok hone hrow rfl hfirst.1 rfl).2

theorem requireKeyword_eq_ok {id : String} {row : CategoryKeyword}
    (h : t.requireKeyword id = .ok row) : row ∈ t.keywords ∧ row.id = id := by
  unfold requireKeyword at h
  split at h
  · cases h
  · next found hfound =>
    cases h
    exact ⟨Table.mem_of_find hfound, Table.key_of_find hfound⟩

theorem moveKeyword_eq_ok {id key : String} {reading : KeywordReading}
    (h : t.moveKeyword language id key = .ok (t', reading)) :
    ∃ row ∈ t.keywords, row.id = id ∧ ∃ category ∈ t.categories language, category.key = key ∧
      ∃ anchor, t.anchorOf category = .ok anchor ∧ t' = t.anchorKeyword id anchor ∧
        t'.oneKeyword language id = .ok reading := by
  unfold moveKeyword at h
  rcases hrow : t.requireKeyword id with _ | row
  · rw [hrow] at h
    cases h
  rcases hrequired : t.requireCategory language key with _ | category
  · rw [hrow, hrequired] at h
    cases h
  rcases hanchor : t.anchorOf category with _ | anchor
  · rw [hrow, hrequired] at h
    simp only [bind, Except.bind, hanchor] at h
    cases h
  obtain ⟨hrow', rfl⟩ := requireKeyword_eq_ok hrow
  obtain ⟨hcategory, hkey⟩ := requireCategory_eq_ok hrequired
  rw [hrow, hrequired] at h
  simp only [bind, Except.bind, hanchor] at h
  rcases hone : (t.anchorKeyword row.id anchor).oneKeyword language row.id with _ | found
  · rw [hone] at h
    cases h
  · rw [hone] at h
    cases h
    exact ⟨row, hrow', rfl, category, hcategory, hkey, anchor, hanchor, rfl, hone⟩

theorem moveKeyword_filesInto {id key : String} {reading : KeywordReading}
    (h : t.moveKeyword language id key = .ok (t', reading)) {row : CategoryKeyword}
    (hrow : row ∈ t.keywords) (hid : row.id = id) :
    ∃ anchor, t.First language key anchor ∧
      (FilesInto language t t' key row.normalized reading ↔
        t.Sits language key row.normalized anchor) := by
  obtain ⟨row', hrow', hid', category, hcategory, rfl, anchorId, hanchor, rfl, hone⟩ :=
    moveKeyword_eq_ok h
  obtain rfl := List.inj_on_of_nodup_map t.keywordIds_nodup hrow hrow' (hid.trans hid'.symm)
  obtain ⟨anchor, hfirst, rfl⟩ := anchorOf_eq_ok hcategory hanchor
  obtain rfl := hid
  have hmoved : { row with libraryId := anchor.id } ∈ (t.anchorKeyword row.id anchor.id).keywords :=
    List.mem_map.mpr ⟨row, hrow, if_pos rfl⟩
  refine ⟨anchor, hfirst, filesInto_iff rfl hfirst.1 hfirst.2.1 ?_ ?_ ?_⟩
  · exact get_folded_of_row hmoved hfirst.1 rfl
  · intro other hother
    apply get_folded_congr
    · rfl
    · refine (Table.find_map (fun one => ?_) other).trans ?_
      · split_ifs <;> rfl
      · generalize hfound : Table.find _ t.keywords other = found
        cases found with
        | none => rfl
        | some found =>
          obtain rfl := Table.key_of_find hfound
          rw [Option.map_some, if_neg fun heq => hother ?_]
          rw [List.inj_on_of_nodup_map t.keywordIds_nodup (Table.mem_of_find hfound) hrow heq]
  · exact (oneKeyword_eq_ok hone hmoved rfl hfirst.1 rfl).2

/-! ### A keyword that is taken out again -/

theorem deleteKeyword_insertKeyword {fresh : t.FreshId} {libraryId keyword normalized : String}
    {hnone : t.findByNormalized normalized = none} (hfresh : ∀ row ∈ t.keywords, row.id ≠ fresh.1) :
    (t.insertKeyword fresh libraryId keyword normalized hnone).deleteKeyword fresh.1 = t := by
  have hleft := Table.delete_concat CategoryKeyword.id
    ⟨fresh.1, libraryId, keyword, normalized⟩ hfresh
  cases t
  simp only [deleteKeyword, insertKeyword, mk.injEq]
  exact ⟨trivial, trivial, hleft⟩

theorem removeKeyword_addKeyword {fresh : t.FreshId} {key word : String}
    {reading : KeywordReading}
    (h : t.addKeyword language fresh key word = .ok (t', reading)) (hnew : reading.id = fresh.1) :
    t'.removeKeyword reading.id = .ok t := by
  obtain ⟨category, hcategory, -, ⟨existing, hfound, hin, rfl, hone⟩ |
    ⟨hnone, id, hanchor, rfl, hone⟩⟩ := addKeyword_eq_ok h
  · obtain ⟨hrow, -⟩ := mem_of_findByNormalized hfound
    obtain ⟨anchor, hanchor, hid, -⟩ := exists_library hcategory hin
    have hreading := (oneKeyword_eq_ok hone hrow rfl hanchor hid.symm).1
    exact absurd (List.mem_map.mpr ⟨existing, hrow, hreading.symm.trans hnew⟩) fresh.2
  · have hfresh : ∀ row ∈ t.keywords, row.id ≠ fresh.1 :=
      fun row hrow heq => fresh.2 (List.mem_map.mpr ⟨row, hrow, heq⟩)
    have hrow : (t.insertKeyword fresh id (trim word) (categoryKeyOf language word)
        hnone).requireKeyword fresh.1 =
          .ok ⟨fresh.1, id, trim word, categoryKeyOf language word⟩ := by
      have hfind := Table.find_concat CategoryKeyword.id
        ⟨fresh.1, id, trim word, categoryKeyOf language word⟩ hfresh
      rw [requireKeyword, insertKeyword, hfind]
    rw [hnew, removeKeyword, hrow]
    show Except.ok (deleteKeyword _ fresh.1) = Except.ok t
    rw [deleteKeyword_insertKeyword hfresh]

/-! ### A category that is made to read as another -/

def renamed (ids : List String) (name : String) (library : Library) : Library :=
  if library.id ∈ ids then { library with «alias» := some name } else library

/-- What a call that renamed libraries did: those of the category, and no other. -/
theorem mergeCategoryInto_eq_some {key destinationId name : String}
    (h : t.mergeCategoryInto language key destinationId = (t', some name)) :
    ∃ destination ∈ t.categories language, destinationId ∈ destination.libraryIds ∧
      name = trim destination.name ∧ name ≠ "" ∧ destination.key ≠ key ∧
        ∃ ids, t' = t.rename ids name ∧ ∀ library ∈ t.libraries,
          (library.id ∈ ids ↔ keyOf language t.folded library = key) := by
  unfold mergeCategoryInto at h
  simp only at h
  split at h
  · next destination source hdestination hsource =>
    by_cases hsame : destination.key = source.key ∨ trim destination.name = ""
    · rw [if_pos hsame] at h
      cases (Prod.mk.inj h).2
    rw [if_neg hsame] at h
    push Not at hsame
    split at h
    · cases (Prod.mk.inj h).2
    · next target htarget =>
      by_cases hforeign : target.serviceId ∉ ourServiceIds t.services
      · rw [if_pos hforeign] at h
        cases (Prod.mk.inj h).2
      rw [if_neg hforeign] at h
      obtain ⟨rfl, hname⟩ := Prod.mk.inj h
      obtain ⟨-, hname⟩ := Option.ite_none_left_eq_some.mp hname
      cases hname
      have hsourceKey : source.key = key := by simpa using List.find?_some hsource
      have hin : destinationId ∈ destination.libraryIds := by
        simpa using List.find?_some hdestination
      have hdestination' := List.mem_of_find?_eq_some hdestination
      have hsource' := List.mem_of_find?_eq_some hsource
      refine ⟨destination, hdestination', hin, rfl, hsame.2, hsourceKey ▸ hsame.1, _, rfl, ?_⟩
      intro library hlibrary
      simp only [List.mem_map, List.mem_filter, mem_findByIds, List.mem_cons, decide_eq_true_eq]
      constructor
      · rintro ⟨other, ⟨⟨hother, hids⟩, hne⟩, hid⟩
        obtain rfl := List.inj_on_of_nodup_map t.ids_nodup hother hlibrary hid
        rw [← hsourceKey]
        exact (mem_libraryIds hsource' hother).mp (hids.resolve_left hne)
      · intro hkey
        refine ⟨library, ⟨⟨hlibrary, .inr ?_⟩, fun heq => hsame.1 ?_⟩, rfl⟩
        · exact (mem_libraryIds hsource' hlibrary).mpr (hkey.trans hsourceKey.symm)
        · rw [hsourceKey, ← hkey]
          exact ((mem_libraryIds hdestination' hlibrary).mp (heq ▸ hin)).symm
  · cases (Prod.mk.inj h).2

theorem ownName_renamed {ids : List String} {name : String} {library : Library}
    (h : library.id ∈ ids) (hname : trim name ≠ "") :
    (renamed ids name library).alias? = some (trim name) ∧
      (renamed ids name library).ownName = trim name := by
  have halias : (renamed ids name library).alias? = some (trim name) := by
    rw [renamed, if_pos h, Library.alias?, Option.map_some]
    exact Option.filter_eq_some_iff.mpr ⟨rfl, decide_eq_true hname⟩
  exact ⟨halias, by rw [Library.ownName, halias, Option.getD_some]⟩

theorem renamed_of_notMem {ids : List String} {name : String} {library : Library}
    (h : library.id ∉ ids) : renamed ids name library = library := if_neg h

theorem id_renamed (ids : List String) (name : String) (library : Library) :
    (renamed ids name library).id = library.id := by
  unfold renamed
  split_ifs <;> rfl

theorem get_folded_rename (ids : List String) (name normalized : String) :
    (OrderedMap.get t.folded normalized = none ∧
      OrderedMap.get (t.rename ids name).folded normalized = none) ∨
    ∃ anchor, OrderedMap.get t.folded normalized = some (Library.filing anchor) ∧
      OrderedMap.get (t.rename ids name).folded normalized =
        some (renamed ids name anchor).filing := by
  have hrenamed : OrderedMap.get (t.rename ids name).folded normalized =
      (Table.find (·.normalized) t.keywords normalized).bind fun row =>
        (Table.find (·.id) (t.libraries.map (renamed ids name)) row.libraryId).map
          Library.filing := get_folded _ normalized
  rw [get_folded, hrenamed]
  generalize Table.find _ t.keywords normalized = row
  cases row with
  | none => exact .inl ⟨rfl, rfl⟩
  | some row =>
    rw [Option.bind_some, Option.bind_some, Table.find_map (id_renamed ids name)]
    generalize Table.find _ t.libraries row.libraryId = anchor
    cases anchor with
    | none => exact .inl ⟨rfl, rfl⟩
    | some anchor => exact .inr ⟨anchor, rfl, rfl⟩

/-- Everything that is renamed, and the library it was renamed after, is in one category. -/
theorem mergeCategoryInto_merges {key destinationId name : String}
    (h : t.mergeCategoryInto language key destinationId = (t', some name)) {library : Library}
    (hlibrary : library ∈ t.libraries) (hin : t.InCategory language library.id key) :
    ∃ merged, t'.InCategory language library.id merged ∧
      t'.InCategory language destinationId merged := by
  obtain ⟨destination, hdestination, hid, rfl, hname, hne, ids, rfl, hids⟩ :=
    mergeCategoryInto_eq_some h
  rw [← trim_trim] at hname
  have hkey : categoryKeyOf language (trim (trim destination.name)) = destination.key := by
    rw [trim_trim, categoryKeyOf_trim, key_name hdestination]
  have hmem : ∀ {one : Library}, one ∈ t.libraries →
      renamed ids (trim destination.name) one ∈
        (t.rename ids (trim destination.name)).libraries :=
    fun hone => List.mem_map_of_mem hone
  have hids' := id_renamed ids (trim destination.name)
  obtain ⟨target, htarget, rfl, htargetKey⟩ := exists_library hdestination hid
  have hstays : target.id ∉ ids := fun hrenamed =>
    hne (htargetKey.symm.trans ((hids target htarget).mp hrenamed))
  refine ⟨destination.key, ?_, ?_⟩
  · have hrenamed : library.id ∈ ids := (hids library hlibrary).mpr ((inCategory_iff hlibrary).mp hin)
    obtain ⟨halias, hown⟩ := ownName_renamed hrenamed hname
    rw [← hids' library, inCategory_iff (hmem hlibrary), keyOf_eq, halias, if_neg (by simp), hown,
      hkey]
  · rw [← hids' target, inCategory_iff (hmem htarget), renamed_of_notMem hstays, keyOf_eq]
    rw [keyOf_eq] at htargetKey
    split_ifs at htargetKey ⊢ with halias
    · rcases get_folded_rename ids (trim destination.name) (categoryKeyOf language target.name) with
        ⟨hnone, hnone'⟩ | ⟨anchor, hsome, hsome'⟩
      · rw [hnone] at htargetKey
        rw [hnone']
        exact htargetKey
      · rw [hsome] at htargetKey
        rw [hsome']
        show categoryKeyOf language (renamed ids (trim destination.name) anchor).ownName = _
        by_cases hrenamed : anchor.id ∈ ids
        · rw [(ownName_renamed hrenamed hname).2, hkey]
        · rw [renamed_of_notMem hrenamed]
          exact htargetKey
    · exact htargetKey

variable (language) in
/-- **Filing into a category files into that category** exactly when the library the keyword hangs
on reads as the category itself, or the keyword catches nothing.  Merging a category into another
moves all of it, and removing a keyword that was just created restores the categories. -/
theorem files_iff (t : Tables) (key : String) :
    (∀ fresh word t' reading, t.addKeyword language fresh key word = .ok (t', reading) →
      ∀ anchor, t.Holder language key (categoryKeyOf language word) anchor →
        (FilesInto language t t' key (categoryKeyOf language word) reading ↔
          t.Sits language key (categoryKeyOf language word) anchor)) ∧
    (∀ row ∈ t.keywords, ∀ t' reading, t.moveKeyword language row.id key = .ok (t', reading) →
      ∀ anchor, t.First language key anchor →
        (FilesInto language t t' key row.normalized reading ↔
          t.Sits language key row.normalized anchor)) ∧
    (∀ destinationId t' name, t.mergeCategoryInto language key destinationId = (t', some name) →
      ∀ library ∈ t.libraries, t.InCategory language library.id key →
        ∃ merged, t'.InCategory language library.id merged ∧
          t'.InCategory language destinationId merged) ∧
    (∀ fresh word t' reading, t.addKeyword language fresh key word = .ok (t', reading) →
      reading.id = fresh.1 →
        ∃ t'', t'.removeKeyword reading.id = .ok t'' ∧
          t''.categories language = t.categories language) := by
  refine ⟨?_, ?_, ?_, ?_⟩
  · intro fresh word t' reading h anchor hanchor
    obtain ⟨holder, hholder, hiff⟩ := addKeyword_filesInto h
    obtain rfl := hanchor.unique hholder
    exact hiff
  · intro row hrow t' reading h anchor hanchor
    obtain ⟨first, hfirst, hiff⟩ := moveKeyword_filesInto h hrow rfl
    obtain rfl := hanchor.unique hfirst
    exact hiff
  · intro destinationId t' name h library hlibrary hin
    exact mergeCategoryInto_merges h hlibrary hin
  · intro fresh word t' reading h hnew
    exact ⟨t, removeKeyword_addKeyword h hnew, rfl⟩

end Tables

/-! ### A shelf of our own that is filed itself -/

private def ours : Library := ⟨"1", "nas", "Series TV", none, 100, .SHOWS, 3⟩

private def shows : Library := ⟨"2", "leo", "Shows", none, 100, .SHOWS, 3⟩

private def tv : Library := ⟨"3", "leo", "TV", none, 100, .SHOWS, 3⟩

/-- Our `Series TV`, leo's `Shows` and leo's `TV`, and a keyword that files the first into the
second. -/
private def filed : Tables where
  libraries := [ours, shows, tv]
  services := [⟨"nas", none, true⟩, ⟨"leo", some "leo", false⟩]
  keywords := [⟨"a", "2", "Series TV", "series-tv"⟩]
  ids_nodup := by decide
  keywordIds_nodup := by decide
  normalized_nodup := by decide

private theorem exists_of_isOk {ε α : Type*} (result : Except ε α) (h : result.isOk = true) :
    ∃ value, result = .ok value := by
  cases result with
  | error error => cases h
  | ok value => exact ⟨value, rfl⟩

private def emissions : Library := ⟨"4", "leo", "EMISSIONS TV", none, 100, .SHOWS, 3⟩

/-- The same, and a library that the next keyword catches. -/
private def withEmissions : Tables where
  libraries := [ours, shows, tv, emissions]
  services := filed.services
  keywords := filed.keywords
  ids_nodup := by decide
  keywordIds_nodup := filed.keywordIds_nodup
  normalized_nodup := filed.normalized_nodup

/-- Into the category it reads as, a keyword is filed. -/
theorem filesInto_seriesTv :
    ∃ t' reading, withEmissions.addKeyword plainLanguage ⟨"b", by decide⟩ "tv" "Emissions TV" =
        .ok (t', reading) ∧
      Tables.FilesInto plainLanguage withEmissions t' "tv" "emissions-tv" reading := by
  obtain ⟨⟨t', reading⟩, hok⟩ := exists_of_isOk
    (withEmissions.addKeyword plainLanguage ⟨"b", by decide⟩ "tv" "Emissions TV")
    (by decide +kernel)
  have hkey : categoryKeyOf plainLanguage "Emissions TV" = "emissions-tv" := by decide +kernel
  refine ⟨t', reading, hok, ?_⟩
  have hiff := (Tables.files_iff plainLanguage withEmissions "tv").1 _ _ t' reading hok tv
  rw [hkey] at hiff
  have hnone : withEmissions.findByNormalized "emissions-tv" = none := by decide +kernel
  refine (hiff ?_).mpr (.inl (by decide +kernel))
  unfold Tables.Holder
  rw [hnone]
  exact ⟨by decide, by decide +kernel, by decide +kernel⟩

/-- `TV`, put into the category of `Shows`, is filed into one called `Series TV`; and so is what the
first keyword files, when it is moved to the category it is in. -/
theorem not_filesInto_folded :
    (∃ t' reading, filed.addKeyword plainLanguage ⟨"b", by decide⟩ "shows" "TV" =
        .ok (t', reading) ∧
      ¬ Tables.FilesInto plainLanguage filed t' "shows" "tv" reading) ∧
    ∃ t' reading, filed.moveKeyword plainLanguage "a" "shows" = .ok (t', reading) ∧
      ¬ Tables.FilesInto plainLanguage filed t' "shows" "series-tv" reading := by
  have hfirst : filed.First plainLanguage "shows" ours :=
    ⟨by decide, by decide +kernel, by decide +kernel⟩
  have hown : categoryKeyOf plainLanguage ours.ownName ≠ "shows" := by decide +kernel
  constructor
  · obtain ⟨⟨t', reading⟩, hok⟩ := exists_of_isOk
      (filed.addKeyword plainLanguage ⟨"b", by decide⟩ "shows" "TV") (by decide +kernel)
    obtain ⟨anchor, hholder, hiff⟩ := Tables.addKeyword_filesInto hok
    have hkey : categoryKeyOf plainLanguage "TV" = "tv" := by decide +kernel
    have hnone : filed.findByNormalized "tv" = none := by decide +kernel
    rw [hkey] at hholder hiff
    unfold Tables.Holder at hholder
    rw [hnone] at hholder
    obtain rfl := hholder.unique hfirst
    refine ⟨t', reading, hok, fun hfiles => ?_⟩
    rcases hiff.mp hfiles with heq | hcatches
    · exact hown heq
    · exact hcatches tv (by decide) ⟨rfl, hkey⟩
  · obtain ⟨⟨t', reading⟩, hok⟩ := exists_of_isOk
      (filed.moveKeyword plainLanguage "a" "shows") (by decide +kernel)
    obtain ⟨anchor, hanchor, hiff⟩ :=
      Tables.moveKeyword_filesInto hok
        (show ⟨"a", "2", "Series TV", "series-tv"⟩ ∈ filed.keywords by decide) rfl
    obtain rfl := hanchor.unique hfirst
    refine ⟨t', reading, hok, fun hfiles => ?_⟩
    rcases hiff.mp hfiles with heq | hcatches
    · exact hown heq
    · exact hcatches ours (by decide) ⟨rfl, by decide +kernel⟩

end MediaCenterSync.Libraries
