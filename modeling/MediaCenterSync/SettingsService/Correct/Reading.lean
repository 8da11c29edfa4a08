import MediaCenterSync.Lib.Fallible
import MediaCenterSync.SettingsService.Service

/-!
# What is written is read back

A write is normalised and checked, a read is shaped and clamped.  What passed the one is left alone
by the other (`clamp_of_validate`), given that a text that was normalised is normalised: which goes
for every origin, but for a target path only when it has no white space before its trailing slashes
(`Tidy`).  So the table after a write reads as what was written (`read_putMany`).
-/

namespace MediaCenterSync.SettingsService

open Naming (NamingScheme)
open Quality (trim trim_trim)

/-! ### Texts -/

structure OriginParses (newUrl : String → Option Url) (origin : String) : Prop where
  trimmed : trim origin = origin
  nonempty : origin ≠ ""
  parses : ∃ again ∈ newUrl origin,
    (again.protocol = "http:" ∨ again.protocol = "https:") ∧ again.origin = origin

def OriginsParse (newUrl : String → Option Url) : Prop :=
  ∀ text, ∀ parsed ∈ newUrl text, parsed.protocol = "http:" ∨ parsed.protocol = "https:" →
    OriginParses newUrl parsed.origin

/-- No white space comes before the trailing slashes. -/
def Tidy (path : String) : Prop := trim (withoutSlashes (trim path)) = withoutSlashes (trim path)

instance (path : String) : Decidable (Tidy path) := inferInstanceAs (Decidable (_ = _))

theorem cleared_eq_some {value : Option String} {text : String} (h : cleared value = some text) :
    (∃ typed, value = some typed ∧ trim typed = text) ∧ text ≠ "" := by
  obtain ⟨typed, rfl, htext⟩ := Option.bind_eq_some_iff.mp h
  split at htext
  · cases htext
  · next hne =>
    cases htext
    exact ⟨⟨typed, rfl, rfl⟩, hne⟩

theorem cleared_of_trimmed {text : String} (htrim : trim text = text) (hne : text ≠ "") :
    cleared (some text) = some text := by
  rw [cleared, Option.bind_some, htrim, if_neg hne]

theorem cleared_cleared (value : Option String) : cleared (cleared value) = cleared value := by
  rcases hvalue : cleared value with _ | text
  · rfl
  · obtain ⟨⟨typed, _, rfl⟩, hne⟩ := cleared_eq_some hvalue
    exact cleared_of_trimmed (trim_trim typed) hne

theorem toList_withoutSlashes {path : String} (habsolute : isAbsolute path) :
    ∃ slashes, path.toList = (withoutSlashes path).toList ++ slashes ∧
      (slashes = [] ∨ slashes.head? = some '/') ∧ isAbsolute (withoutSlashes path) ∧
      withoutSlashes (withoutSlashes path) = withoutSlashes path := by
  have hhead : path.toList.head? = some '/' := by simpa [isAbsolute] using habsolute
  obtain ⟨rest, hpath⟩ := List.head?_eq_some_iff.mp hhead
  by_cases hlong : 1 < path.toList.length
  · have hsplit : path.toList.rdropWhile (· = '/') ++ path.toList.rtakeWhile (· = '/') =
        path.toList := List.rdropWhile_append_rtakeWhile ..
    rcases hbare : path.toList.rdropWhile (· = '/') with _ | ⟨c, tail⟩
    · -- Nothing but slashes: one is kept.
      have hroot : withoutSlashes path = "/" := by rw [withoutSlashes, if_pos hlong, if_pos hbare]
      rw [hroot]
      refine ⟨rest, by rw [hpath]; rfl, ?_, by decide, by decide⟩
      cases rest with
      | nil => exact .inl rfl
      | cons d rest =>
        have hall := List.rdropWhile_eq_nil_iff.mp hbare d (by simp [hpath])
        exact .inr (by simpa using hall)
    · have hkept : withoutSlashes path = .ofList (c :: tail) := by
        rw [withoutSlashes, if_pos hlong, if_neg (by simp [hbare]), hbare]
      have hc : c = '/' := by
        rw [hbare, hpath] at hsplit
        exact (List.cons_eq_cons.mp hsplit).1
      rw [hkept]
      refine ⟨path.toList.rtakeWhile (· = '/'), ?_, ?_, ?_, ?_⟩
      · rw [String.toList_ofList, ← hbare, hsplit]
      · rcases hslashes : path.toList.rtakeWhile (· = '/') with _ | ⟨d, _⟩
        · exact .inl rfl
        · have hd := List.mem_rtakeWhile_imp (x := d) (p := (· = '/')) (l := path.toList)
            (by rw [hslashes]; exact List.mem_cons_self)
          exact .inr (by simpa using hd)
      · simp [isAbsolute, hc]
      · have hagain : (c :: tail).rdropWhile (· = '/') = c :: tail := by
          rw [← hbare, List.rdropWhile_idempotent]
        rw [withoutSlashes, String.toList_ofList, hagain]
        split
        · exact if_neg (List.cons_ne_nil c tail)
        · rfl
  · have hkept : withoutSlashes path = path := if_neg hlong
    rw [hkept]
    exact ⟨[], (List.append_nil _).symm, .inl rfl, habsolute, hkept⟩

theorem mem_splitOn_append {segment text slashes : List Char}
    (hslashes : slashes = [] ∨ slashes.head? = some '/') (h : segment ∈ text.splitOn '/') :
    segment ∈ (text ++ slashes).splitOn '/' := by
  rcases hslashes with rfl | hhead
  · rwa [List.append_nil]
  · obtain ⟨rest, rfl⟩ := List.head?_eq_some_iff.mp hhead
    rw [List.splitOn_append_cons_self]
    exact List.mem_append_left _ h

theorem normaliseTargetPath_again {value text : Option String}
    (htidy : ∀ path ∈ value, Tidy path) (h : normaliseTargetPath value = .ok text) :
    normaliseTargetPath text = .ok text := by
  unfold normaliseTargetPath at h
  split at h
  · cases h
    rfl
  · next candidate hcandidate =>
    obtain ⟨⟨path, rfl, rfl⟩, _⟩ := cleared_eq_some hcandidate
    dsimp only at h
    split at h
    · cases h
    · next hok =>
      cases h
      simp only [Bool.not_eq_true', not_or, Bool.not_eq_false] at hok
      obtain ⟨habsolute, hsegments, hnul⟩ := hok
      obtain ⟨slashes, hpath, hslashes, hagain, hsame⟩ := toList_withoutSlashes habsolute
      have hne : withoutSlashes (trim path) ≠ "" := by
        intro hempty
        rw [hempty] at hagain
        revert hagain
        decide
      rw [normaliseTargetPath, cleared_of_trimmed (htidy path rfl) hne]
      dsimp only
      rw [if_neg, hsame]
      rintro (habs | hdots | hzero)
      · rw [hagain] at habs
        cases habs
      · exact hsegments (hpath ▸ mem_splitOn_append hslashes hdots)
      · exact hnul (hpath ▸ List.mem_append_left _ hzero)

section

variable {newUrl : String → Option Url}

theorem normalisePublicUrl_again (hurl : OriginsParse newUrl) {value text : Option String}
    (h : normalisePublicUrl newUrl value = .ok text) : normalisePublicUrl newUrl text = .ok text := by
  unfold normalisePublicUrl at h
  split at h
  · cases h
    rfl
  · split at h
    · cases h
    · next candidate _ parsed hparsed =>
      split at h
      · cases h
      · next hweb =>
        cases h
        have hprotocol : parsed.protocol = "http:" ∨ parsed.protocol = "https:" := by
          by_contra hother
          exact hweb (not_or.mp hother)
        obtain ⟨htrimmed, hne, again, hagain, hweb', horigin⟩ := hurl _ parsed hparsed hprotocol
        rw [normalisePublicUrl, cleared_of_trimmed htrimmed hne]
        dsimp only
        rw [show newUrl parsed.origin = some again from hagain]
        dsimp only
        rw [if_neg, horigin]
        rintro ⟨hhttp, hhttps⟩
        exact hweb'.elim hhttp hhttps

/-- **A text that was normalised is normalised.** -/
theorem normalise_again (hurl : OriginsParse newUrl) {field : Field} {value value' : Option Json}
    (htidy : field = .defaultTargetPath → ∀ path, value = some (.string path) → Tidy path)
    (h : normalise newUrl field value = .ok value') : normalise newUrl field value' = .ok value' := by
  have hagain : ∀ normaliser : Option String → Except Refusal (Option String),
      TEXT_NORMALISERS newUrl field = some normaliser →
      (∀ typed text, asText value = .ok typed → normaliser typed = .ok text →
        normaliser text = .ok text) →
      normalise newUrl field value' = .ok value' := by
    intro normaliser hnormaliser hsame
    rw [normalise, hnormaliser] at h ⊢
    obtain ⟨typed, htyped, hrest⟩ := Fallible.bind_eq_ok.mp h
    obtain ⟨text, htext, hvalue⟩ := Fallible.bind_eq_ok.mp hrest
    cases hvalue
    have hof : asText (some (ofText text)) = .ok text := by cases text <;> rfl
    dsimp only
    rw [hof]
    change (normaliser text >>= fun text => pure (some (ofText text))) = _
    rw [hsame typed text htyped htext]
    rfl
  rcases hnormaliser : TEXT_NORMALISERS newUrl field with _ | normaliser
  · rw [normalise, hnormaliser] at h ⊢
  · refine hagain normaliser hnormaliser fun typed text htyped htext => ?_
    cases field with
    | publicUrl =>
      cases hnormaliser
      exact normalisePublicUrl_again hurl htext
    | defaultTargetPath =>
      cases hnormaliser
      refine normaliseTargetPath_again (fun path hpath => htidy rfl path ?_) htext
      unfold asText at htyped
      split at htyped <;> cases htyped <;> cases hpath
      rfl
    | defaultTargetLibraryId =>
      cases hnormaliser
      cases htext
      exact congrArg Except.ok (cleared_cleared typed)
    | _ => cases hnormaliser

/-! ### Checked settings -/

def Settled (newUrl : String → Option Url) (settings : Settings) : Prop :=
  ∀ field, normalise newUrl field (settings field) = .ok (settings field)

/-- What `_checkBounds` lets pass. -/
structure InBounds (settings : Settings) : Prop where
  order : checkedNamingOrder (settings .namingOrder) ≠ none
  numbers : ∀ entry ∈ NUMERIC_BOUNDS, ∃ n, settings entry.1 = some (.number n) ∧
    entry.2.min ≤ n ∧ n ≤ entry.2.max

theorem inBounds_of_checkBounds {candidate next : Settings} (h : checkBounds candidate = .ok next) :
    next = candidate ∧ InBounds next := by
  obtain ⟨⟨⟩, _, h⟩ := Fallible.bind_eq_ok.mp h
  obtain ⟨⟨⟩, _, h⟩ := Fallible.bind_eq_ok.mp h
  obtain ⟨⟨⟩, horder, h⟩ := Fallible.bind_eq_ok.mp h
  obtain ⟨⟨⟩, hnumbers, h⟩ := Fallible.bind_eq_ok.mp h
  cases h
  refine ⟨rfl, ?_, fun entry hentry => ?_⟩
  · intro hnone
    rw [checkOrder, if_pos hnone] at horder
    cases horder
  · have hnumber := Fallible.forM_eq_ok.mp hnumbers entry hentry
    unfold checkNumber at hnumber
    split at hnumber
    · next n hn =>
      split at hnumber
      · cases hnumber
      · next hin =>
        exact ⟨n, hn, not_lt.mp (not_or.mp hin).1, not_lt.mp (not_or.mp hin).2⟩
    · cases hnumber

theorem normalise_of_validate {candidate next : Settings}
    (h : validate newUrl candidate = .ok next) :
    (∀ field, normalise newUrl field (candidate field) = .ok (next field)) ∧ InBounds next := by
  obtain ⟨publicUrl, hurl, h⟩ := Fallible.bind_eq_ok.mp h
  obtain ⟨path, hpath, h⟩ := Fallible.bind_eq_ok.mp h
  obtain ⟨library, hlibrary, h⟩ := Fallible.bind_eq_ok.mp h
  obtain ⟨rfl, hin⟩ := inBounds_of_checkBounds h
  refine ⟨fun field => ?_, hin⟩
  cases field with
  | publicUrl => exact hurl
  | defaultTargetPath => exact hpath
  | defaultTargetLibraryId => exact hlibrary
  | _ => rfl

theorem mem_of_boundsOf {field : Field} {bounds : Bounds} (h : boundsOf field = some bounds) :
    (field, bounds) ∈ NUMERIC_BOUNDS := by
  obtain ⟨before, after, hsplit, _⟩ := List.lookup_eq_some_iff.mp h
  exact hsplit ▸ List.mem_append_right _ List.mem_cons_self

theorem isFinite_of_inBounds {entry : Field × Bounds} (h : entry ∈ NUMERIC_BOUNDS) {n : ℚ}
    (hmin : entry.2.min ≤ n) (hmax : n ≤ entry.2.max) : isFinite n = true := by
  have hall : ∀ entry ∈ NUMERIC_BOUNDS, 0 ≤ entry.2.min ∧ entry.2.max ≤ MAX_SAFE_INTEGER := by
    decide +kernel
  obtain ⟨hlow, hhigh⟩ := hall entry h
  have hfinite : (MAX_SAFE_INTEGER : ℚ) < INFINITE_FROM := by decide +kernel
  have hpositive : (0 : ℚ) < MAX_SAFE_INTEGER := by decide +kernel
  rw [isFinite, Bool.and_eq_true, decide_eq_true_eq, decide_eq_true_eq]
  constructor <;> linarith

/-- **A write is not clamped.** -/
theorem clampField_of_checked {settings : Settings} (hsettled : Settled newUrl settings)
    (hin : InBounds settings) (field : Field) :
    clampField newUrl field (settings field) = settings field := by
  unfold clampField
  split
  · next bounds hbounds =>
    have hmem := mem_of_boundsOf hbounds
    obtain ⟨n, hn, hmin, hmax⟩ := hin.numbers _ hmem
    simp only [hn]
    rw [if_pos (isFinite_of_inBounds hmem hmin hmax), max_eq_left hmin, min_eq_left hmax]
  · split
    · next hfield =>
      subst hfield
      exact if_neg hin.order
    · rw [hsettled field]

end

/-! ### Rows that are read back -/

/-- What is sent can be read back: a value of the right shape, and no untidy path. -/
def Sent.Readable (key : Field) : Sent → Prop
  | .missing => True
  | .undefined => False
  | .value submitted =>
    fitsTheShapeOf submitted (DEFAULT_SETTINGS key) key = true ∧
      (key = .defaultTargetPath → ∀ path ∈ textOf (some submitted), Tidy path)

instance (key : Field) (sent : Sent) : Decidable (sent.Readable key) := by
  unfold Sent.Readable
  split <;> infer_instance

def Patch.Readable (patch : Patch) : Prop := ∀ key, (patch key).Readable key

instance (patch : Patch) : Decidable patch.Readable := inferInstanceAs (Decidable (∀ _, _))

/-- No path that is read of the table is untidy. -/
def Table.Tidy (table : Table) : Prop :=
  ∀ path ∈ textOf (table.row .defaultTargetPath), SettingsService.Tidy path

instance (table : Table) : Decidable table.Tidy := by
  unfold Table.Tidy
  infer_instance

section

variable {newUrl : String → Option Url} {pins : Pins} {table : Table}

structure ReadsBack (newUrl : String → Option Url) (key : Field) (value : Json) : Prop where
  fits : fitsTheShapeOf value (DEFAULT_SETTINGS key) key = true
  clamped : clampField newUrl key (some value) = some value

theorem read_apply (key : Field) : table.read newUrl pins key =
    (pins.value key).or (clampField newUrl key (overDefaults table.row table.legacy key)) := rfl

theorem read_congr {table' : Table} {key : Field} (hrow : table'.row key = table.row key)
    (hlegacy : table'.legacy = table.legacy) :
    table'.read newUrl pins key = table.read newUrl pins key := by
  rw [read_apply, read_apply]
  simp only [overDefaults, hrow, hlegacy]

theorem row_eq {key : Field} {value : Json} (hrow : table.rows key = some (some value)) :
    table.row key = some value := by
  rw [Table.row, hrow]
  rfl

theorem read_of_row {key : Field} {value : Json} (hrow : table.rows key = some (some value))
    (h : ReadsBack newUrl key value) :
    table.read newUrl pins key = (pins.value key).or (some value) := by
  have hover : overDefaults table.row table.legacy key = some value := by
    simp only [overDefaults, row_eq hrow, h.fits, if_true]
  rw [read_apply, hover, h.clamped]

theorem putMany_none (table : Table) : table.putMany (fun _ => none) = table := rfl

theorem settled_read (hurl : OriginsParse newUrl) (htidy : table.Tidy) :
    Settled newUrl (table.read newUrl pins) := by
  intro field
  rcases hnormaliser : TEXT_NORMALISERS newUrl field with _ | normaliser
  · rw [normalise, hnormaliser]
  · have hpin : pins.value field = none := by
      cases field with
      | peerMaxDepth => cases hnormaliser
      | _ => rfl
    have hbounds : boundsOf field = none := by
      cases field with
      | publicUrl | defaultTargetPath | defaultTargetLibraryId => rfl
      | _ => cases hnormaliser
    have horder : field ≠ .namingOrder := by
      rintro rfl
      cases hnormaliser
    have hdefault : DEFAULT_SETTINGS field = .null := by
      cases field with
      | publicUrl | defaultTargetPath | defaultTargetLibraryId => rfl
      | _ => cases hnormaliser
    rw [read_apply, hpin, Option.none_or, clampField, hbounds]
    dsimp only
    rw [if_neg horder]
    split
    · next value hvalue =>
      refine normalise_again hurl ?_ hvalue
      rintro rfl path hpath
      refine htidy path ?_
      simp only [overDefaults] at hpath
      split at hpath
      · next stored hstored =>
        split at hpath
        · cases hpath
          rw [hstored]
          rfl
        · cases hpath
      · cases hpath
    · rw [hdefault]
      cases field with
      | publicUrl | defaultTargetPath | defaultTargetLibraryId => rfl
      | _ => cases hnormaliser

/-- A patch that can be read back, over settings that are normalised. -/
structure Written (newUrl : String → Option Url) (patch : Patch) (current next : Settings) :
    Prop where
  settled : Settled newUrl next
  missing : ∀ key, patch key = .missing → next key = current key
  rows : ∀ key value, patch key = .value value → ∃ value', next key = some value' ∧
    ReadsBack newUrl key value'

theorem written_of_prepare (hurl : OriginsParse newUrl) {patch : Patch} {current next : Settings}
    (hreadable : patch.Readable) (hsettled : Settled newUrl current)
    (h : prepare newUrl pins patch current = .ok next) : Written newUrl patch current next := by
  obtain ⟨_, _, hvalid⟩ := Fallible.bind_eq_ok.mp h
  obtain ⟨hnormal, hin⟩ := normalise_of_validate hvalid
  have hmissing : ∀ key, patch key = .missing → next key = current key := by
    intro key hkey
    have hboth := hnormal key
    rw [spread, hkey] at hboth
    exact Except.ok.inj (hboth.symm.trans (hsettled key))
  have hnext : Settled newUrl next := by
    intro key
    rcases hkey : patch key with _ | _ | value
    · rw [hmissing key hkey]
      exact hsettled key
    · have hnone := hreadable key
      rw [hkey] at hnone
      exact hnone.elim
    · refine normalise_again hurl (fun hpath path heq => ?_) (hnormal key)
      have hvalue := hreadable key
      rw [spread, hkey] at heq
      rw [hkey] at hvalue
      exact hvalue.2 hpath path (congrArg textOf heq)
  refine ⟨hnext, hmissing, fun key value hkey => ?_⟩
  have hvalue := hreadable key
  rw [hkey] at hvalue
  have hkept := hnormal key
  rw [spread, hkey] at hkept
  have hfits : ∃ value', next key = some value' ∧
      fitsTheShapeOf value' (DEFAULT_SETTINGS key) key = true := by
    rcases hnormaliser : TEXT_NORMALISERS newUrl key with _ | normaliser
    · rw [normalise, hnormaliser] at hkept
      exact ⟨value, (Except.ok.inj hkept).symm, hvalue.1⟩
    · rw [normalise, hnormaliser] at hkept
      obtain ⟨typed, _, hrest⟩ := Fallible.bind_eq_ok.mp hkept
      obtain ⟨text, _, hsome⟩ := Fallible.bind_eq_ok.mp hrest
      refine ⟨ofText text, (Except.ok.inj hsome).symm, ?_⟩
      cases key with
      | publicUrl | defaultTargetPath | defaultTargetLibraryId => cases text <;> rfl
      | _ => cases hnormaliser
  obtain ⟨value', heq, hshape⟩ := hfits
  exact ⟨value', heq, hshape, heq ▸ clampField_of_checked hnext hin key⟩

theorem rowsOf_eq_some {patch : Patch} {current next : Settings}
    (h : Written newUrl patch current next) {key : Field} {value : Json}
    (hrow : rowsOf patch next key = some value) :
    next key = some value ∧ ReadsBack newUrl key value := by
  unfold rowsOf at hrow
  split at hrow
  · next sent hsent =>
    obtain ⟨value', heq, hback⟩ := h.rows key sent hsent
    rw [heq] at hrow
    cases hrow
    exact ⟨heq, hback⟩
  · cases hrow

/-- **The table after a write reads as what was written.** -/
theorem read_putMany {patch : Patch} {next : Settings} (hreadable : patch.Readable)
    (h : Written newUrl patch (table.read newUrl pins) next) :
    applyPins pins next = (table.putMany (rowsOf patch next)).read newUrl pins := by
  funext key
  rcases hkey : patch key with _ | _ | value
  · -- Its row is as it was, and so is its value.
    have hrow : (table.putMany (rowsOf patch next)).row key = table.row key := by
      simp only [Table.row, Table.inherited, Table.putMany, rowsOf, hkey, Option.map_none,
        Option.none_or]
    rw [read_congr hrow rfl, applyPins, h.missing key hkey, read_apply]
    rcases pins.value key with _ | pin <;> rfl
  · have hnone := hreadable key
    rw [hkey] at hnone
    exact hnone.elim
  · obtain ⟨value', heq, hback⟩ := h.rows key value hkey
    have hrow : (table.putMany (rowsOf patch next)).rows key = some (some value') := by
      simp only [Table.putMany, rowsOf, hkey, heq, Option.map_some, Option.some_or]
    rw [read_of_row hrow hback, applyPins, heq]

end

end MediaCenterSync.SettingsService
