import MediaCenterSync.Naming.Correct.Components

/-!
# Another name for the same file

The text another name is made of is the stem of the name, ` - `, a suffix in which the attempt is
counted, and the extension (`composed`).  As long as no text is too long for a name, two attempts
give two names (`toldApart_of_whole`); a name with an extension that has to be cut for one loses it,
or is the name of every other attempt that is cut (`whole_of_toldApart`).
-/

namespace MediaCenterSync.Naming

open Placement (Proper folders splitBackslashes inRoot)
open Quality (isSpace)
open TransferManager (Dir)

/-! ### The parts of another name -/

section

variable (toLowerCase : String → String) (name : String) (marks : VersionMarks) (attempt : ℕ)

def stemOf : List Char := stripExtension name.toList

/-- The label, unless the stem says it already. -/
def usableLabel : Option (String × Bool) :=
  (versionLabel marks).filter fun label =>
    !((toLowerCase (tagged label.1 label.2)).toList <:+:
      (toLowerCase (.ofList (stemOf name))).toList)

/-- Whether the suffix is written inside a tag. -/
def inTag : Bool :=
  isDotted (stemOf name) || ((usableLabel toLowerCase name marks).map (·.2)).getD false

/-- What comes before the number of the attempt. -/
def lead : List Char :=
  (if inTag toLowerCase name marks then Char.ofNat 0x7B :: "edition-".toList else []) ++
    (((usableLabel toLowerCase name marks).map (·.1)).getD "").toList

def counter : List Char :=
  match usableLabel toLowerCase name marks with
  | none => (toString (attempt + 1)).toList
  | some _ => if attempt = 1 then [] else ' ' :: '(' :: (toString attempt).toList ++ [')']

def closing : List Char := if inTag toLowerCase name marks then [Char.ofNat 0x7D] else []

/-- What the stem is followed by. -/
def suffix : List Char :=
  lead toLowerCase name marks ++ (counter toLowerCase name marks attempt ++
    closing toLowerCase name marks)

/-- The text another name is cleaned from. -/
def composed : String :=
  .ofList (stemOf name ++ [' '] ++ ('-' :: ' ' :: suffix toLowerCase name marks attempt ++
    endingOf name))

theorem renamed_eq :
    renamed toLowerCase name marks attempt = sanitise (composed toLowerCase name marks attempt) := by
  have hstem : name.toList.rdrop ((extensionOf name.toList).map Char.toLower).length =
      stemOf name := by
    rw [List.length_map]
    rfl
  unfold renamed
  simp only [hstem]
  rw [← usableLabel, ← inTag, ← endingOf]
  refine congrArg sanitise (String.toList_inj.mp ?_)
  cases hlabel : usableLabel toLowerCase name marks with
  | none =>
    cases htag : inTag toLowerCase name marks <;>
      simp [composed, suffix, lead, counter, closing, hlabel, htag, tagged]
  | some label =>
    by_cases hfirst : attempt = 1 <;> cases htag : inTag toLowerCase name marks <;>
      simp [composed, suffix, lead, counter, closing, hlabel, htag, hfirst, tagged]

end

/-! ### The text of another name -/

section

variable {toLowerCase : String → String} {name : String} {marks : VersionMarks}

theorem safe_of_usable {label : String × Bool}
    (h : usableLabel toLowerCase name marks = some label) : Safe label.1.toList := by
  obtain ⟨hlabel, -⟩ := Option.filter_eq_some_iff.mp h
  unfold versionLabel at hlabel
  split at hlabel
  · exact Option.some.inj hlabel ▸ safe_sanitise _
  · exact Option.some.inj hlabel ▸ safe_sanitise _
  · cases hlabel

/-- The lead is empty only where there is no label, and then no tag either. -/
theorem lead_spec : Tidy (lead toLowerCase name marks) ∧
    (∀ c ∈ (lead toLowerCase name marks).head?, isSpace c = false) ∧
    (∀ c ∈ (lead toLowerCase name marks).getLast?, isSpace c = false) ∧
    (lead toLowerCase name marks = [] → usableLabel toLowerCase name marks = none) := by
  have hopening : Tidy (Char.ofNat 0x7B :: "edition-".toList) := Tidy.of_solid (by decide)
  have hlast : (Char.ofNat 0x7B :: "edition-".toList).getLast? = some '-' := by decide
  unfold lead
  cases hlabel : usableLabel toLowerCase name marks with
  | none =>
    cases htag : inTag toLowerCase name marks
    · exact ⟨Tidy.of_solid (by simp), by simp, by simp, fun _ => rfl⟩
    · refine ⟨by simpa using hopening, ?_, ?_, fun _ => rfl⟩ <;>
        · simp only [Option.map_none, Option.getD_none, if_true]
          decide
  | some label =>
    have hsafe := safe_of_usable hlabel
    have hne : label.1.toList ≠ [] := hsafe.nonempty
    cases htag : inTag toLowerCase name marks
    · exact ⟨by simpa using hsafe.tidy, by simpa using hsafe.head, by simpa using hsafe.last,
        by simp at hne; simp [hne]⟩
    · simp only [Option.map_some, Option.getD_some, if_true]
      refine ⟨hopening.append hsafe.tidy fun heq => ?_, ?_, ?_, by simp⟩
      · rw [hlast] at heq
        exact absurd heq (by decide)
      · intro c hc
        rw [List.cons_append, List.head?_cons, Option.mem_some_iff] at hc
        exact hc ▸ by decide
      · rw [List.getLast?_append_of_ne_nil _ hne]
        exact hsafe.last

theorem counter_cases (toLowerCase : String → String) (name : String) (marks : VersionMarks)
    (attempt : ℕ) : ∃ digits : List Char, digits ≠ [] ∧ (∀ c ∈ digits, c.isDigit) ∧
      (usableLabel toLowerCase name marks = none ∧
          counter toLowerCase name marks attempt = digits ∨
        usableLabel toLowerCase name marks ≠ none ∧ attempt = 1 ∧
          counter toLowerCase name marks attempt = [] ∨
        usableLabel toLowerCase name marks ≠ none ∧ attempt ≠ 1 ∧
          counter toLowerCase name marks attempt = ' ' :: '(' :: (digits ++ [')'])) := by
  have hdigits : ∀ n : ℕ, (toString n).toList ≠ [] ∧ ∀ c ∈ (toString n).toList, c.isDigit :=
    fun n => ⟨by simp [Nat.toString_eq_repr], fun c hc => Text.isDigit_of_mem_decimal hc⟩
  cases hlabel : usableLabel toLowerCase name marks with
  | none =>
    refine ⟨_, (hdigits (attempt + 1)).1, (hdigits (attempt + 1)).2, .inl ⟨rfl, ?_⟩⟩
    rw [counter, hlabel]
  | some label =>
    refine ⟨_, (hdigits attempt).1, (hdigits attempt).2, .inr ?_⟩
    by_cases hfirst : attempt = 1
    · exact .inl ⟨by simp, hfirst, by rw [counter, hlabel, if_pos hfirst]⟩
    · exact .inr ⟨by simp, hfirst, by rw [counter, hlabel, if_neg hfirst]; rfl⟩

theorem mem_closing {c : Char} (h : c ∈ closing toLowerCase name marks) :
    c = Char.ofNat 0x7D := by
  unfold closing at h
  split_ifs at h
  · exact List.mem_singleton.mp h
  · cases h

theorem tidy_of_plain {text : List Char} (h : ∀ c ∈ text, isPlain c) : Tidy text :=
  Tidy.of_solid fun c hc => ⟨(plain_spec (h c hc)).1, (plain_spec (h c hc)).2.1⟩

theorem tidy_counter (attempt : ℕ) : Tidy (counter toLowerCase name marks attempt) := by
  obtain ⟨digits, -, hdigits, ⟨-, heq⟩ | ⟨-, -, heq⟩ | ⟨-, -, heq⟩⟩ :=
    counter_cases toLowerCase name marks attempt
  · exact heq ▸ tidy_of_plain fun c hc => isPlain_of_isDigit (hdigits c hc)
  · exact heq ▸ Tidy.of_solid (by simp)
  · rw [heq]
    refine Tidy.cons_space (Tidy.of_solid fun c hc => ?_) (by simp)
    rcases List.mem_cons.mp hc with rfl | hc
    · decide
    · rcases List.mem_append.mp hc with hc | hc
      · have hplain := plain_spec (isPlain_of_isDigit (hdigits c hc))
        exact ⟨hplain.1, hplain.2.1⟩
      · exact List.mem_singleton.mp hc ▸ by decide

theorem last_counter (attempt : ℕ) :
    ∀ c ∈ (counter toLowerCase name marks attempt).getLast?, c ≠ '.' ∧ isSpace c = false := by
  obtain ⟨digits, -, hdigits, ⟨-, heq⟩ | ⟨-, -, heq⟩ | ⟨-, -, heq⟩⟩ :=
    counter_cases toLowerCase name marks attempt
  · intro c hc
    have hplain := plain_spec (isPlain_of_isDigit (hdigits c (List.mem_of_getLast? (heq ▸ hc))))
    exact ⟨hplain.2.2.1, hplain.2.1⟩
  · intro c hc
    rw [heq] at hc
    cases hc
  · intro c hc
    rw [heq, ← List.cons_append, ← List.cons_append, List.getLast?_concat, Option.mem_some_iff] at hc
    exact hc ▸ by decide

theorem tidy_closing : Tidy (closing toLowerCase name marks) :=
  Tidy.of_solid fun _ hc => mem_closing hc ▸ by decide

theorem tidy_endingOf (name : String) : Tidy (endingOf name) := by
  rcases endingOf_cases name with ⟨h, -⟩ | ⟨letters, h, hplain, -⟩
  · exact h ▸ Tidy.of_solid (by simp)
  · rw [h]
    have hdot : Tidy ['.'] := Tidy.of_solid (by decide)
    exact hdot.append (tidy_of_plain hplain) fun h => absurd h (by decide)

theorem suffix_spec (attempt : ℕ) : Tidy (suffix toLowerCase name marks attempt) ∧
    suffix toLowerCase name marks attempt ≠ [] ∧
    (∀ c ∈ (suffix toLowerCase name marks attempt).head?, isSpace c = false) ∧
    ∀ c ∈ (suffix toLowerCase name marks attempt).getLast?, isSpace c = false := by
  obtain ⟨hlead, hhead, hlast, hnil⟩ := @lead_spec toLowerCase name marks
  set counting := counter toLowerCase name marks attempt ++ closing toLowerCase name marks
    with hcounting
  have htidy : Tidy counting := (tidy_counter attempt).append tidy_closing fun heq =>
    absurd (last_counter attempt ' ' heq).2 (by decide)
  have hback : ∀ c ∈ counting.getLast?, isSpace c = false := by
    intro c hc
    rw [hcounting, List.getLast?_append] at hc
    rcases Option.or_eq_some_iff.mp hc with hc | ⟨-, hc⟩
    · exact mem_closing (List.mem_of_getLast? hc) ▸ by decide
    · exact (last_counter attempt c hc).2
  have hdigit : lead toLowerCase name marks = [] → counting ≠ [] ∧
      ∀ c ∈ counting.head?, isSpace c = false := by
    intro hempty
    obtain ⟨digits, hne, hdigits, ⟨-, heq⟩ | ⟨hsome, -⟩ | ⟨hsome, -⟩⟩ :=
      counter_cases toLowerCase name marks attempt
    · obtain ⟨first, others, rfl⟩ := List.exists_cons_of_ne_nil hne
      rw [hcounting, heq]
      refine ⟨by simp, fun c hc => ?_⟩
      rw [List.cons_append, List.head?_cons, Option.mem_some_iff] at hc
      exact (plain_spec (isPlain_of_isDigit (hdigits c (hc ▸ List.mem_cons_self ..)))).2.1
    · exact absurd (hnil hempty) hsome
    · exact absurd (hnil hempty) hsome
  have hsuffix : suffix toLowerCase name marks attempt = lead toLowerCase name marks ++ counting :=
    rfl
  rw [hsuffix]
  refine ⟨hlead.append htidy fun heq => absurd (hlast ' ' heq) (by decide), fun hempty => ?_, ?_, ?_⟩
  · obtain ⟨hempty, hempty'⟩ := List.append_eq_nil_iff.mp hempty
    exact (hdigit hempty).1 hempty'
  · intro c hc
    rw [List.head?_append] at hc
    rcases Option.or_eq_some_iff.mp hc with hc | ⟨hnone, hc⟩
    · exact hhead c hc
    · exact (hdigit (List.head?_eq_none_iff.mp hnone)).2 c hc
  · intro c hc
    rw [List.getLast?_append] at hc
    rcases Option.or_eq_some_iff.mp hc with hc | ⟨-, hc⟩
    · exact hback c hc
    · exact hlast c hc

theorem firm_dashed {attempt : ℕ} (h : endingOf name = [] →
      (suffix toLowerCase name marks attempt).getLast? ≠ some '.') :
    Firm ('-' :: ' ' :: (suffix toLowerCase name marks attempt ++ endingOf name)) := by
  obtain ⟨htidy, hne, hhead, hlast⟩ := @suffix_spec toLowerCase name marks attempt
  have hall : Tidy (suffix toLowerCase name marks attempt ++ endingOf name) :=
    htidy.append (tidy_endingOf name) fun heq => absurd (hlast ' ' heq) (by decide)
  have hfirst : (suffix toLowerCase name marks attempt ++ endingOf name).head? ≠ some ' ' := by
    rw [List.head?_append_of_ne_nil _ hne]
    exact fun heq => absurd (hhead ' ' heq) (by decide)
  have hdash : Tidy ['-'] := Tidy.of_solid (by decide)
  refine ⟨hdash.append (hall.cons_space hfirst) fun heq => absurd heq (by decide), by simp, ?_, ?_⟩
  · intro c hc
    rw [List.head?_cons, Option.mem_some_iff] at hc
    exact hc ▸ by decide
  · intro c hc
    have hsplit : ('-' :: ' ' :: (suffix toLowerCase name marks attempt ++ endingOf name)).getLast? =
        (suffix toLowerCase name marks attempt ++ endingOf name).getLast? := by
      have hback : suffix toLowerCase name marks attempt ++ endingOf name ≠ [] := by simp [hne]
      rw [List.getLast?_cons_of_ne_nil (by simp), List.getLast?_cons_of_ne_nil hback]
    rw [hsplit] at hc
    rcases endingOf_cases name with ⟨hnone, -⟩ | ⟨letters, hending, hplain, hpos, -⟩
    · rw [hnone, List.append_nil] at hc
      exact ⟨fun heq => h hnone (heq ▸ hc), hlast c hc⟩
    · have hletters : letters ≠ [] := by
        rintro rfl
        cases hpos
      rw [hending, List.getLast?_append_of_ne_nil _ (by simp),
        List.getLast?_cons_of_ne_nil hletters] at hc
      have hc := plain_spec (hplain c (List.mem_of_getLast? hc))
      exact ⟨hc.2.2.1, hc.2.1⟩

/-- The stem and a space, cleaned. -/
def base (name : String) : List Char := front (stemOf name ++ [' '])

theorem cleaned_composed {attempt : ℕ} (h : endingOf name = [] →
      (suffix toLowerCase name marks attempt).getLast? ≠ some '.') :
    cleaned (composed toLowerCase name marks attempt) =
      base name ++ '-' :: ' ' :: (suffix toLowerCase name marks attempt ++ endingOf name) :=
  cleaned_append (firm_dashed h) _

theorem length_base (h : Safe name.toList) : (stemOf name).length ≤ (base name).length := by
  have hstem : stemOf name <+: name.toList := ⟨_, stripExtension_append name.toList⟩
  have htidy : Tidy (stemOf name) := h.tidy.of_part hstem.isInfix
  obtain ⟨tail, htail⟩ := htidy.prefix_squeeze [' ']
  have hblank : blanked (stemOf name ++ [' ']) = stemOf name ++ [' '] := by
    have hspace : blanked [' '] = [' '] := by decide
    calc blanked (stemOf name ++ [' ']) = blanked (stemOf name) ++ blanked [' '] :=
          List.map_append
      _ = stemOf name ++ [' '] := by rw [blanked_eq htidy, hspace]
  rw [base, front, hblank, ← htail]
  cases hcases : stemOf name with
  | nil => exact Nat.zero_le _
  | cons c rest =>
    obtain ⟨ending, hname⟩ := hstem
    have hc : isSpace c = false := h.head c (by rw [← hname, hcases]; rfl)
    rw [List.cons_append, List.dropWhile_cons_of_neg (by simp [hc]), List.length_cons,
      List.length_cons, List.length_append]
    omega

end

/-! ### Names that fit -/

section

variable (toLowerCase : String → String) (name : String) (marks : VersionMarks)

/-- An attempt whose text is no longer than a name may be, and that gives a name without an
extension none. -/
structure Whole (attempt : ℕ) : Prop where
  uncut : ¬ Cut (composed toLowerCase name marks attempt)
  bare : endingOf name = [] → extensionOf (suffix toLowerCase name marks attempt) = [] ∧
    (suffix toLowerCase name marks attempt).getLast? ≠ some '.'

variable {toLowerCase name marks} {m n attempt : ℕ}

theorem renamed_of_whole (h : Whole toLowerCase name marks attempt) :
    (renamed toLowerCase name marks attempt).toList =
      base name ++ '-' :: ' ' :: (suffix toLowerCase name marks attempt ++ endingOf name) := by
  have hcleaned : cleaned (composed toLowerCase name marks attempt) = _ :=
    cleaned_composed fun hnone => (h.bare hnone).2
  rw [renamed_eq, sanitise_of_not_cut h.uncut, hcleaned]
  · rw [hcleaned]
    simp
  · rw [hcleaned]
    exact not_reserved_of_space (by simp)

/-- **The number of the attempt can be read back.** -/
theorem counter_injective
    (h : counter toLowerCase name marks m = counter toLowerCase name marks n) : m = n := by
  unfold counter at h
  split at h
  · have hsucc := Text.decimal_injective (String.toList_inj.mp h)
    omega
  · split_ifs at h with hm hn hn
    · rw [hm, hn]
    · cases h
    · cases h
    · have hdigits := List.append_cancel_right (List.cons.inj (List.cons.inj h).2).2
      exact Text.decimal_injective (String.toList_inj.mp hdigits)

theorem renamed_injective (hm : Whole toLowerCase name marks m)
    (hn : Whole toLowerCase name marks n)
    (h : renamed toLowerCase name marks m = renamed toLowerCase name marks n) : m = n := by
  have hlist := congrArg String.toList h
  rw [renamed_of_whole hm, renamed_of_whole hn] at hlist
  have hsuffix : suffix toLowerCase name marks m = suffix toLowerCase name marks n := by
    have htail := List.append_cancel_left hlist
    exact List.append_cancel_right (List.cons.inj (List.cons.inj htail).2).2
  exact counter_injective (List.append_cancel_right (List.append_cancel_left hsuffix))

theorem renamed_ne (hname : Safe name.toList) (h : Whole toLowerCase name marks attempt) :
    renamed toLowerCase name marks attempt ≠ name := by
  intro heq
  have hlength := congrArg (List.length ∘ String.toList) heq
  have hbase := length_base hname
  have hsplit := congrArg List.length (stripExtension_append name.toList)
  rw [List.length_append] at hsplit
  simp only [Function.comp_apply, renamed_of_whole h, List.length_append, List.length_cons,
    endingOf, List.length_map] at hlength
  have hstem : (stemOf name).length = (stripExtension name.toList).length := rfl
  omega

theorem endingOf_renamed (h : Whole toLowerCase name marks attempt) :
    endingOf (renamed toLowerCase name marks attempt) = endingOf name := by
  rw [endingOf, renamed_of_whole h]
  rcases endingOf_cases name with ⟨hnone, -⟩ | ⟨letters, hending, hplain, hpos, hlength, hlower⟩
  · have hsplit : base name ++ '-' :: ' ' :: suffix toLowerCase name marks attempt =
        base name ++ ['-'] ++ ' ' :: suffix toLowerCase name marks attempt := by simp
    rw [hnone, List.append_nil, hsplit, extensionOf_append_cons (by decide) (by decide),
      (h.bare hnone).1, List.map_nil]
  · have hsplit : base name ++ '-' :: ' ' :: (suffix toLowerCase name marks attempt ++
        '.' :: letters) = base name ++ '-' :: ' ' :: suffix toLowerCase name marks attempt ++
          '.' :: letters := by simp
    have hdot : Char.toLower '.' = '.' := by decide
    rw [hending, hsplit, extensionOf_append hplain hpos hlength, List.map_cons, hlower, hdot]

end

/-! ### Names that have to be cut -/

section

variable {toLowerCase : String → String} {name : String} {marks : VersionMarks} {attempt : ℕ}

/-- What cleaning keeps up to the number of the attempt. -/
def uncounted (toLowerCase : String → String) (name : String) (marks : VersionMarks) : List Char :=
  base name ++ '-' :: ' ' :: lead toLowerCase name marks

/-- The number of the attempt, and what stands behind it. -/
def counted (toLowerCase : String → String) (name : String) (marks : VersionMarks) (attempt : ℕ) :
    List Char :=
  counter toLowerCase name marks attempt ++ closing toLowerCase name marks ++ endingOf name

theorem cleaned_eq {letters : List Char} (h : endingOf name = '.' :: letters) :
    cleaned (composed toLowerCase name marks attempt) =
      uncounted toLowerCase name marks ++ counted toLowerCase name marks attempt := by
  rw [cleaned_composed fun hnone => absurd (h.symm.trans hnone) (by simp)]
  simp [uncounted, counted, suffix]

theorem narrow_counted (attempt : ℕ) :
    ∀ c ∈ counted toLowerCase name marks attempt, c.toNat < 0x10000 := by
  intro c hc
  rcases List.mem_append.mp hc with hc | hc
  · rcases List.mem_append.mp hc with hc | hc
    · obtain ⟨digits, -, hdigits, ⟨-, heq⟩ | ⟨-, -, heq⟩ | ⟨-, -, heq⟩⟩ :=
        counter_cases toLowerCase name marks attempt
      · exact (plain_spec (isPlain_of_isDigit (hdigits c (heq ▸ hc)))).2.2.2.1
      · rw [heq] at hc
        cases hc
      · rw [heq] at hc
        simp only [List.mem_cons, List.mem_append, List.not_mem_nil, or_false] at hc
        rcases hc with rfl | rfl | hc | rfl
        · decide
        · decide
        · exact (plain_spec (isPlain_of_isDigit (hdigits c hc))).2.2.2.1
        · decide
    · exact mem_closing hc ▸ by decide
  · rcases endingOf_cases name with ⟨hnone, -⟩ | ⟨letters, hending, hplain, -⟩
    · rw [hnone] at hc
      cases hc
    · rw [hending] at hc
      rcases List.mem_cons.mp hc with rfl | hc
      · decide
      · exact (plain_spec (hplain c hc)).2.2.2.1

theorem head_uncounted :
    ∀ c ∈ (uncounted toLowerCase name marks).head?, isSpace c = false := by
  intro c hc
  rw [uncounted, List.head?_append] at hc
  rcases Option.or_eq_some_iff.mp hc with hc | ⟨-, hc⟩
  · exact head_dropWhile _ c hc
  · rw [List.head?_cons, Option.some.injEq] at hc
    exact hc ▸ by decide

/-- A text with no dot behind a character that is not plain has no extension. -/
theorem extensionOf_kept (stem : List Char) {c : Char} {rest : List Char}
    (hhead : ∀ d ∈ (stem ++ c :: rest).head?, isSpace d = false) (hplain : isPlain c = false)
    (hdot : c ≠ '.') (hrest : ∀ d ∈ rest, isSpace d = false ∧ d ≠ '.')
    (hlast : rest = [] → isSpace c = false) : extensionOf (trimChars (stem ++ c :: rest)) = [] := by
  have htrim : trimChars (stem ++ c :: rest) = stem ++ c :: rest := by
    refine trimChars_eq hhead fun d hd => ?_
    rw [List.getLast?_append_of_ne_nil _ (by simp)] at hd
    cases hcases : rest with
    | nil =>
      rw [hcases, List.getLast?_singleton, Option.mem_some_iff] at hd
      exact hd ▸ hlast hcases
    | cons first others =>
      rw [hcases, List.getLast?_cons_of_ne_nil (by simp), ← hcases] at hd
      exact (hrest d (List.mem_of_getLast? hd)).1
  rw [htrim, extensionOf_append_cons hplain hdot]
  exact extensionOf_of_plain fun hmem => (hrest '.' hmem).2 rfl

theorem digit_spec {c : Char} (h : c.isDigit) : isSpace c = false ∧ c ≠ '.' :=
  ⟨(plain_spec (isPlain_of_isDigit h)).2.1, (plain_spec (isPlain_of_isDigit h)).2.2.1⟩

theorem closing_spec {c : Char} (h : c ∈ closing toLowerCase name marks) :
    isSpace c = false ∧ c ≠ '.' :=
  mem_closing h ▸ by decide

/-- **What is left of a text that is cut inside its number has no extension**, unless only the space
in front of the number is left. -/
theorem extensionOf_cut_counter {count : ℕ} (hpos : 0 < count)
    (hcount : count ≤ (counter toLowerCase name marks attempt ++
      closing toLowerCase name marks).length)
    (hkept : (counter toLowerCase name marks attempt ++
      closing toLowerCase name marks).take count ≠ [' ']) :
    extensionOf (trimChars (uncounted toLowerCase name marks ++
      (counter toLowerCase name marks attempt ++ closing toLowerCase name marks).take count)) =
        [] := by
  have hhead : ∀ rest, ∀ d ∈ (uncounted toLowerCase name marks ++ rest).head?,
      isSpace d = false := by
    intro rest d hd
    rw [List.head?_append_of_ne_nil _ (by simp [uncounted])] at hd
    exact head_uncounted d hd
  obtain ⟨digits, hne, hdigits, ⟨hnone, heq⟩ | ⟨hsome, -, heq⟩ | ⟨hsome, -, heq⟩⟩ :=
    counter_cases toLowerCase name marks attempt
  · -- what the number follows is a dash or a space
    rw [heq] at hcount ⊢
    have hrest : ∀ d ∈ (digits ++ closing toLowerCase name marks).take count,
        isSpace d = false ∧ d ≠ '.' := by
      intro d hd
      rcases List.mem_append.mp (List.mem_of_mem_take hd) with hd | hd
      · exact digit_spec (hdigits d hd)
      · exact closing_spec hd
    have hempty : (digits ++ closing toLowerCase name marks).take count ≠ [] := by
      have hlength := List.length_take_of_le hcount
      intro hnil
      rw [hnil, List.length_nil] at hlength
      omega
    have hstop : ∃ stem c, uncounted toLowerCase name marks = stem ++ [c] ∧ isPlain c = false ∧
        c ≠ '.' := by
      cases htag : inTag toLowerCase name marks with
      | false =>
        exact ⟨base name ++ ['-'], ' ', by simp [uncounted, lead, hnone, htag], by decide,
          by decide⟩
      | true =>
        exact ⟨base name ++ '-' :: ' ' :: Char.ofNat 0x7B :: "edition".toList, '-',
          by simp [uncounted, lead, hnone, htag], by decide, by decide⟩
    obtain ⟨stem, c, huncounted, hplain, hdot⟩ := hstop
    have hfirst := hhead ((digits ++ closing toLowerCase name marks).take count)
    rw [huncounted, List.append_assoc, List.singleton_append] at hfirst ⊢
    exact extensionOf_kept stem hfirst hplain hdot hrest fun hnil => absurd hnil hempty
  · -- nothing is counted, and the bracket of a tag is all there is
    rw [heq, List.nil_append] at hcount ⊢
    have hclosing : (closing toLowerCase name marks).take count = [Char.ofNat 0x7D] := by
      unfold closing at hcount ⊢
      split_ifs at hcount ⊢
      · exact List.take_of_length_le hpos
      · exact absurd hcount (by simp; omega)
    rw [hclosing]
    exact extensionOf_kept _ (hhead _) (by decide) (by decide) (by simp) fun _ => by decide
  · -- the number stands in brackets
    rw [heq] at hkept ⊢
    match count, hpos with
    | 1, _ => exact absurd rfl hkept
    | count + 2, _ =>
      have hsplit : (' ' :: '(' :: (digits ++ [')']) ++ closing toLowerCase name marks).take
          (count + 2) = ' ' :: '(' :: (digits ++ [')'] ++ closing toLowerCase name marks).take
            count := by
        simp
      have hfirst := hhead (' ' :: '(' :: (digits ++ [')'] ++ closing toLowerCase name marks).take
        count)
      rw [hsplit]
      rw [← List.singleton_append, ← List.append_assoc] at hfirst ⊢
      refine extensionOf_kept _ hfirst (by decide) (by decide) (fun d hd => ?_) fun _ => by decide
      rcases List.mem_append.mp (List.mem_of_mem_take hd) with hd | hd
      · rcases List.mem_append.mp hd with hd | hd
        · exact digit_spec (hdigits d hd)
        · exact List.mem_singleton.mp hd ▸ by decide
      · exact closing_spec hd

theorem length_extensionOf_cut {letters text : List Char} (h : ∀ c ∈ letters, isPlain c)
    (hhead : ∀ c ∈ (text ++ '.' :: letters).head?, isSpace c = false) :
    (extensionOf (trimChars (text ++ '.' :: letters))).length ≤ letters.length + 1 := by
  have htrim : trimChars (text ++ '.' :: letters) = text ++ '.' :: letters := by
    refine trimChars_eq hhead fun c hc => ?_
    rw [List.getLast?_append_of_ne_nil _ (by simp)] at hc
    rcases List.mem_cons.mp (List.mem_of_getLast? hc) with rfl | hc
    · decide
    · exact (plain_spec (h c hc)).2.1
  rw [htrim]
  rcases extensionOf_dot h text with hnone | hsome
  · rw [hnone]
    exact Nat.zero_le _
  · rw [hsome, List.length_cons]

/-- **A text that is cut and keeps its extension is cut before its number**, wherever that is. -/
theorem trimmed_of_kept {letters : List Char} (hending : endingOf name = '.' :: letters)
    (hcut : Cut (composed toLowerCase name marks attempt))
    (hkept : endingOf (renamed toLowerCase name marks attempt) = endingOf name) :
    MAX_COMPONENT_LENGTH ≤ width (uncounted toLowerCase name marks) + 1 ∧
      trimmed (composed toLowerCase name marks attempt) =
        trimChars (takeUnits MAX_COMPONENT_LENGTH (uncounted toLowerCase name marks ++ [' '])) := by
  have hcleaned : cleaned (composed toLowerCase name marks attempt) =
      uncounted toLowerCase name marks ++ counted toLowerCase name marks attempt :=
    cleaned_eq hending
  have htrimmed : trimmed (composed toLowerCase name marks attempt) =
      trimChars (takeUnits MAX_COMPONENT_LENGTH (uncounted toLowerCase name marks ++
        counted toLowerCase name marks attempt)) := by
    rw [← hcleaned]
    exact trimmed_of_cut hcut
  have hlength : (extensionOf (trimmed (composed toLowerCase name marks attempt))).length =
      letters.length + 1 := by
    have hne : cleaned (composed toLowerCase name marks attempt) ≠ [] := by
      rw [hcleaned]
      simp [uncounted]
    have hsame := congrArg List.length (hkept.trans hending)
    rwa [endingOf, List.length_map, renamed_eq, extensionOf_sanitise hne] at hsame
  have hplain : ∀ c ∈ letters, isPlain c := by
    rcases endingOf_cases name with ⟨hnone, -⟩ | ⟨letters', hsome, hplain, -⟩
    · exact absurd (hending.symm.trans hnone) (by simp)
    · obtain rfl := (List.cons.inj (hending.symm.trans hsome)).2
      exact hplain
  rcases Nat.lt_or_ge (width (uncounted toLowerCase name marks)) MAX_COMPONENT_LENGTH with
    hroom | hfull
  · -- the cut falls behind what comes before the number
    set room := MAX_COMPONENT_LENGTH - width (uncounted toLowerCase name marks) with hroom_def
    set number := counter toLowerCase name marks attempt ++ closing toLowerCase name marks
      with hnumber
    have hcounted : counted toLowerCase name marks attempt = number ++ '.' :: letters := by
      rw [counted, hending]
    have htake : takeUnits MAX_COMPONENT_LENGTH (uncounted toLowerCase name marks ++
        counted toLowerCase name marks attempt) =
          uncounted toLowerCase name marks ++ (number ++ '.' :: letters).take room := by
      rw [takeUnits_append hroom.le, takeUnits_narrow (narrow_counted attempt), hcounted]
    have hlong : room < number.length + (letters.length + 1) := by
      have hwidth : MAX_COMPONENT_LENGTH < width (uncounted toLowerCase name marks ++
          counted toLowerCase name marks attempt) := hcleaned ▸ hcut
      rw [width_append, width_narrow (narrow_counted attempt), hcounted, List.length_append,
        List.length_cons] at hwidth
      omega
    rw [htrimmed, htake] at hlength
    rcases Nat.lt_or_ge number.length room with hbehind | hinside
    · -- the extension would be a part of itself
      obtain ⟨more, hmore⟩ := Nat.exists_eq_add_of_lt hbehind
      have hpart : (number ++ '.' :: letters).take room = number ++ '.' :: letters.take more := by
        rw [List.take_append, List.take_of_length_le hbehind.le,
          show room - number.length = more + 1 by omega, List.take_succ_cons]
      have hletters : ∀ c ∈ letters.take more, isPlain c :=
        fun c hc => hplain c (List.mem_of_mem_take hc)
      have hhead : ∀ c ∈ (uncounted toLowerCase name marks ++ number ++ '.' ::
          letters.take more).head?, isSpace c = false := by
        intro c hc
        rw [List.append_assoc, List.head?_append_of_ne_nil _ (by simp [uncounted])] at hc
        exact head_uncounted c hc
      have hle := length_extensionOf_cut hletters hhead
      rw [hpart, ← List.append_assoc] at hlength
      rw [hlength, List.length_take] at hle
      omega
    · have hpart : (number ++ '.' :: letters).take room = number.take room := by
        rw [List.take_append_of_le_length hinside]
      by_cases hspace : number.take room = [' ']
      · have hone : room = 1 := by
          have hlen := congrArg List.length hspace
          rw [List.length_take_of_le hinside] at hlen
          exact hlen
        refine ⟨by omega, ?_⟩
        rw [htrimmed, htake, hpart, hspace, takeUnits_append hroom.le, takeUnits_narrow (by decide),
          ← hroom_def, hone]
        rfl
      · rw [hpart, extensionOf_cut_counter (by omega) hinside hspace] at hlength
        simp at hlength
  · refine ⟨by omega, ?_⟩
    rw [htrimmed, takeUnits_append_of_le hfull, takeUnits_append_of_le hfull]

/-- Of two attempts that give two names with the extension, neither had to be cut. -/
theorem uncut_of_kept {m n : ℕ} (hext : endingOf name ≠ [])
    (hm : endingOf (renamed toLowerCase name marks m) = endingOf name)
    (hn : endingOf (renamed toLowerCase name marks n) = endingOf name)
    (hne : renamed toLowerCase name marks m ≠ renamed toLowerCase name marks n) :
    ¬ Cut (composed toLowerCase name marks m) := by
  intro hcut
  obtain ⟨hnone, -⟩ | ⟨letters, hending, -, hpos, -⟩ := endingOf_cases name
  · exact hext hnone
  obtain ⟨hwidth, htrimmed⟩ := trimmed_of_kept hending hcut hm
  have hcut' : Cut (composed toLowerCase name marks n) := by
    have hcounted : letters.length + 1 ≤ (counted toLowerCase name marks n).length := by
      rw [counted, hending, List.length_append, List.length_cons]
      omega
    rw [Cut, cleaned_eq hending, width_append, width_narrow (narrow_counted n)]
    omega
  obtain ⟨-, htrimmed'⟩ := trimmed_of_kept hending hcut' hn
  have hcleaned : ∀ attempt, cleaned (composed toLowerCase name marks attempt) ≠ [] := by
    intro attempt
    rw [cleaned_eq hending]
    simp [uncounted]
  refine hne ?_
  rw [renamed_eq, renamed_eq]
  exact sanitise_congr (hcleaned m) (hcleaned n) (htrimmed.trans htrimmed'.symm)

end

/-! ### Relative names -/

section

variable (toLowerCase : String → String) (relativeName : List String) (marks : VersionMarks)

/-- Two attempts that give a file two new names in the folder it was to be in, with the extension
it has. -/
structure ToldApart (m n : ℕ) : Prop where
  distinct : disambiguate toLowerCase relativeName marks m ≠
    disambiguate toLowerCase relativeName marks n
  new : ∀ attempt ∈ [m, n], disambiguate toLowerCase relativeName marks attempt ≠ relativeName
  directory : ∀ attempt ∈ [m, n],
    (disambiguate toLowerCase relativeName marks attempt).dropLast = relativeName.dropLast
  extension : ∀ attempt ∈ [m, n],
    extension (some (disambiguate toLowerCase relativeName marks attempt)) =
      extension (some relativeName)

/-- An attempt that fits, in folders whose names hold no separator. -/
structure Fits (attempt : ℕ) : Prop where
  folders : ∀ part ∈ relativeName.dropLast, Char.ofNat 0x5C ∉ part.toList
  whole : Whole toLowerCase (relativeName.getLastD "") marks attempt

end

/-- A name that holds no separator is not taken apart, and no other is. -/
theorem flatMap_splitBackslashes_iff {parts : List String} :
    parts.flatMap splitBackslashes = parts ↔ ∀ part ∈ parts, Char.ofNat 0x5C ∉ part.toList := by
  induction parts with
  | nil => simp
  | cons part rest ih =>
    rw [List.flatMap_cons, List.forall_mem_cons]
    by_cases hpart : Char.ofNat 0x5C ∈ part.toList
    · refine iff_of_false (fun heq => ?_) fun h => h.1 hpart
      -- what is before the first separator is shorter than the name
      obtain ⟨front, back, hpart_eq, hfront⟩ := List.eq_append_cons_of_mem hpart
      have hsplit : splitBackslashes part = .ofList front ::
          (back.splitOn (Char.ofNat 0x5C)).map String.ofList := by
        rw [splitBackslashes, hpart_eq, List.splitOn_append_cons_self_of_not_mem hfront,
          List.map_cons]
      rw [hsplit, List.cons_append] at heq
      have hlength := congrArg (List.length ∘ String.toList) (List.cons.inj heq).1
      simp only [Function.comp_apply, String.toList_ofList, hpart_eq, List.length_append,
        List.length_cons] at hlength
      omega
    · rw [Placement.splitBackslashes_eq hpart, List.singleton_append, List.cons_inj_right]
      exact ih.trans (and_iff_right hpart).symm

theorem extension_concat (parts : List String) {name : String} (h : Proper name) :
    extension (some (parts ++ [name])) = .ofList (endingOf name) := by
  have hbasename : basename (parts ++ [name]) = name.toList := by
    rw [basename, List.getLastD_concat, List.rtakeWhile_eq_self_iff]
    intro c hc
    have hne : c ≠ Char.ofNat 0x5C := fun heq => h.whole (heq ▸ hc)
    simpa using hne
  rw [extension, Option.map_some, Option.getD_some, hbasename]
  rfl

section

variable {toLowerCase : String → String} {parts : List String} {name : String}
  {marks : VersionMarks} {m n attempt : ℕ}

theorem disambiguate_of_fits (hname : Proper name)
    (h : Fits toLowerCase (parts ++ [name]) marks attempt) :
    disambiguate toLowerCase (parts ++ [name]) marks attempt =
      parts ++ [renamed toLowerCase name marks attempt] := by
  have hfolders := h.folders
  rw [List.dropLast_concat] at hfolders
  rw [disambiguate_concat toLowerCase parts hname, flatMap_splitBackslashes_iff.mpr hfolders]

theorem whole_of_fits (h : Fits toLowerCase (parts ++ [name]) marks attempt) :
    Whole toLowerCase name marks attempt := by
  have hwhole := h.whole
  rwa [List.getLastD_concat] at hwhole

/-- **Two attempts that fit are told apart.** -/
theorem toldApart_of_fits (hname : Proper name) (hsafe : Safe name.toList)
    (hm : Fits toLowerCase (parts ++ [name]) marks m)
    (hn : Fits toLowerCase (parts ++ [name]) marks n) (hne : m ≠ n) :
    ToldApart toLowerCase (parts ++ [name]) marks m n := by
  have hfits : ∀ attempt ∈ [m, n], Fits toLowerCase (parts ++ [name]) marks attempt := by
    intro attempt hattempt
    simp only [List.mem_cons, List.not_mem_nil, or_false] at hattempt
    rcases hattempt with rfl | rfl
    · exact hm
    · exact hn
  refine ⟨fun heq => hne ?_, fun attempt hin heq => ?_, fun attempt hin => ?_,
    fun attempt hin => ?_⟩
  · rw [disambiguate_of_fits hname hm, disambiguate_of_fits hname hn] at heq
    have hlast := List.append_cancel_left heq
    exact renamed_injective (whole_of_fits hm) (whole_of_fits hn) (List.singleton_inj.mp hlast)
  · rw [disambiguate_of_fits hname (hfits attempt hin)] at heq
    have hlast := List.append_cancel_left heq
    exact renamed_ne hsafe (whole_of_fits (hfits attempt hin)) (List.singleton_inj.mp hlast)
  · rw [disambiguate_of_fits hname (hfits attempt hin), List.dropLast_concat, List.dropLast_concat]
  · rw [disambiguate_of_fits hname (hfits attempt hin),
      extension_concat parts (proper_renamed toLowerCase name marks attempt),
      extension_concat parts hname, endingOf_renamed (whole_of_fits (hfits attempt hin))]

/-- **Two attempts that tell a name with an extension apart fit.** -/
theorem fits_of_toldApart (hname : Proper name) (hext : endingOf name ≠ [])
    (h : ToldApart toLowerCase (parts ++ [name]) marks m n) :
    Fits toLowerCase (parts ++ [name]) marks m ∧ Fits toLowerCase (parts ++ [name]) marks n := by
  have hconcat := fun attempt => disambiguate_concat toLowerCase parts hname marks attempt
  have hfolders : parts.flatMap splitBackslashes = parts := by
    have hdirectory := h.directory m (by simp)
    rwa [hconcat, List.dropLast_concat, List.dropLast_concat] at hdirectory
  have hkept : ∀ attempt ∈ [m, n],
      endingOf (renamed toLowerCase name marks attempt) = endingOf name := by
    intro attempt hattempt
    have hextension := h.extension attempt hattempt
    rw [hconcat, extension_concat _ (proper_renamed toLowerCase name marks attempt),
      extension_concat _ hname] at hextension
    exact String.ofList_inj.mp hextension
  have hdistinct : renamed toLowerCase name marks m ≠ renamed toLowerCase name marks n := by
    intro heq
    refine h.distinct ?_
    rw [hconcat, hconcat, heq]
  have hfits : ∀ attempt, ¬ Cut (composed toLowerCase name marks attempt) →
      Fits toLowerCase (parts ++ [name]) marks attempt := by
    intro attempt huncut
    refine ⟨?_, ?_⟩
    · rw [List.dropLast_concat]
      exact flatMap_splitBackslashes_iff.mp hfolders
    · rw [List.getLastD_concat]
      exact ⟨huncut, fun hnone => absurd hnone hext⟩
  have hm := hkept m (by simp)
  have hn := hkept n (by simp)
  exact ⟨hfits m (uncut_of_kept hext hm hn hdistinct),
    hfits n (uncut_of_kept hext hn hm hdistinct.symm)⟩

end

/-! ### A path that is free -/

section

variable {toLowerCase : String → String} {parts : List String} {name : String}
  {marks : VersionMarks} {attempt : ℕ}

theorem inRoot_of_fits (root : Dir) (hname : Proper name)
    (h : Fits toLowerCase (parts ++ [name]) marks attempt) :
    inRoot root (disambiguate toLowerCase (parts ++ [name]) marks attempt) =
      root ++ folders parts ++ [renamed toLowerCase name marks attempt] := by
  rw [disambiguate_of_fits hname h, inRoot,
    Placement.safeRelative_concat _ (proper_renamed toLowerCase name marks attempt),
    ← List.append_assoc]

theorem inRoot_concat (root : Dir) (hname : Proper name) :
    inRoot root (parts ++ [name]) = root ++ folders parts ++ [name] := by
  rw [inRoot, Placement.safeRelative_concat parts hname, ← List.append_assoc]

/-- The path a file wants and its first alternatives are all different. -/
theorem nodup_tried (root : Dir) (hname : Proper name) (hsafe : Safe name.toList) {count : ℕ}
    (hfits : ∀ attempt, 1 ≤ attempt → attempt ≤ count →
      Fits toLowerCase (parts ++ [name]) marks attempt) :
    (inRoot root (parts ++ [name]) :: (List.range count).map fun index =>
      inRoot root (disambiguate toLowerCase (parts ++ [name]) marks (index + 1))).Nodup := by
  have hpath : ∀ index < count,
      inRoot root (disambiguate toLowerCase (parts ++ [name]) marks (index + 1)) =
        root ++ folders parts ++ [renamed toLowerCase name marks (index + 1)] :=
    fun index hindex => inRoot_of_fits root hname (hfits (index + 1) (by omega) (by omega))
  have hwhole : ∀ index < count, Whole toLowerCase name marks (index + 1) :=
    fun index hindex => whole_of_fits (hfits (index + 1) (by omega) (by omega))
  refine List.nodup_cons.mpr ⟨fun hmem => ?_, ?_⟩
  · obtain ⟨index, hindex, heq⟩ := List.mem_map.mp hmem
    have hlt := List.mem_range.mp hindex
    rw [hpath index hlt, inRoot_concat root hname] at heq
    exact renamed_ne hsafe (hwhole index hlt) (List.singleton_inj.mp (List.append_cancel_left heq))
  · refine List.Nodup.map_on (fun left hleft right hright heq => ?_) List.nodup_range
    have hl := List.mem_range.mp hleft
    have hr := List.mem_range.mp hright
    rw [hpath left hl, hpath right hr] at heq
    have hsame := renamed_injective (hwhole left hl) (hwhole right hr)
      (List.singleton_inj.mp (List.append_cancel_left heq))
    omega

/-- **With fewer paths held than names are tried, one of the names is free**, and it is found before
more names are tried than paths are held. -/
theorem freePath_of_fits (disk : Placement.Disk) (request : Placement.PlacementRequest) (root : Dir)
    {held : List Dir} (hname : Proper name) (hsafe : Safe name.toList)
    (hrequest : request.disambiguate = fun relativeName attempt =>
      disambiguate toLowerCase relativeName marks attempt)
    (hheld : ∀ path : Dir, path.dropLast = (inRoot root (parts ++ [name])).dropLast →
      Placement.occupied disk request.reserved request.replacesPath path → path ∈ held)
    (hfew : held.length < Placement.MAX_NAME_ATTEMPTS)
    (hfits : ∀ attempt, 1 ≤ attempt → attempt ≤ held.length →
      Fits toLowerCase (parts ++ [name]) marks attempt) :
    ∃ path note, Placement.freePath disk request root (parts ++ [name]) = .ok (path, note) ∧
      (path = inRoot root (parts ++ [name]) ∨ ∃ attempt, 1 ≤ attempt ∧ attempt ≤ held.length ∧
        path = inRoot root (disambiguate toLowerCase (parts ++ [name]) marks attempt)) := by
  set wanted := inRoot root (parts ++ [name]) with hwanted
  set candidate := fun index =>
    inRoot root (disambiguate toLowerCase (parts ++ [name]) marks (index + 1)) with hcandidate
  set occupied := Placement.occupied disk request.reserved request.replacesPath with hoccupied
  by_cases hfree : occupied wanted
  · have hnodup := nodup_tried root hname hsafe hfits
    -- a path for each that is held, and one more
    obtain ⟨path, hpath, hopen⟩ : ∃ path ∈ (List.range held.length).map candidate,
        ¬ occupied path := by
      by_contra hall
      push Not at hall
      have hsubset : wanted :: (List.range held.length).map candidate ⊆ held := by
        intro path hin
        refine hheld path ?_ ?_
        · rcases List.mem_cons.mp hin with rfl | hin
          · rfl
          · obtain ⟨index, hindex, rfl⟩ := List.mem_map.mp hin
            have hlt := List.mem_range.mp hindex
            show (inRoot root _).dropLast = (inRoot root _).dropLast
            rw [inRoot_of_fits root hname (hfits (index + 1) (by omega) (by omega)),
              inRoot_concat root hname, List.dropLast_concat, List.dropLast_concat]
        · rcases List.mem_cons.mp hin with rfl | hin
          · exact hfree
          · exact hall path hin
      have hlength := (List.subperm_of_subset hnodup hsubset).length_le
      rw [List.length_cons, List.length_map, List.length_range] at hlength
      omega
    set early := ((List.range held.length).map candidate).filter (· ≠ wanted) with hearly
    obtain ⟨later, hlater⟩ : ∃ later,
        Placement.alternatives request root (parts ++ [name]) = early ++ later := by
      obtain ⟨more, hmore⟩ := Nat.exists_eq_add_of_lt hfew
      refine ⟨(((List.range (more + 1)).map (held.length + ·)).map candidate).filter (· ≠ wanted), ?_⟩
      rw [Placement.alternatives, hmore, Nat.add_assoc, List.range_add, List.map_append,
        List.filter_append, hrequest]
    have hmem : path ∈ early := by
      refine List.mem_filter.mpr ⟨hpath, decide_eq_true fun heq => ?_⟩
      exact hopen (heq ▸ hfree)
    obtain ⟨found, hfound⟩ : ∃ found, early.find? (!occupied ·) = some found := by
      refine Option.isSome_iff_exists.mp (List.find?_isSome.mpr ⟨path, hmem, ?_⟩)
      simpa using hopen
    have hfirst : (Placement.alternatives request root (parts ++ [name])).find? (!occupied ·) =
        some found := by
      rw [hlater, List.find?_append, hfound, Option.some_or]
    obtain ⟨index, hindex, rfl⟩ :=
      List.mem_map.mp (List.mem_filter.mp (List.mem_of_find?_eq_some hfound)).1
    have hlt := List.mem_range.mp hindex
    refine ⟨candidate index, some (wanted.getLastD "" ++ " is taken, landing as " ++
      (candidate index).getLastD ""), ?_, .inr ⟨index + 1, by omega, by omega, rfl⟩⟩
    simp only [Placement.freePath, ← hoccupied, ← hwanted, hfirst, hfree, Bool.not_true,
      Bool.false_eq_true, if_false]
  · refine ⟨wanted, none, ?_, .inl rfl⟩
    have hopen : (!occupied wanted) = true := by simpa using hfree
    exact if_pos hopen

end

/-! ### Another name for a rendered one -/

/-- **Another name is a new one**, in the same folder and with the same extension, for every attempt
that fits; and where the name has an extension, for no other.  So with fewer paths held in the folder
than names are tried, a file gets one before more names are tried than paths are held. -/
theorem tells_apart (toLowerCase : String → String) (order : List NamingScheme)
    (item : NameableItem) (context : NamingContext) (marks : VersionMarks) :
    (∀ m n, m ≠ n →
      (Fits toLowerCase (render order item context) marks m ∧
          Fits toLowerCase (render order item context) marks n →
        ToldApart toLowerCase (render order item context) marks m n) ∧
      (extension (some (render order item context)) ≠ "" →
        ToldApart toLowerCase (render order item context) marks m n →
          Fits toLowerCase (render order item context) marks m ∧
            Fits toLowerCase (render order item context) marks n)) ∧
    ∀ (disk : Placement.Disk) (request : Placement.PlacementRequest) (root : Dir) (held : List Dir),
      (request.disambiguate = fun relativeName attempt =>
        disambiguate toLowerCase relativeName marks attempt) →
      (∀ path : Dir, path.dropLast = (inRoot root (render order item context)).dropLast →
        Placement.occupied disk request.reserved request.replacesPath path → path ∈ held) →
      held.length < Placement.MAX_NAME_ATTEMPTS →
      (∀ attempt, 1 ≤ attempt → attempt ≤ held.length →
        Fits toLowerCase (render order item context) marks attempt) →
      ∃ path note, Placement.freePath disk request root (render order item context) =
          .ok (path, note) ∧
        (path = inRoot root (render order item context) ∨
          ∃ attempt, 1 ≤ attempt ∧ attempt ≤ held.length ∧
            path = inRoot root
              (disambiguate toLowerCase (render order item context) marks attempt)) := by
  have hname := proper_fileName order item context (extension item.sourcePath)
  have hsafe : Safe (fileName order item context (extension item.sourcePath)).toList := by
    rw [fileName_eq]
    exact safe_sanitise _
  refine ⟨fun m n hne => ⟨fun ⟨hm, hn⟩ => toldApart_of_fits hname hsafe hm hn hne,
    fun hext h => fits_of_toldApart hname (fun hnone => hext ?_) h⟩,
    fun disk request root held hrequest hheld hfew hfits =>
      freePath_of_fits disk request root hname hsafe hrequest hheld hfew hfits⟩
  rw [render, extension_concat _ hname, hnone]

/-- Nothing to imitate. -/
def bare : NamingContext := ⟨[], none, none, none⟩

def lower (text : String) : String := .ofList (text.toList.map Char.toLower)

def film : NameableItem :=
  ⟨.MOVIE, "Film", some 2009, none, none, none, none, some ["dropped", "film.MKV"]⟩

def filmMarks : VersionMarks := ⟨none, some "2160p"⟩

def filmDisk : Placement.Disk where
  existsAt path := path = ["films", "Film (2009)", "Film (2009).mkv"]
  writable _ := true
  freeBytes _ := none

def filmRequest : Placement.PlacementRequest where
  kind := .MOVIE
  categoryKey := none
  settings := ⟨.FIXED_PATH, some (.absolute ["films"]), [], none, none⟩
  libraries := []
  relativeName _ := render [.STANDARD] film bare
  existingPath := none
  pinnedPath := none
  preferredLibraryId := none
  preferredBy := .REQUESTED
  requiredBytes := 0
  replacesPath := none
  disambiguate relativeName attempt := disambiguate lower relativeName filmMarks attempt
  reserved := []
  pinned := none

theorem tells_apart_film :
    ToldApart lower (render [.STANDARD] film bare) filmMarks 1 2 ∧
      ∃ path note, Placement.freePath filmDisk filmRequest ["films"]
        (render [.STANDARD] film bare) = .ok (path, note) := by
  have hrender : render [.STANDARD] film bare = ["Film (2009)", "Film (2009).mkv"] := by
    decide +kernel
  have hfits : ∀ attempt ∈ [1, 2],
      Fits lower (render [.STANDARD] film bare) filmMarks attempt := by
    rw [hrender]
    refine fun attempt hattempt => ⟨by decide, ⟨?_, fun hnone => ?_⟩⟩
    · revert attempt
      decide +kernel
    · exact absurd hnone (by decide)
  obtain ⟨hapart, hfree⟩ := tells_apart lower [.STANDARD] film bare filmMarks
  refine ⟨(hapart 1 2 (by decide)).1 ⟨hfits 1 (by decide), hfits 2 (by decide)⟩, ?_⟩
  have hheld : ∀ path : Dir,
      path.dropLast = (inRoot ["films"] (render [.STANDARD] film bare)).dropLast →
        Placement.occupied filmDisk filmRequest.reserved filmRequest.replacesPath path →
          path ∈ [["films", "Film (2009)", "Film (2009).mkv"]] :=
    fun path _ hoccupied => List.mem_singleton.mpr (of_decide_eq_true hoccupied)
  obtain ⟨path, note, hpath, -⟩ := hfree filmDisk filmRequest ["films"]
    [["films", "Film (2009)", "Film (2009).mkv"]] rfl hheld (by decide) fun attempt hfirst hlast =>
      hfits attempt (by simp only [List.length_singleton] at hlast; simp; omega)
  exact ⟨path, note, hpath⟩

def longName : List Char := List.replicate 196 'a' ++ ".mkv".toList

def long : NameableItem :=
  ⟨.MOVIE, "Film", none, none, none, none, none, some [.ofList longName]⟩

theorem render_long : render [.SOURCE] long bare = ["Film", .ofList longName] := by
  have hbasename : basename [String.ofList longName] = longName := by
    rw [basename, List.getLastD_cons, List.getLastD_nil, String.toList_ofList]
    decide +kernel
  have hspelled : spelled [.SOURCE] long bare (extension long.sourcePath) = .ofList longName := by
    simp only [spelled, List.findSome?_cons, spelledBy, long, Option.map_some, hbasename]
    rfl
  have hfirm : Firm longName :=
    ⟨Tidy.of_solid (by decide +kernel), by decide +kernel, by decide +kernel, by decide +kernel⟩
  have hfree : ¬ Reserved longName := by
    intro hreserved
    have hshort := width_le_of_reserved hreserved
    rw [width_narrow (by decide +kernel)] at hshort
    exact absurd hshort (by decide +kernel)
  have hname : fileName [.SOURCE] long bare (extension long.sourcePath) = .ofList longName := by
    rw [fileName_eq, hspelled]
    exact String.toList_inj.mp
      ((sanitise_of_firm hfirm (by decide +kernel) hfree).trans String.toList_ofList.symm)
  have hdirectory : directory long bare = ["Film"] := by decide +kernel
  rw [render, hname, hdirectory, List.singleton_append]

/-- The first name for it and the nineteenth are the same. -/
theorem disambiguate_long :
    disambiguate lower (render [.SOURCE] long bare) ⟨none, none⟩ 1 =
      disambiguate lower (render [.SOURCE] long bare) ⟨none, none⟩ 19 := by
  have hstem : stemOf (.ofList longName) = List.replicate 196 'a' := by
    rw [stemOf, String.toList_ofList]
    decide +kernel
  have hending : endingOf (.ofList longName) = ".mkv".toList := by
    rw [endingOf, String.toList_ofList]
    decide +kernel
  have hlabel : usableLabel lower (.ofList longName) ⟨none, none⟩ = none := rfl
  have htag : inTag lower (.ofList longName) ⟨none, none⟩ = false := by
    rw [inTag, hlabel, hstem]
    decide +kernel
  have htext : ∀ attempt, (composed lower (.ofList longName) ⟨none, none⟩ attempt).toList =
      List.replicate 196 'a' ++ " - ".toList ++ (toString (attempt + 1)).toList ++
        ".mkv".toList := by
    intro attempt
    rw [composed, hstem, hending, suffix, lead, counter, closing, hlabel, htag]
    generalize List.replicate 196 'a' = stem
    simp
  have hcleaned : ∀ attempt ∈ [1, 19], cleaned (composed lower (.ofList longName) ⟨none, none⟩
      attempt) = List.replicate 196 'a' ++ " - ".toList ++ (toString (attempt + 1)).toList ++
        ".mkv".toList := by
    simp only [cleaned, htext]
    decide +kernel
  -- Both texts are too long, and the cut leaves nothing of the number.
  have hcut : ∀ attempt ∈ [1, 19],
      Cut (composed lower (.ofList longName) ⟨none, none⟩ attempt) := by
    intro attempt hattempt
    rw [Cut, hcleaned attempt hattempt, width_narrow]
    · revert attempt hattempt
      decide +kernel
    · revert attempt hattempt
      decide +kernel
  have htrimmed : trimmed (composed lower (.ofList longName) ⟨none, none⟩ 1) =
      trimmed (composed lower (.ofList longName) ⟨none, none⟩ 19) := by
    rw [trimmed_of_cut (hcut 1 (by decide)), trimmed_of_cut (hcut 19 (by decide)),
      hcleaned 1 (by decide), hcleaned 19 (by decide)]
    decide +kernel
  have hproper : Proper (.ofList longName) :=
    proper_ofList (by decide +kernel) (by decide +kernel)
  have hconcat := fun attempt =>
    disambiguate_concat lower ["Film"] hproper ⟨none, none⟩ attempt
  rw [render_long, ← List.singleton_append, hconcat, hconcat, renamed_eq, renamed_eq,
    sanitise_congr ?_ ?_ htrimmed]
  · rw [hcleaned 1 (by decide)]
    exact List.append_ne_nil_of_right_ne_nil _ (by decide)
  · rw [hcleaned 19 (by decide)]
    exact List.append_ne_nil_of_right_ne_nil _ (by decide)

theorem not_toldApart_long :
    ¬ ToldApart lower (render [.SOURCE] long bare) ⟨none, none⟩ 1 19 :=
  fun h => h.distinct disambiguate_long

end MediaCenterSync.Naming
