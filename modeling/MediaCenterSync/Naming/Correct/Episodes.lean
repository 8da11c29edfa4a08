import MediaCenterSync.Naming.Correct.Components

/-!
# Names that tell episodes apart

Every text that names an episode under a convention of ours is the same in front of the tag for all
episodes of a series, and goes on behind it with no digit (`Framed`).  Cleaned, it still is
(`cleaned_around`), so the numbers of the tag can be read back from the name (`tag_injective`).
-/

namespace MediaCenterSync.Naming

open Matching (MediaKind)
open Quality (isSpace trim)
open TransferManager (Dir)

/-! ### Tags -/

theorem toList_pad (value : ℕ) : (pad value).toList =
    List.replicate (2 - (toString value).toList.length) '0' ++ (toString value).toList := by
  have hmax : max 0 (value : ℤ) = value := by omega
  rw [pad, hmax, padStart, String.toList_append, String.toList_ofList]
  rfl

theorem isDigit_of_mem_pad {value : ℕ} {c : Char} (h : c ∈ (pad value).toList) : c.isDigit := by
  rw [toList_pad] at h
  rcases List.mem_append.mp h with h | h
  · exact List.eq_of_mem_replicate h ▸ by decide
  · exact Text.isDigit_of_mem_decimal h

theorem two_le_length_pad (value : ℕ) : 2 ≤ (pad value).toList.length := by
  rw [toList_pad, List.length_append, List.length_replicate]
  omega

/-- A number can be read back from its digits, however many zeros it begins with. -/
theorem pad_injective {a b : ℕ} (h : pad a = pad b) : a = b := by
  have hvalue : ∀ n : ℕ, Nat.ofDigitChars 10 (pad n).toList 0 = n := by
    intro n
    rw [toList_pad, Nat.ofDigitChars_append, Nat.ofDigitChars_replicate_zero, Nat.mul_zero,
      Nat.toString_eq_repr, Nat.toList_repr, Nat.ofDigitChars_toDigits (by decide) (by decide)]
  rw [← hvalue a, h, hvalue b]

theorem toList_tagOf (season episode : ℤ) : (tagOf season episode).toList =
    'S' :: ((pad season).toList ++ 'E' :: (pad episode).toList) := by
  simp [tagOf]

theorem plain_tagOf (season episode : ℕ) :
    ∀ c ∈ (tagOf season episode).toList, isPlain c := by
  intro c hc
  rw [toList_tagOf, List.mem_cons, List.mem_append, List.mem_cons] at hc
  rcases hc with rfl | hc | rfl | hc
  · decide
  · exact isPlain_of_isDigit (isDigit_of_mem_pad hc)
  · decide
  · exact isPlain_of_isDigit (isDigit_of_mem_pad hc)

theorem firm_of_plain {text : List Char} (h : ∀ c ∈ text, isPlain c) (hne : text ≠ []) :
    Firm text where
  tidy := Tidy.of_solid fun c hc => ⟨(plain_spec (h c hc)).1, (plain_spec (h c hc)).2.1⟩
  nonempty := hne
  head c hc := (plain_spec (h c (List.mem_of_head? hc))).2.1
  last c hc :=
    ⟨(plain_spec (h c (List.mem_of_getLast? hc))).2.2.1,
      (plain_spec (h c (List.mem_of_getLast? hc))).2.1⟩

theorem firm_tagOf (season episode : ℕ) : Firm (tagOf season episode).toList :=
  firm_of_plain (plain_tagOf season episode) (by simp [toList_tagOf])

theorem digits_append_inj {digits digits' rest rest' : List Char} (h : ∀ c ∈ digits, c.isDigit)
    (h' : ∀ c ∈ digits', c.isDigit) (hrest : ∀ c ∈ rest.head?, c.isDigit = false)
    (hrest' : ∀ c ∈ rest'.head?, c.isDigit = false) (heq : digits ++ rest = digits' ++ rest') :
    digits = digits' ∧ rest = rest' := by
  have htake : ∀ {front back : List Char}, (∀ c ∈ front, c.isDigit) →
      (∀ c ∈ back.head?, c.isDigit = false) →
      (front ++ back).takeWhile Char.isDigit = front := by
    intro front back hfront hback
    rw [List.takeWhile_append_of_pos hfront]
    cases back with
    | nil => simp
    | cons c others => rw [List.takeWhile_cons_of_neg (by simp [hback c rfl]), List.append_nil]
  have hdigits : digits = digits' := by
    rw [← htake h hrest, heq, htake h' hrest']
  subst hdigits
  exact ⟨rfl, List.append_cancel_left heq⟩

/-- **The numbers of an episode can be read back from its tag**, when no digit follows. -/
theorem tag_injective {season season' episode episode' : ℕ} {rest rest' : List Char}
    (hrest : ∀ c ∈ rest.head?, c.isDigit = false) (hrest' : ∀ c ∈ rest'.head?, c.isDigit = false)
    (h : (tagOf season episode).toList ++ rest = (tagOf season' episode').toList ++ rest') :
    season = season' ∧ episode = episode' := by
  rw [toList_tagOf, toList_tagOf] at h
  simp only [List.cons_append, List.append_assoc, List.cons.injEq, true_and] at h
  obtain ⟨hseason, htail⟩ := digits_append_inj (fun _ hc => isDigit_of_mem_pad hc)
    (fun _ hc => isDigit_of_mem_pad hc) (by simp) (by simp) h
  obtain ⟨hepisode, -⟩ := digits_append_inj (fun _ hc => isDigit_of_mem_pad hc)
    (fun _ hc => isDigit_of_mem_pad hc) hrest hrest' (List.cons.inj htail).2
  exact ⟨pad_injective (String.toList_inj.mp hseason),
    pad_injective (String.toList_inj.mp hepisode)⟩

/-! ### Names with a tag -/

/-- A run without a dot is too long for a reserved name and for an extension. -/
theorem not_reserved_of_run {before run after : List Char} (hdot : '.' ∉ run)
    (hlength : 5 ≤ run.length) : ¬ Reserved (before ++ run ++ after) := by
  intro hreserved
  have hstem := length_stripExtension_of_reserved hreserved
  have hname := stripExtension_append (before ++ run ++ after)
  rcases extensionOf_cases (before ++ run ++ after) with hnone | ⟨_, letters, -, hsome, -, -, hfour⟩
  · rw [hnone, List.append_nil] at hname
    rw [hname, List.length_append, List.length_append] at hstem
    omega
  · rw [hsome] at hname
    generalize stripExtension (before ++ run ++ after) = stem at hstem hname
    have htotal := congrArg List.length hname
    simp only [List.length_append, List.length_cons] at htotal
    have hat : (before ++ run ++ after)[stem.length]? = some '.' := by
      rw [← hname, List.getElem?_append_right le_rfl, Nat.sub_self]
      rfl
    -- the dot is before the run or behind it, and there is no room for it on either side
    rcases Nat.lt_or_ge stem.length before.length with hbefore | hbehind
    · omega
    · rw [List.append_assoc, List.getElem?_append_right hbehind,
        List.getElem?_append_left (by omega)] at hat
      exact hdot (List.mem_of_getElem? hat)

theorem not_reserved_tagOf (before : List Char) (season episode : ℕ) (after : List Char) :
    ¬ Reserved (before ++ (tagOf season episode).toList ++ after) := by
  refine not_reserved_of_run (fun hmem => ?_) ?_
  · exact (plain_spec (plain_tagOf season episode '.' hmem)).2.2.1 rfl
  · have hs := two_le_length_pad season
    have he := two_le_length_pad episode
    rw [toList_tagOf, List.length_cons, List.length_append, List.length_cons]
    omega

/-- A text that has a tag in it, and no digit behind. -/
def Framed (text : String) (before : List Char) (season episode : ℕ) : Prop :=
  ∃ after : List Char, (∀ c ∈ after.head?, c.isDigit = false) ∧
    text = .ofList (before ++ (tagOf season episode).toList ++ after)

theorem isDigit_head_squeeze {text : List Char} (h : ∀ c ∈ text.head?, c.isDigit = false) :
    ∀ c ∈ (squeeze (blanked text)).head?, c.isDigit = false := by
  intro c hc
  rw [head?_squeeze, blanked, List.head?_map] at hc
  simp only [Option.map_map, Option.mem_def, Option.map_eq_some_iff, Function.comp_apply] at hc
  obtain ⟨first, hfirst, rfl⟩ := hc
  have hfirst := h first hfirst
  split_ifs <;> first | decide | exact hfirst

/-- **A name made of such a text keeps the tag**, unless it is cut. -/
theorem sanitise_of_framed {text : String} {before : List Char} {season episode : ℕ}
    (h : Framed text before season episode) (huncut : ¬ Cut text) :
    ∃ rest : List Char, (∀ c ∈ rest.head?, c.isDigit = false) ∧
      (sanitise text).toList = front before ++ (tagOf season episode).toList ++ rest := by
  obtain ⟨after, hafter, rfl⟩ := h
  obtain ⟨rest, hrest, hcleaned⟩ := cleaned_around (firm_tagOf season episode) before after
  refine ⟨rest, fun c hc => ?_, ?_⟩
  · obtain ⟨tail, htail⟩ := hrest
    refine isDigit_head_squeeze hafter c ?_
    rw [← htail, List.head?_append, hc]
    rfl
  · rw [sanitise_of_not_cut huncut, hcleaned]
    · rw [hcleaned]
      simp [toList_tagOf]
    · rw [hcleaned]
      exact not_reserved_tagOf _ season episode rest

theorem eq_of_framed {text text' : String} {before : List Char}
    {season season' episode episode' : ℕ} (h : Framed text before season episode)
    (h' : Framed text' before season' episode') (huncut : ¬ Cut text) (huncut' : ¬ Cut text')
    (heq : sanitise text = sanitise text') : season = season' ∧ episode = episode' := by
  obtain ⟨rest, hrest, hname⟩ := sanitise_of_framed h huncut
  obtain ⟨rest', hrest', hname'⟩ := sanitise_of_framed h' huncut'
  rw [heq, hname', List.append_assoc, List.append_assoc] at hname
  exact tag_injective hrest hrest' (List.append_cancel_left hname).symm

/-! ### The conventions -/

theorem extension_cases (sourcePath : Option Dir) :
    (extension sourcePath).toList = [] ∨ ∃ letters : List Char,
      (extension sourcePath).toList = '.' :: letters ∧ (∀ c ∈ letters, isPlain c) ∧
        letters ≠ [] := by
  have hending : (extension sourcePath).toList =
      endingOf (.ofList ((sourcePath.map basename).getD [])) := by
    rw [extension, endingOf, String.toList_ofList, String.toList_ofList]
  rw [hending]
  rcases endingOf_cases (.ofList ((sourcePath.map basename).getD [])) with
    ⟨hnone, -⟩ | ⟨letters, hsome, hplain, hpos, -⟩
  · exact .inl hnone
  · refine .inr ⟨letters, hsome, hplain, ?_⟩
    rintro rfl
    cases hpos

/-- No digit follows a tag: behind it is a title, after what separates it, or the extension. -/
theorem head_titled {separator : String} {item : NameableItem}
    (h : ∀ c ∈ separator.toList.head?, c.isDigit = false) (hne : separator.toList ≠ [])
    (sourcePath : Option Dir) :
    ∀ c ∈ ((titled separator item).toList ++ (extension sourcePath).toList).head?,
      c.isDigit = false := by
  have hextension : ∀ c ∈ (extension sourcePath).toList.head?, c.isDigit = false := by
    intro c hc
    rcases extension_cases sourcePath with hnone | ⟨letters, hsome, -⟩
    · rw [hnone] at hc
      cases hc
    · rw [hsome, List.head?_cons, Option.mem_some_iff] at hc
      exact hc ▸ by decide
  unfold titled
  split_ifs
  · exact hextension
  · rw [String.toList_append, List.append_assoc, List.head?_append_of_ne_nil _ hne]
    exact h

theorem framed_standard {item : NameableItem} {season episode : ℕ} (hkind : item.kind = .EPISODE)
    (hseason : item.seasonNumber = some ↑season) (hepisode : item.episodeNumber = some ↑episode) :
    Framed (spelledStandard item (extension item.sourcePath))
      ((sanitise (seriesOrOwn item)).toList ++ " - ".toList) season episode := by
  refine ⟨(titled " - " item).toList ++ (extension item.sourcePath).toList,
    head_titled (by decide) (by decide) item.sourcePath, String.toList_inj.mp ?_⟩
  rw [spelledStandard, if_pos hkind, hseason, hepisode, String.toList_ofList]
  simp [tagOf]

theorem separatorOf_spec (after : List Char) :
    (∀ c ∈ (separatorOf after).toList.head?, c.isDigit = false) ∧
      (separatorOf after).toList ≠ [] := by
  unfold separatorOf
  dsimp only
  split_ifs with hgap
  · exact ⟨by decide, by decide⟩
  · rw [String.toList_ofList]
    refine ⟨fun c hc => ?_, hgap⟩
    have hmem := List.mem_takeWhile_imp (List.mem_of_head? hc)
    rw [decide_eq_true_eq] at hmem
    by_contra hdigit
    obtain ⟨-, hspace, hdot, -⟩ := plain_spec (isPlain_of_isDigit (by simpa using hdigit))
    rcases hmem with hmem | hmem
    · rw [hspace] at hmem
      cases hmem
    · simp only [List.mem_cons, List.not_mem_nil, or_false] at hmem
      rcases hmem with rfl | rfl | rfl
      · exact hdot rfl
      · exact hdigit (by decide)
      · exact hdigit (by decide)

/-! ### Dots -/

theorem singleDots_cons (c : Char) (rest : List Char) : singleDots (c :: rest) =
    if c = '.' ∧ (singleDots rest).head? = some '.' then singleDots rest
    else c :: singleDots rest :=
  rfl

theorem head?_singleDots (text : List Char) : (singleDots text).head? = text.head? := by
  cases text with
  | nil => rfl
  | cons c rest =>
    rw [singleDots_cons, List.head?_cons]
    split_ifs with h
    · rw [h.2, h.1]
    · rfl

theorem singleDots_append {before after : List Char} (h : after.head? ≠ some '.') :
    singleDots (before ++ after) = singleDots before ++ singleDots after := by
  induction before with
  | nil => rfl
  | cons c rest ih =>
    have hhead : (singleDots rest ++ singleDots after).head? = some '.' ↔
        (singleDots rest).head? = some '.' := by
      cases singleDots rest with
      | nil => simp [head?_singleDots, h]
      | cons d others => simp
    rw [List.cons_append, singleDots_cons, singleDots_cons, ih]
    simp only [hhead]
    split_ifs <;> rfl

/-- Text without dots is kept, and what is behind it is looked at by itself. -/
theorem singleDots_around {before middle : List Char} (h : '.' ∉ middle) (hne : middle ≠ [])
    (after : List Char) :
    singleDots (before ++ middle ++ after) = singleDots before ++ middle ++ singleDots after := by
  have hmiddle : singleDots (middle ++ after) = middle ++ singleDots after := by
    clear hne
    induction middle with
    | nil => rfl
    | cons c rest ih =>
      rw [List.mem_cons, not_or] at h
      rw [List.cons_append, singleDots_cons, if_neg fun hdot => h.1 hdot.1.symm, ih h.2,
        List.cons_append]
  obtain ⟨c, rest, rfl⟩ := List.exists_cons_of_ne_nil hne
  have hhead : (c :: rest ++ after).head? ≠ some '.' := by
    rw [List.cons_append, List.head?_cons]
    rintro ⟨⟩
    exact h (List.mem_cons_self ..)
  rw [List.append_assoc, singleDots_append hhead, hmiddle, List.append_assoc]

def wordsOf (parts : List (Option String)) : List String :=
  (parts.map fun part => trim (part.getD "")).filter (· ≠ "")

def dottedWord (word : String) : List Char :=
  (squeeze (sanitise word).toList).map fun c => if c = ' ' then '.' else c

theorem toList_dots (parts : List (Option String)) : (dots parts).toList =
    singleDots (['.'].intercalate ((wordsOf parts).map dottedWord)) := by
  have hdotted : dottedWord = fun word => (squeeze (sanitise word).toList).map fun c =>
      if c = ' ' then '.' else c := rfl
  have hseparator : ".".toList = ['.'] := by decide
  simp only [dots, String.toList_ofList, String.toList_intercalate, List.map_map,
    Function.comp_def, hdotted, hseparator, wordsOf]

theorem intercalate_around {α : Type*} (separator word : List α) (before after : List (List α)) :
    separator.intercalate (before ++ word :: after) =
      before.flatMap (· ++ separator) ++ word ++ after.flatMap (separator ++ ·) := by
  have hafter : ∀ word, separator.intercalate (word :: after) =
      word ++ after.flatMap (separator ++ ·) := by
    induction after with
    | nil => simp
    | cons next rest ih =>
      intro word
      rw [List.intercalate_cons_cons, ih next, List.flatMap_cons]
      simp
  induction before with
  | nil => exact hafter word
  | cons first rest ih =>
    cases hrest : rest ++ word :: after with
    | nil => simp at hrest
    | cons next others =>
      rw [List.cons_append, hrest, List.intercalate_cons_cons, ← hrest, ih]
      simp

/-- What a dotted name has before its tag. -/
def dottedFront (item : NameableItem) : List Char :=
  singleDots (((wordsOf [some (seriesOrOwn item), item.seriesYear.map toString]).map
    dottedWord).flatMap (· ++ ['.']))

theorem dottedWord_tagOf {season episode : ℕ} (h : ¬ Cut (tagOf season episode)) :
    dottedWord (tagOf season episode) = (tagOf season episode).toList := by
  have hfirm := firm_tagOf season episode
  have hcleaned : cleaned (tagOf season episode) = (tagOf season episode).toList := by
    have hall := cleaned_append hfirm []
    rwa [List.nil_append, String.ofList_toList, show front [] = [] from rfl,
      List.nil_append] at hall
  have hsanitise : (sanitise (tagOf season episode)).toList = (tagOf season episode).toList := by
    refine (sanitise_of_not_cut h ?_ ?_).trans hcleaned
    · rw [hcleaned]
      exact hfirm.nonempty
    · rw [hcleaned, ← List.append_nil (tagOf season episode).toList, ← List.nil_append
        (tagOf season episode).toList]
      exact not_reserved_tagOf [] season episode []
  rw [dottedWord, hsanitise, hfirm.tidy.squeeze_eq]
  calc (tagOf season episode).toList.map (fun c => if c = ' ' then '.' else c)
      = (tagOf season episode).toList.map id := List.map_congr_left fun c hc => by
        have hspace : c ≠ ' ' := by
          rintro rfl
          exact absurd (plain_spec (plain_tagOf season episode ' ' hc)).2.1 (by decide)
        rw [if_neg hspace, id]
    _ = (tagOf season episode).toList := List.map_id _

theorem wordsOf_append (parts others : List (Option String)) :
    wordsOf (parts ++ others) = wordsOf parts ++ wordsOf others := by
  rw [wordsOf, List.map_append, List.filter_append]
  rfl

theorem wordsOf_tagOf (season episode : ℕ) :
    wordsOf [some (tagOf season episode)] = [tagOf season episode] := by
  have hfirm := firm_tagOf season episode
  have htrim : trim (tagOf season episode) = tagOf season episode := by
    refine String.toList_inj.mp ?_
    rw [trim, String.toList_ofList]
    exact trimChars_eq hfirm.head fun c hc => (hfirm.last c hc).2
  have hne : tagOf season episode ≠ "" := by
    intro heq
    exact hfirm.nonempty (heq ▸ rfl)
  rw [wordsOf, List.map_singleton, Option.getD_some, htrim, List.filter_cons_of_pos (by simpa),
    List.filter_nil]

theorem framed_dotted {item : NameableItem} {season episode : ℕ} (hkind : item.kind = .EPISODE)
    (hseason : item.seasonNumber = some ↑season) (hepisode : item.episodeNumber = some ↑episode)
    (htag : ¬ Cut (tagOf season episode)) :
    Framed (spelledDotted item (extension item.sourcePath)) (dottedFront item) season episode := by
  set tail := ((wordsOf [some item.title]).map dottedWord).flatMap (['.'] ++ ·) with htail
  have hwords : wordsOf [some (seriesOrOwn item), item.seriesYear.map toString,
      some (tagOf season episode), some item.title] =
      wordsOf [some (seriesOrOwn item), item.seriesYear.map toString] ++
        tagOf season episode :: wordsOf [some item.title] := by
    have hsplit := wordsOf_append [some (seriesOrOwn item), item.seriesYear.map toString]
      ([some (tagOf season episode)] ++ [some item.title])
    rwa [wordsOf_append [some (tagOf season episode)], wordsOf_tagOf] at hsplit
  have hdots : (dots [some (seriesOrOwn item), item.seriesYear.map toString,
      some (tagOf season episode), some item.title]).toList =
      dottedFront item ++ (tagOf season episode).toList ++ singleDots tail := by
    have hdot : '.' ∉ (tagOf season episode).toList := fun hmem =>
      (plain_spec (plain_tagOf season episode '.' hmem)).2.2.1 rfl
    rw [toList_dots, hwords, List.map_append, List.map_cons, intercalate_around,
      dottedWord_tagOf htag, singleDots_around hdot (firm_tagOf season episode).nonempty]
    rfl
  refine ⟨singleDots tail ++ (extension item.sourcePath).toList, fun c hc => ?_,
    String.toList_inj.mp ?_⟩
  · rw [List.head?_append, head?_singleDots] at hc
    rcases Option.or_eq_some_iff.mp hc with hc | ⟨-, hc⟩
    · cases hword : (wordsOf [some item.title]).map dottedWord with
      | nil =>
        rw [htail, hword] at hc
        cases hc
      | cons word rest =>
        rw [htail, hword, List.flatMap_cons, List.singleton_append, List.cons_append,
          List.head?_cons, Option.some.injEq] at hc
        exact hc ▸ by decide
    · rcases extension_cases item.sourcePath with hnone | ⟨letters, hsome, -⟩
      · rw [hnone] at hc
        cases hc
      · rw [hsome, List.head?_cons, Option.some.injEq] at hc
        exact hc ▸ by decide
  · rw [spelledDotted, if_pos hkind, hseason, hepisode, Option.getD_some, Option.getD_some,
      String.toList_append, hdots, String.toList_ofList, List.append_assoc]

/-! ### A sample -/

/-- The first place of a tag is ours, when what is before it does not spell it. -/
theorem cutAtFirst_eq {first : Char} {rest before : List Char} (hfirst : first ∉ rest)
    (h : ¬ first :: rest <:+: before) (after : List Char) :
    cutAtFirst (first :: rest) (before ++ first :: rest ++ after) = (before, after) := by
  induction before with
  | nil =>
    rw [List.nil_append, List.cons_append, cutAtFirst, if_pos (by
      rw [← List.cons_append]
      exact List.prefix_append _ _), ← List.cons_append, List.drop_left]
  | cons c others ih =>
    have hnot : ¬ first :: rest <+: c :: (others ++ first :: rest ++ after) := by
      intro hprefix
      have hfront : c :: others <+: c :: (others ++ first :: rest ++ after) := by
        rw [List.append_assoc, ← List.cons_append]
        exact List.prefix_append _ _
      rcases List.prefix_or_prefix_of_prefix hprefix hfront with hin | hin
      · exact h hin.isInfix
      · -- the tag would begin again inside itself
        obtain ⟨more, hmore⟩ := hin
        rw [List.cons_append] at hmore
        obtain ⟨rfl, rfl⟩ := List.cons.inj hmore
        obtain ⟨tail, htail⟩ := hprefix
        cases more with
        | nil => exact h (by rw [List.append_nil])
        | cons again more =>
          simp only [List.cons_append, List.append_assoc, List.cons.injEq, true_and,
            List.append_cancel_left_eq] at htail
          exact hfirst (htail.1 ▸ List.mem_append_right _ (List.mem_cons_self ..))
    have hothers : ¬ first :: rest <:+: others := fun hin =>
      h (hin.trans (List.suffix_cons c others).isInfix)
    rw [List.cons_append, List.cons_append, cutAtFirst, if_neg hnot, ih hothers]
    rfl

theorem framed_local {item : NameableItem} {context : NamingContext} {season episode : ℕ}
    {parts : List Char × List Char} (hseason : item.seasonNumber = some ↑season)
    (hepisode : item.episodeNumber = some ↑episode) (hparts : sampleParts context = some parts)
    (hown : ¬ (tagOf season episode).toList <:+: parts.1) :
    ∃ text, spelledLocal item context (extension item.sourcePath) = some text ∧
      Framed text parts.1 season episode := by
  have hcut : cutAtFirst (tagOf season episode).toList
      (parts.1 ++ (tagOf season episode).toList ++ parts.2) = parts := by
    have hS : 'S' ∉ (pad season).toList ++ 'E' :: (pad episode).toList := by
      intro hmem
      rw [List.mem_append, List.mem_cons] at hmem
      rcases hmem with hmem | heq | hmem
      · exact absurd (isDigit_of_mem_pad hmem) (by decide)
      · exact absurd heq (by decide)
      · exact absurd (isDigit_of_mem_pad hmem) (by decide)
    rw [toList_tagOf] at hown ⊢
    exact cutAtFirst_eq hS hown parts.2
  have hframed : framed context season episode = some (parts.1, separatorOf parts.2) := by
    rw [framed, hparts, Option.map_some]
    dsimp only
    rw [hcut]
  obtain ⟨hhead, hne⟩ := separatorOf_spec parts.2
  refine ⟨_, ?_, (titled (separatorOf parts.2) item).toList ++ (extension item.sourcePath).toList,
    head_titled hhead hne item.sourcePath, rfl⟩
  rw [spelledLocal, hseason, hepisode]
  simp only [Option.bind_eq_bind, Option.bind_some, hframed, pure, Option.some.injEq]
  refine String.toList_inj.mp ?_
  simp

/-! ### An order -/

structure Numbered (item : NameableItem) (season episode : ℕ) : Prop where
  kind : item.kind = .EPISODE
  season : item.seasonNumber = some ↑season
  episode : item.episodeNumber = some ↑episode

structure SameSeries (item other : NameableItem) : Prop where
  title : seriesOrOwn item = seriesOrOwn other
  year : item.seriesYear = other.seriesYear

/-- Nothing of a name is cut, and a sample that is imitated does not spell its tag already. -/
structure Spelled (order : List NamingScheme) (item : NameableItem) (context : NamingContext)
    (season episode : ℕ) : Prop where
  text : ¬ Cut (spelled order item context (extension item.sourcePath))
  tag : ¬ Cut (tagOf season episode)
  own : .LOCAL ∈ order → ∀ parts ∈ sampleParts context,
    ¬ (tagOf season episode).toList <:+: parts.1

/-- What stands before the tag: it is the same for every episode of a series. -/
def frontOf (item : NameableItem) (context : NamingContext) : List NamingScheme → List Char
  | .LOCAL :: order =>
    match sampleParts context with
    | some parts => parts.1
    | none => frontOf item context order
  | .DOTTED :: _ => dottedFront item
  | _ => (sanitise (seriesOrOwn item)).toList ++ " - ".toList

theorem frontOf_congr {item other : NameableItem} (h : SameSeries item other)
    (context : NamingContext) (order : List NamingScheme) :
    frontOf item context order = frontOf other context order := by
  fun_induction frontOf item context order with
  | case1 order parts hparts => rw [frontOf, hparts]
  | case2 order hparts ih => rw [frontOf, hparts, ih]
  | case3 order => rw [frontOf, dottedFront, dottedFront, h.title, h.year]
  | case4 order hlocal hdotted => rw [frontOf, h.title] <;> assumption

theorem framed_spelled {item : NameableItem} {context : NamingContext} {season episode : ℕ}
    {order : List NamingScheme} (h : Numbered item season episode) (hsource : .SOURCE ∉ order)
    (htag : ¬ Cut (tagOf season episode)) (hown : .LOCAL ∈ order → ∀ parts ∈ sampleParts context,
      ¬ (tagOf season episode).toList <:+: parts.1) :
    Framed (spelled order item context (extension item.sourcePath)) (frontOf item context order)
      season episode := by
  induction order with
  | nil => exact framed_standard h.kind h.season h.episode
  | cons scheme order ih =>
    rw [List.mem_cons, not_or] at hsource
    cases scheme with
    | SOURCE => exact absurd rfl hsource.1
    | STANDARD => exact framed_standard h.kind h.season h.episode
    | DOTTED => exact framed_dotted h.kind h.season h.episode htag
    | LOCAL =>
      cases hparts : sampleParts context with
      | some parts =>
        obtain ⟨text, htext, hframed⟩ := framed_local h.season h.episode hparts
          (hown (List.mem_cons_self ..) parts hparts)
        have hspelled : spelled (.LOCAL :: order) item context (extension item.sourcePath) =
            text := by
          rw [spelled, List.findSome?_cons, spelledBy, htext, Option.getD_some]
        rw [hspelled, frontOf, hparts]
        exact hframed
      | none =>
        have hlocal : spelledLocal item context (extension item.sourcePath) = none := by
          rw [spelledLocal, h.season, h.episode]
          simp [framed, hparts]
        have hspelled : spelled (.LOCAL :: order) item context (extension item.sourcePath) =
            spelled order item context (extension item.sourcePath) := by
          rw [spelled, List.findSome?_cons, spelledBy, hlocal, spelled]
        rw [hspelled, frontOf, hparts]
        exact ih hsource.2 fun hin => hown (List.mem_cons_of_mem _ hin)

/-- **Two episodes of one series have two names.** -/
theorem render_ne {item other : NameableItem} {context : NamingContext} {order : List NamingScheme}
    {season season' episode episode' : ℕ} (hsource : .SOURCE ∉ order)
    (hitem : Numbered item season episode) (hother : Numbered other season' episode')
    (hseries : SameSeries item other) (hne : (season, episode) ≠ (season', episode'))
    (h : Spelled order item context season episode)
    (h' : Spelled order other context season' episode') :
    render order item context ≠ render order other context := by
  intro heq
  have hname := congrArg List.getLast? heq
  rw [render, render, List.getLast?_concat, List.getLast?_concat, Option.some.injEq, fileName_eq,
    fileName_eq] at hname
  have hframed := framed_spelled hitem hsource h.tag h.own
  have hframed' := framed_spelled hother hsource h'.tag h'.own
  rw [← frontOf_congr hseries] at hframed'
  obtain ⟨rfl, rfl⟩ := eq_of_framed hframed hframed' h.text h'.text hname
  exact hne rfl

/-! ### Every component -/

/-- A component that was made rather than taken over. -/
def Made (part : String) : Prop :=
  ∃ component, part = sanitise component ∧ Safe part.toList ∧
    (¬ Cut component → part.toList.getLast? ≠ some '.')

theorem made_sanitise (component : String) : Made (sanitise component) :=
  ⟨component, rfl, safe_sanitise component, last_ne_dot⟩

theorem made_insideAPin (item : NameableItem) (context : NamingContext) :
    ∀ part ∈ insideAPin item context, Made part := by
  intro part hpart
  unfold insideAPin at hpart
  split at hpart
  · cases hpart
  · dsimp only at hpart
    split_ifs at hpart
    · cases hpart
    · split at hpart
      · exact List.mem_singleton.mp hpart ▸ made_sanitise _
      · exact List.mem_singleton.mp hpart ▸ made_sanitise _

theorem made_template (item : NameableItem) : ∀ part ∈ templateDirectory item, Made part := by
  intro part hpart
  unfold templateDirectory at hpart
  split at hpart
  · rcases List.mem_cons.mp hpart with rfl | hpart
    · exact made_sanitise _
    · exact List.mem_singleton.mp hpart ▸ made_sanitise _
  · exact List.mem_singleton.mp hpart ▸ made_sanitise _
  · cases hpart

/-- A component of a name is one of the folders of a sibling, or made. -/
theorem made_render (order : List NamingScheme) (item : NameableItem) (context : NamingContext) :
    ∀ part ∈ render order item context,
      isPinnedRoot context = false ∧ part ∈ (imitatedDirectory item context).getD [] ∨
        Made part := by
  intro part hpart
  rw [render, List.mem_append, directory] at hpart
  rcases hpart with hpart | hpart
  · split_ifs at hpart with hpinned
    · exact .inr (made_insideAPin item context part hpart)
    · cases himitated : imitatedDirectory item context with
      | some folders =>
        rw [himitated, Option.getD_some] at hpart
        exact .inl ⟨by simpa using hpinned, hpart⟩
      | none =>
        rw [himitated, Option.getD_none] at hpart
        exact .inr (made_template item part hpart)
  · rw [List.mem_singleton.mp hpart, fileName_eq]
    exact .inr (made_sanitise _)

theorem extension_suffix (sourcePath : Option Dir) (text : String)
    (huncut : ¬ Cut (text ++ extension sourcePath)) :
    (extension sourcePath).toList <:+ (sanitise (text ++ extension sourcePath)).toList := by
  rcases extension_cases sourcePath with hnone | ⟨letters, hsome, hplain, hne⟩
  · rw [hnone]
    exact List.nil_suffix
  · refine suffix_sanitise huncut (by simp [hsome]) ?_
    have hfirm : Firm (extension sourcePath).toList := by
      have hdot : Tidy ['.'] := Tidy.of_solid (by decide)
      rw [hsome]
      refine ⟨hdot.append (firm_of_plain hplain hne).tidy fun h => absurd h (by decide), by simp,
        ?_, ?_⟩
      · intro c hc
        rw [List.head?_cons, Option.mem_some_iff] at hc
        exact hc ▸ by decide
      · intro c hc
        rw [List.getLast?_cons_of_ne_nil hne] at hc
        exact (firm_of_plain hplain hne).last c hc
    have hcleaned := cleaned_append hfirm text.toList
    rw [← String.toList_append, String.ofList_toList] at hcleaned
    rw [hcleaned]
    exact List.suffix_append _ _

theorem extension_suffix_render {scheme : NamingScheme} (h : scheme ∈ [.STANDARD, .DOTTED])
    (order : List NamingScheme) (item : NameableItem) (context : NamingContext)
    (huncut : ¬ Cut (spelled (scheme :: order) item context (extension item.sourcePath))) :
    (extension item.sourcePath).toList <:+
      ((render (scheme :: order) item context).getLastD "").toList := by
  have hsplit : ∃ text, spelled (scheme :: order) item context (extension item.sourcePath) =
      text ++ extension item.sourcePath := by
    simp only [List.mem_cons, List.not_mem_nil, or_false] at h
    rcases h with rfl | rfl
    · rw [spelled, List.findSome?_cons, spelledBy, Option.getD_some, spelledStandard]
      split_ifs
      · exact ⟨_, rfl⟩
      · exact ⟨_, rfl⟩
    · rw [spelled, List.findSome?_cons, spelledBy, Option.getD_some, spelledDotted]
      split_ifs
      · exact ⟨_, rfl⟩
      · exact ⟨_, rfl⟩
  obtain ⟨text, htext⟩ := hsplit
  rw [render, List.getLastD_concat, fileName_eq, htext]
  exact extension_suffix item.sourcePath text (htext ▸ huncut)

/-- **Every name is safe and tells episodes apart.**  A component that is not a folder of a sibling is
a name every filesystem takes; the name of a file ends with the extension; and two episodes of one
series have two names under any order without the source's own, unless one of them has to be cut. -/
theorem keeps_apart (order : List NamingScheme) (item : NameableItem) (context : NamingContext) :
    (∀ part ∈ render order item context,
      isPinnedRoot context = false ∧ part ∈ (imitatedDirectory item context).getD [] ∨
        Made part) ∧
    (∀ scheme ∈ [NamingScheme.STANDARD, .DOTTED],
      ¬ Cut (spelled (scheme :: order) item context (extension item.sourcePath)) →
        (extension item.sourcePath).toList <:+
          ((render (scheme :: order) item context).getLastD "").toList) ∧
    ∀ (other : NameableItem) (season season' episode episode' : ℕ), .SOURCE ∉ order →
      Numbered item season episode → Numbered other season' episode' → SameSeries item other →
      (season, episode) ≠ (season', episode') → Spelled order item context season episode →
      Spelled order other context season' episode' →
        render order item context ≠ render order other context :=
  ⟨made_render order item context,
    fun _ hscheme huncut => extension_suffix_render hscheme order item context huncut,
    fun _ _ _ _ _ hsource hitem hother hseries hne h h' =>
      render_ne hsource hitem hother hseries hne h h'⟩

def pilot : NameableItem :=
  ⟨.EPISODE, "Long Day's Journey", some 2022, some 1, some 1, some "From", some 2022,
    some ["dropped", "from.s01e01.MKV"]⟩

def second : NameableItem := { pilot with title := "The Way Things Are Now", episodeNumber := some 2 }

def besideTenth : NamingContext :=
  ⟨[["tv", "From", "Saison 1", "From - s01e10 - Oh, the Places.mkv"]], none, none, none⟩

theorem keeps_apart_pilot :
    (extension pilot.sourcePath).toList <:+
        ((render [.STANDARD, .LOCAL] pilot besideTenth).getLastD "").toList ∧
      render [.LOCAL] pilot besideTenth ≠ render [.LOCAL] second besideTenth := by
  have hparts : sampleParts besideTenth = some ("From - ".toList, " - Oh, the Places".toList) := by
    decide +kernel
  have hown : ∀ episode : ℕ, ¬ (tagOf 1 episode).toList <:+: "From - ".toList := by
    intro episode hin
    have hS : 'S' ∈ "From - ".toList := by
      rw [toList_tagOf] at hin
      exact hin.subset (List.mem_cons_self ..)
    exact absurd hS (by decide)
  have hspelled : ∀ item ∈ [(pilot, 1), (second, 2)],
      Spelled [.LOCAL] item.1 besideTenth 1 item.2 := by
    intro item hitem
    refine ⟨?_, ?_, fun _ parts hin => ?_⟩
    · revert item
      decide +kernel
    · revert item
      decide +kernel
    · rw [hparts, Option.mem_some_iff] at hin
      exact hin ▸ hown item.2
  obtain ⟨-, hextension, hapart⟩ := keeps_apart [.LOCAL] pilot besideTenth
  exact ⟨hextension .STANDARD (by decide) (by decide +kernel),
    hapart second 1 1 1 2 (by decide) ⟨rfl, rfl, rfl⟩ ⟨rfl, rfl, rfl⟩ ⟨rfl, rfl⟩ (by decide)
      (hspelled (pilot, 1) (by decide +kernel)) (hspelled (second, 2) (by decide +kernel))⟩

/-- A library whose folder has a name that would not be made. -/
def besideOdd : NamingContext :=
  ⟨[], some ["tv", "From: The Series.", "From S01E01.mkv"], some ["tv"], none⟩

/-- A folder of a sibling is taken over as it is, and an episode without a season is one of season
zero. -/
theorem not_keeps_apart :
    (¬ ∀ part ∈ render [.STANDARD] pilot besideOdd, Safe part.toList) ∧
      render [.STANDARD] { pilot with seasonNumber := none } besideTenth =
        render [.STANDARD] { pilot with seasonNumber := some 0 } besideTenth := by
  refine ⟨fun h => ?_, by decide +kernel⟩
  have hfolder : "From: The Series." ∈ render [.STANDARD] pilot besideOdd := by decide +kernel
  have hlegal := (h _ hfolder).tidy.legal ':' (by decide)
  exact absurd hlegal (by decide)

end MediaCenterSync.Naming
