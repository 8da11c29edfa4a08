import MediaCenterSync.Lib.Text
import MediaCenterSync.Naming.Correct.Service

/-!
# What is left of a component

A text in which nothing is illegal, no space is long and no two follow each other (`Tidy`) stays as
it is when a component is cleaned: `cleaned_append` says so for the end of a component, and
`cleaned_around` for a stretch in the middle, whatever stands around it.  A sanitised component is
such a text, short enough and not reserved (`safe_sanitise`); only one that had to be cut
(`Cut`) can end with a dot.
-/

namespace MediaCenterSync.Naming

open Quality (isSpace)

/-! ### Squeezing -/

theorem head?_squeeze (text : List Char) :
    (squeeze text).head? = text.head?.map fun c => if isSpace c then ' ' else c := by
  cases text with
  | nil => rfl
  | cons c rest =>
    rw [squeeze, List.foldr_cons, ← squeeze, List.head?_cons, Option.map_some]
    split_ifs with hspace hhead
    · exact hhead
    · rfl
    · rfl

theorem squeeze_eq_nil {text : List Char} (h : squeeze text = []) : text = [] := by
  have hhead := head?_squeeze text
  rw [h, List.head?_nil, eq_comm, Option.map_eq_none_iff] at hhead
  exact List.head?_eq_none_iff.mp hhead

/-- Two texts are squeezed apart, unless a space would follow a space. -/
theorem squeeze_append {before after : List Char}
    (h : (squeeze before).getLast? = some ' ' → (squeeze after).head? ≠ some ' ') :
    squeeze (before ++ after) = squeeze before ++ squeeze after := by
  induction before with
  | nil => rfl
  | cons c rest ih =>
    have hcons : squeeze (c :: rest) =
        if isSpace c then if (squeeze rest).head? = some ' ' then squeeze rest
          else ' ' :: squeeze rest else c :: squeeze rest := rfl
    have hall : squeeze (c :: rest ++ after) =
        if isSpace c then if (squeeze (rest ++ after)).head? = some ' ' then squeeze (rest ++ after)
          else ' ' :: squeeze (rest ++ after) else c :: squeeze (rest ++ after) := rfl
    cases hrest : squeeze rest with
    | nil =>
      obtain rfl := squeeze_eq_nil hrest
      simp only [hrest, List.head?_nil, reduceCtorEq, if_false] at hcons
      rw [List.nil_append] at hall
      rw [hall, hcons]
      split_ifs with hspace hhead
      · rw [hcons, if_pos hspace] at h
        exact absurd hhead (h rfl)
      · rfl
      · rfl
    | cons d tail =>
      have hlast : (squeeze (c :: rest)).getLast? = (squeeze rest).getLast? := by
        rw [hcons, hrest]
        split_ifs <;> simp
      rw [hlast] at h
      rw [hall, hcons, ih h, hrest, List.cons_append, List.head?_cons, List.head?_cons]
      split_ifs <;> rfl

/-! ### Tidy texts -/

/-- A text that cleaning has nothing to change in, its ends apart. -/
structure Tidy (text : List Char) : Prop where
  legal : ∀ c ∈ text, isIllegal c = false
  space : ∀ c ∈ text, isSpace c → c = ' '
  single : Single text

namespace Tidy

variable {text before after : List Char}

theorem of_part (h : Tidy text) (hin : before <:+: text) : Tidy before where
  legal c hc := h.legal c (hin.subset hc)
  space c hc := h.space c (hin.subset hc)
  single := List.IsChain.infix h.single hin

theorem of_solid (h : ∀ c ∈ text, isIllegal c = false ∧ isSpace c = false) : Tidy text where
  legal c hc := (h c hc).1
  space c hc hspace := by
    rw [(h c hc).2] at hspace
    cases hspace
  single := by
    induction text with
    | nil => exact List.IsChain.nil
    | cons first rest ih =>
      refine List.isChain_cons.mpr ⟨fun b _ => ?_, ih fun c hc => h c (List.mem_cons_of_mem _ hc)⟩
      rintro ⟨rfl, -⟩
      exact absurd (h ' ' (List.mem_cons_self ..)).2 (by decide)

theorem append (h : Tidy before) (h' : Tidy after)
    (hends : before.getLast? = some ' ' → after.head? ≠ some ' ') : Tidy (before ++ after) where
  legal c hc := (List.mem_append.mp hc).elim (h.legal c) (h'.legal c)
  space c hc := (List.mem_append.mp hc).elim (h.space c) (h'.space c)
  single := by
    refine List.isChain_append.mpr ⟨h.single, h'.single, fun a ha b hb => ?_⟩
    rintro ⟨rfl, rfl⟩
    exact hends ha hb

theorem cons_space (h : Tidy text) (hhead : text.head? ≠ some ' ') : Tidy (' ' :: text) where
  legal := List.forall_mem_cons.mpr ⟨by decide, h.legal⟩
  space := List.forall_mem_cons.mpr ⟨fun _ => rfl, h.space⟩
  single := List.isChain_cons.mpr ⟨fun b hb => by rintro ⟨-, rfl⟩; exact hhead hb, h.single⟩

theorem squeeze_eq (h : Tidy text) : squeeze text = text := by
  induction text with
  | nil => rfl
  | cons c rest ih =>
    have hrest := ih (h.of_part (List.suffix_cons c rest).isInfix)
    rw [squeeze, List.foldr_cons, ← squeeze, hrest]
    split_ifs with hspace hhead
    · have hc := h.space c (List.mem_cons_self ..) hspace
      exact absurd ⟨hc, rfl⟩ ((List.isChain_cons.mp h.single).1 ' ' hhead)
    · rw [h.space c (List.mem_cons_self ..) hspace]
    · rfl

end Tidy

/-- A space for every illegal character. -/
def blanked (text : List Char) : List Char := text.map fun c => if isIllegal c then ' ' else c

theorem blanked_eq {text : List Char} (h : Tidy text) : blanked text = text := by
  calc blanked text = text.map id := List.map_congr_left fun c hc => by simp [h.legal c hc]
    _ = text := List.map_id text

theorem tidy_squeeze_blanked (text : List Char) : Tidy (squeeze (blanked text)) where
  legal c hc := by
    rcases mem_squeeze hc with rfl | ⟨hmem, -⟩
    · decide
    · obtain ⟨d, -, rfl⟩ := List.mem_map.mp hmem
      split_ifs with hillegal
      · decide
      · simpa using hillegal
  space c hc hspace := by
    rcases mem_squeeze hc with rfl | ⟨-, hother⟩
    · rfl
    · rw [hspace] at hother
      cases hother
  single := single_squeeze _

theorem Tidy.prefix_squeeze {text : List Char} (h : Tidy text) (rest : List Char) :
    text <+: squeeze (text ++ rest) := by
  induction text with
  | nil => exact List.nil_prefix
  | cons c others ih =>
    have hcons : squeeze (c :: others ++ rest) =
        if isSpace c then if (squeeze (others ++ rest)).head? = some ' ' then squeeze (others ++ rest)
          else ' ' :: squeeze (others ++ rest) else c :: squeeze (others ++ rest) := rfl
    have hothers := ih (h.of_part (List.suffix_cons c others).isInfix)
    rw [hcons]
    split_ifs with hspace hhead
    · obtain rfl := h.space c (List.mem_cons_self ..) hspace
      cases others with
      | nil =>
        obtain ⟨tail, htail⟩ := List.head?_eq_some_iff.mp hhead
        exact ⟨tail, htail.symm⟩
      | cons d more =>
        obtain ⟨tail, htail⟩ := hothers
        rw [← htail, List.cons_append, List.head?_cons, Option.some.injEq] at hhead
        exact absurd ⟨rfl, hhead⟩ (List.isChain_cons_cons.mp h.single).1
    · rw [h.space c (List.mem_cons_self ..) hspace]
      exact (List.prefix_cons_inj ' ').mpr hothers
    · exact (List.prefix_cons_inj c).mpr hothers

/-! ### Cleaning around a stretch -/

/-- A text with the spaces that lead it in taken out. -/
def front (before : List Char) : List Char := (squeeze (blanked before)).dropWhile isSpace

theorem head_dropWhile (text : List Char) :
    ∀ c ∈ (text.dropWhile isSpace).head?, isSpace c = false := by
  intro c hc
  have hhead := List.head?_dropWhile_not isSpace text
  rwa [hc] at hhead

theorem rdropWhile_append_of_last {α : Type*} {p : α → Bool} {before : List α}
    (h : ∀ c ∈ before.getLast?, p c = false) (after : List α) :
    (before ++ after).rdropWhile p = before ++ after.rdropWhile p := by
  induction after using List.reverseRecOn with
  | nil =>
    rw [List.append_nil, List.rdropWhile_nil, List.append_nil, List.rdropWhile_eq_self_iff]
    intro hl
    have hlast := h _ (List.getLast?_eq_some_getLast hl)
    rw [hlast]
    simp
  | append_singleton after c ih =>
    rw [← List.append_assoc, List.rdropWhile_concat, List.rdropWhile_concat]
    split_ifs
    · exact ih
    · rw [List.append_assoc]

/-- A stretch at whose ends nothing is taken away. -/
structure Firm (text : List Char) : Prop where
  tidy : Tidy text
  nonempty : text ≠ []
  head : ∀ c ∈ text.head?, isSpace c = false
  last : ∀ c ∈ text.getLast?, c ≠ '.' ∧ isSpace c = false

/-- **A firm stretch stays as it is**, what is before it is cleaned by itself, and what is behind it
is a part of what it would be. -/
theorem cleaned_around {middle : List Char} (h : Firm middle) (before after : List Char) :
    ∃ rest, rest <+: squeeze (blanked after) ∧
      cleaned (.ofList (before ++ middle ++ after)) = front before ++ middle ++ rest := by
  have hmiddle : squeeze middle = middle := h.tidy.squeeze_eq
  have hhead : middle.head? ≠ some ' ' := fun heq => absurd (h.head ' ' heq) (by decide)
  have hlast : middle.getLast? ≠ some ' ' := fun heq => absurd (h.last ' ' heq).2 (by decide)
  have hback : (blanked before ++ middle).getLast? = middle.getLast? :=
    List.getLast?_append_of_ne_nil _ h.nonempty
  -- No space of the middle touches one outside it, so squeezing goes part by part.
  have hbefore : squeeze (blanked before ++ middle) = squeeze (blanked before) ++ middle := by
    have hfirst : (squeeze (blanked before)).getLast? = some ' ' →
        (squeeze middle).head? ≠ some ' ' := by
      rw [hmiddle]
      exact fun _ => hhead
    rw [squeeze_append hfirst, hmiddle]
  have hall : squeeze (blanked (before ++ middle ++ after)) =
      squeeze (blanked before) ++ middle ++ squeeze (blanked after) := by
    have hblank : blanked (before ++ middle ++ after) =
        blanked before ++ middle ++ blanked after := by
      conv_rhs => rw [← blanked_eq h.tidy]
      simp only [blanked, List.map_append]
    rw [hblank, squeeze_append, hbefore]
    rw [hbefore, List.getLast?_append_of_ne_nil _ h.nonempty]
    exact fun heq => absurd heq hlast
  set sides := squeeze (blanked before) ++ middle with hsides
  have hsides_last : sides.getLast? = middle.getLast? :=
    List.getLast?_append_of_ne_nil _ h.nonempty
  have hfront : ∀ rest, (sides ++ rest).dropWhile isSpace = front before ++ middle ++ rest := by
    intro rest
    obtain ⟨first, others, hcons⟩ := List.exists_cons_of_ne_nil h.nonempty
    have hfirst : isSpace first = false := h.head first (by rw [hcons]; rfl)
    rw [hsides, front, List.append_assoc, List.append_assoc, List.dropWhile_append]
    split_ifs with hempty
    · rw [List.isEmpty_iff.mp hempty, hcons, List.cons_append,
        List.dropWhile_cons_of_neg (by simp [hfirst]), List.nil_append]
    · rfl
  refine ⟨((squeeze (blanked after)).rdropWhile fun c => c = '.' ∨ c = ' ').rdropWhile isSpace,
    (List.rdropWhile_prefix _ _).trans (List.rdropWhile_prefix _ _), ?_⟩
  -- The middle ends in neither a dot nor a space: the trimming stops at it.
  have hdots : (sides ++ squeeze (blanked after)).rdropWhile (fun c => c = '.' ∨ c = ' ') =
      sides ++ (squeeze (blanked after)).rdropWhile fun c => c = '.' ∨ c = ' ' := by
    refine rdropWhile_append_of_last (fun c hc => ?_) _
    obtain ⟨hdot, hspace⟩ := h.last c (hsides_last ▸ hc)
    have hblank : c ≠ ' ' := fun heq => absurd hspace (heq ▸ by decide)
    simp [hdot, hblank]
  show trimChars ((squeeze (blanked (String.ofList _).toList)).rdropWhile _) = _
  rw [String.toList_ofList, hall, hdots, trimChars, hfront]
  refine rdropWhile_append_of_last (fun c hc => ?_) _
  rw [List.getLast?_append_of_ne_nil _ h.nonempty] at hc
  exact (h.last c hc).2

theorem cleaned_append {after : List Char} (h : Firm after) (before : List Char) :
    cleaned (.ofList (before ++ after)) = front before ++ after := by
  obtain ⟨rest, hrest, hcleaned⟩ := cleaned_around h before []
  obtain rfl := List.prefix_nil.mp hrest
  rwa [List.append_nil, List.append_nil] at hcleaned

/-! ### Units -/

/-- How many UTF-16 units a text takes. -/
def width (text : List Char) : ℕ := (Matching.units (.ofList text)).length

theorem width_append (before after : List Char) :
    width (before ++ after) = width before + width after := by
  simp only [width, Matching.units, String.toList_ofList, List.flatMap_append, List.length_append]

theorem width_cons (c : Char) (rest : List Char) :
    width (c :: rest) = (if c.toNat < 0x10000 then 1 else 2) + width rest := by
  simp only [width, Matching.units, String.toList_ofList, List.flatMap_cons, List.length_append]
  split_ifs <;> simp

theorem width_takeUnits (count : ℕ) (text : List Char) : width (takeUnits count text) ≤ count := by
  fun_induction takeUnits count text with
  | case1 => exact Nat.zero_le _
  | case2 => exact Nat.zero_le _
  | case3 count c rest hsmall ih =>
    rw [width_cons, if_pos hsmall]
    omega
  | case4 => decide
  | case5 c rest hlarge count ih =>
    rw [width_cons, if_neg hlarge]
    omega

theorem takeUnits_zero (text : List Char) : takeUnits 0 text = [] := by
  cases text <;> rfl

theorem takeUnits_small {c : Char} (h : c.toNat < 0x10000) (count : ℕ) (rest : List Char) :
    takeUnits (count + 1) (c :: rest) = c :: takeUnits count rest := by
  cases count <;> exact if_pos h

theorem takeUnits_large {c : Char} (h : ¬ c.toNat < 0x10000) (count : ℕ) (rest : List Char) :
    takeUnits (count + 2) (c :: rest) = c :: takeUnits count rest :=
  if_neg h

theorem takeUnits_half {c : Char} (h : ¬ c.toNat < 0x10000) (rest : List Char) :
    takeUnits 1 (c :: rest) = [Char.ofNat 0xFFFD] :=
  if_neg h

/-- What fits is kept whole, and the cut falls behind it. -/
theorem takeUnits_append {count : ℕ} {before : List Char} (h : width before ≤ count)
    (after : List Char) :
    takeUnits count (before ++ after) = before ++ takeUnits (count - width before) after := by
  induction before generalizing count with
  | nil => rfl
  | cons c rest ih =>
    rw [width_cons] at h ⊢
    split_ifs at h ⊢ with hsmall
    · obtain ⟨count, rfl⟩ := Nat.exists_eq_add_of_le' (show 1 ≤ count by omega)
      have hcount : count + 1 - (1 + width rest) = count - width rest := by omega
      rw [List.cons_append, takeUnits_small hsmall, ih (by omega), hcount, List.cons_append]
    · obtain ⟨count, rfl⟩ := Nat.exists_eq_add_of_le' (show 2 ≤ count by omega)
      have hcount : count + 2 - (2 + width rest) = count - width rest := by omega
      rw [List.cons_append, takeUnits_large hsmall, ih (by omega), hcount, List.cons_append]

theorem takeUnits_append_of_le {count : ℕ} {before : List Char} (h : count ≤ width before)
    (after : List Char) : takeUnits count (before ++ after) = takeUnits count before := by
  induction before generalizing count with
  | nil =>
    obtain rfl : count = 0 := Nat.le_zero.mp h
    rw [takeUnits_zero, takeUnits_zero]
  | cons c rest ih =>
    rw [width_cons] at h
    rw [List.cons_append]
    split_ifs at h with hsmall
    · cases count with
      | zero => rfl
      | succ count => rw [takeUnits_small hsmall, takeUnits_small hsmall, ih (by omega)]
    · match count with
      | 0 => rfl
      | 1 => rw [takeUnits_half hsmall, takeUnits_half hsmall]
      | count + 2 => rw [takeUnits_large hsmall, takeUnits_large hsmall, ih (by omega)]

theorem takeUnits_narrow {text : List Char} (h : ∀ c ∈ text, c.toNat < 0x10000) (count : ℕ) :
    takeUnits count text = text.take count := by
  induction text generalizing count with
  | nil => simp [takeUnits]
  | cons c rest ih =>
    cases count with
    | zero => rfl
    | succ count =>
      rw [takeUnits_small (h c (List.mem_cons_self ..)), List.take_succ_cons,
        ih fun d hd => h d (List.mem_cons_of_mem _ hd)]

theorem width_narrow {text : List Char} (h : ∀ c ∈ text, c.toNat < 0x10000) :
    width text = text.length := by
  induction text with
  | nil => rfl
  | cons c rest ih =>
    rw [width_cons, if_pos (h c (List.mem_cons_self ..)), List.length_cons,
      ih fun d hd => h d (List.mem_cons_of_mem _ hd)]
    omega

/-- What is cut off is kept up to a character, or up to half of one. -/
theorem takeUnits_eq_prefix (count : ℕ) (text : List Char) :
    ∃ kept, kept <+: text ∧
      (takeUnits count text = kept ∨ takeUnits count text = kept ++ [Char.ofNat 0xFFFD]) := by
  fun_induction takeUnits count text with
  | case1 => exact ⟨[], List.nil_prefix, .inl rfl⟩
  | case2 => exact ⟨[], List.nil_prefix, .inl rfl⟩
  | case3 count c rest hsmall ih =>
    obtain ⟨kept, hkept, heq⟩ := ih
    exact ⟨c :: kept, (List.prefix_cons_inj c).mpr hkept,
      heq.imp (congrArg (c :: ·)) (congrArg (c :: ·))⟩
  | case4 => exact ⟨[], List.nil_prefix, .inr rfl⟩
  | case5 c rest hlarge count ih =>
    obtain ⟨kept, hkept, heq⟩ := ih
    exact ⟨c :: kept, (List.prefix_cons_inj c).mpr hkept,
      heq.imp (congrArg (c :: ·)) (congrArg (c :: ·))⟩

/-- A component that is longer than a name may be. -/
def Cut (component : String) : Prop := MAX_COMPONENT_LENGTH < width (cleaned component)

instance (component : String) : Decidable (Cut component) :=
  inferInstanceAs (Decidable (_ < _))

/-! ### Plain characters -/

theorem plain_spec {c : Char} (h : isPlain c) :
    isIllegal c = false ∧ isSpace c = false ∧ c ≠ '.' ∧ c.toNat < 0x10000 ∧ isPlain c.toLower ∧
      c.toLower.toLower = c.toLower := by
  have hsmall : c.toNat < 123 := by
    simp only [isPlain, Char.isDigit, decide_eq_true_eq, Bool.and_eq_true, Char.le_def,
      UInt32.le_iff_toNat_le] at h
    show c.val.toNat < 123
    rcases h with ⟨-, h⟩ | ⟨-, h⟩ | ⟨-, h⟩ <;>
      exact lt_of_le_of_lt h (by decide)
  have hall : ∀ n < 123, isPlain (Char.ofNat n) → isIllegal (Char.ofNat n) = false ∧
      isSpace (Char.ofNat n) = false ∧ Char.ofNat n ≠ '.' ∧ (Char.ofNat n).toNat < 0x10000 ∧
      isPlain (Char.ofNat n).toLower ∧
      (Char.ofNat n).toLower.toLower = (Char.ofNat n).toLower := by decide
  have hc := hall c.toNat hsmall
  rw [Char.ofNat_toNat] at hc
  exact hc h

theorem isPlain_of_isDigit {c : Char} (h : c.isDigit) : isPlain c := by
  simp [isPlain, h]

/-! ### Extensions -/

theorem extensionOf_cases (name : List Char) :
    extensionOf name = [] ∨ ∃ stem letters, name = stem ++ '.' :: letters ∧
      extensionOf name = '.' :: letters ∧ (∀ c ∈ letters, isPlain c) ∧
      1 ≤ letters.length ∧ letters.length ≤ 4 := by
  have hback := List.rdropWhile_append_rtakeWhile (p := isPlain) (l := name)
  by_cases h : 1 ≤ (name.rtakeWhile isPlain).length ∧ (name.rtakeWhile isPlain).length ≤ 4 ∧
      (name.rdropWhile isPlain).getLast? = some '.'
  · obtain ⟨stem, hstem⟩ := List.getLast?_eq_some_iff.mp h.2.2
    rw [hstem, List.append_assoc, List.singleton_append] at hback
    exact .inr ⟨stem, _, hback.symm, if_pos h, fun c hc => List.mem_rtakeWhile_imp hc, h.1, h.2.1⟩
  · exact .inl (if_neg h)

theorem stripExtension_append (name : List Char) :
    stripExtension name ++ extensionOf name = name := by
  rcases extensionOf_cases name with h | ⟨stem, letters, hname, h, -⟩
  · rw [stripExtension, h, List.length_nil, List.rdrop_zero, List.append_nil]
  · rw [stripExtension, h]
    conv_lhs => rw [hname]
    conv_rhs => rw [hname]
    rw [List.rdrop_append_length]

/-- What is behind a character that is neither plain nor a dot decides. -/
theorem extensionOf_append_cons {c : Char} (hplain : isPlain c = false) (hdot : c ≠ '.')
    (before after : List Char) : extensionOf (before ++ c :: after) = extensionOf after := by
  have hlast : ∀ d ∈ (before ++ [c]).getLast?, isPlain d = false := by
    intro d hd
    rw [List.getLast?_concat, Option.mem_some_iff] at hd
    exact hd ▸ hplain
  have hdrop : (before ++ c :: after).rdropWhile isPlain =
      before ++ [c] ++ after.rdropWhile isPlain := by
    have hsplit := rdropWhile_append_of_last hlast after
    rwa [List.append_assoc, List.singleton_append] at hsplit
  have htake : (before ++ c :: after).rtakeWhile isPlain = after.rtakeWhile isPlain := by
    have hall := List.rdropWhile_append_rtakeWhile (p := isPlain) (l := before ++ c :: after)
    have hback := List.rdropWhile_append_rtakeWhile (p := isPlain) (l := after)
    rw [hdrop, List.append_assoc, List.append_assoc, List.append_cancel_left_eq,
      List.singleton_append, List.cons_inj_right] at hall
    conv_rhs at hall => rw [← hback]
    exact List.append_cancel_left hall
  have hend : (before ++ [c] ++ after.rdropWhile isPlain).getLast? = some '.' ↔
      (after.rdropWhile isPlain).getLast? = some '.' := by
    rcases hcases : after.rdropWhile isPlain with _ | ⟨d, rest⟩
    · simp [hdot]
    · rw [List.getLast?_append_of_ne_nil _ (by simp)]
  simp only [extensionOf, htake, hdrop, hend]

theorem extensionOf_of_plain {text : List Char} (h : '.' ∉ text) : extensionOf text = [] := by
  rcases extensionOf_cases text with hnone | ⟨stem, letters, rfl, -⟩
  · exact hnone
  · exact absurd (by simp) h

theorem extensionOf_append {letters : List Char} (hplain : ∀ c ∈ letters, isPlain c)
    (hpos : 1 ≤ letters.length) (hlength : letters.length ≤ 4) (stem : List Char) :
    extensionOf (stem ++ '.' :: letters) = '.' :: letters := by
  have hdot : ∀ d ∈ (stem ++ ['.']).getLast?, isPlain d = false := by
    intro d hd
    rw [List.getLast?_concat, Option.mem_some_iff] at hd
    exact hd ▸ by decide
  have hdrop : (stem ++ '.' :: letters).rdropWhile isPlain = stem ++ ['.'] := by
    have hsplit := rdropWhile_append_of_last hdot letters
    rwa [List.rdropWhile_eq_nil_iff.mpr hplain, List.append_nil, List.append_assoc,
      List.singleton_append] at hsplit
  have htake : (stem ++ '.' :: letters).rtakeWhile isPlain = letters := by
    have hall := List.rdropWhile_append_rtakeWhile (p := isPlain) (l := stem ++ '.' :: letters)
    rw [hdrop, List.append_assoc, List.singleton_append, List.append_cancel_left_eq,
      List.cons_inj_right] at hall
    exact hall
  simp only [extensionOf, htake, hdrop, List.getLast?_concat, hpos, hlength, true_and, if_true]

theorem extensionOf_dot {letters : List Char} (h : ∀ c ∈ letters, isPlain c) (stem : List Char) :
    extensionOf (stem ++ '.' :: letters) = [] ∨
      extensionOf (stem ++ '.' :: letters) = '.' :: letters := by
  by_cases hlength : 1 ≤ letters.length ∧ letters.length ≤ 4
  · exact .inr (extensionOf_append h hlength.1 hlength.2 stem)
  · refine (extensionOf_cases (stem ++ '.' :: letters)).imp_right ?_
    rintro ⟨stem', letters', heq, hext, hplain, -, -⟩
    have hback := congrArg List.reverse heq
    simp only [List.reverse_append, List.reverse_cons, List.append_assoc,
      List.singleton_append] at hback
    have hdot : ∀ {text : List Char}, (∀ c ∈ text, isPlain c) → '.' ∉ text.reverse := by
      intro text hall hmem
      exact (plain_spec (hall '.' (List.mem_reverse.mp hmem))).2.2.1 rfl
    have hletters := (Text.append_cons_inj hback (hdot h) (hdot hplain)).1
    rw [hext, List.reverse_inj.mp hletters]

/-- The extension of a name, as it is compared. -/
def endingOf (name : String) : List Char := (extensionOf name.toList).map Char.toLower

theorem endingOf_cases (name : String) :
    endingOf name = [] ∧ extensionOf name.toList = [] ∨
      ∃ letters, endingOf name = '.' :: letters ∧ (∀ c ∈ letters, isPlain c) ∧
        1 ≤ letters.length ∧ letters.length ≤ 4 ∧
        letters.map Char.toLower = letters := by
  rcases extensionOf_cases name.toList with h | ⟨_, letters, -, h, hplain, hpos, hlength⟩
  · exact .inl ⟨by rw [endingOf, h, List.map_nil], h⟩
  · refine .inr ⟨letters.map Char.toLower, ?_, ?_, ?_, ?_, ?_⟩
    · rw [endingOf, h, List.map_cons]
      rfl
    · intro c hc
      obtain ⟨d, hd, rfl⟩ := List.mem_map.mp hc
      exact (plain_spec (hplain d hd)).2.2.2.2.1
    · rwa [List.length_map]
    · rwa [List.length_map]
    · rw [List.map_map]
      exact List.map_congr_left fun c hc => (plain_spec (hplain c hc)).2.2.2.2.2

/-! ### What sanitising gives -/

def Reserved (name : List Char) : Prop :=
  String.ofList ((stripExtension name).map Char.toLower) ∈ RESERVED_NAMES

/-- A name every filesystem takes. -/
structure Safe (name : List Char) : Prop where
  nonempty : name ≠ []
  short : width name ≤ MAX_COMPONENT_LENGTH
  tidy : Tidy name
  head : ∀ c ∈ name.head?, isSpace c = false
  last : ∀ c ∈ name.getLast?, isSpace c = false
  free : ¬ Reserved name

theorem trimChars_eq {text : List Char} (hhead : ∀ c ∈ text.head?, isSpace c = false)
    (hlast : ∀ c ∈ text.getLast?, isSpace c = false) : trimChars text = text := by
  have hfront : text.dropWhile isSpace = text := by
    cases text with
    | nil => rfl
    | cons c rest => exact List.dropWhile_cons_of_neg (by simp [hhead c rfl])
  rw [trimChars, hfront, List.rdropWhile_eq_self_iff]
  intro hne
  rw [hlast _ (List.getLast?_eq_some_getLast hne)]
  simp

theorem ends_trimChars (text : List Char) :
    (∀ c ∈ (trimChars text).head?, isSpace c = false) ∧
      ∀ c ∈ (trimChars text).getLast?, isSpace c = false := by
  set kept := text.dropWhile isSpace with hkept
  constructor
  · intro c hc
    have hprefix : trimChars text <+: kept := List.rdropWhile_prefix _ _
    obtain ⟨rest, hrest⟩ := hprefix
    have hkept_head : kept.head? = some c := by
      rw [← hrest, List.head?_append, hc, Option.some_or]
    exact head_dropWhile text c hkept_head
  · intro c hc
    have hne : trimChars text ≠ [] := fun hnil => by
      rw [hnil] at hc
      cases hc
    have hnot := List.rdropWhile_last_not isSpace kept hne
    have hget := List.getLast?_eq_some_getLast hne
    rw [Option.mem_def, hget, Option.some.injEq] at hc
    rw [← hc]
    exact Bool.eq_false_iff.mpr hnot

theorem tidy_cleaned (component : String) : Tidy (cleaned component) :=
  (tidy_squeeze_blanked component.toList).of_part (infix_cleaned component)

theorem tidy_takeUnits {text : List Char} (h : Tidy text) (count : ℕ) :
    Tidy (takeUnits count text) := by
  obtain ⟨kept, hkept, heq | heq⟩ := takeUnits_eq_prefix count text
  · exact heq ▸ h.of_part hkept.isInfix
  · rw [heq]
    refine (h.of_part hkept.isInfix).append (Tidy.of_solid ?_) fun _ => by decide
    intro c hc
    obtain rfl := List.mem_singleton.mp hc
    exact ⟨by decide, by decide⟩

theorem width_le_of_part {part text : List Char} (h : part <:+: text) :
    width part ≤ width text := by
  obtain ⟨before, after, rfl⟩ := h
  rw [width_append, width_append]
  omega

theorem trimmed_of_cut {component : String} (h : Cut component) :
    trimmed component = trimChars (takeUnits MAX_COMPONENT_LENGTH (cleaned component)) :=
  if_pos h

theorem trimmed_of_not_cut {component : String} (h : ¬ Cut component) :
    trimmed component = cleaned component :=
  if_neg h

/-- A component that was cut where it had to be, before the reserved names are looked at. -/
theorem trimmed_spec (component : String) :
    Tidy (trimmed component) ∧ width (trimmed component) ≤ MAX_COMPONENT_LENGTH ∧
      (∀ c ∈ (trimmed component).head?, isSpace c = false) ∧
      ∀ c ∈ (trimmed component).getLast?, isSpace c = false := by
  unfold trimmed
  split_ifs with hlong
  · obtain ⟨hhead, hlast⟩ := ends_trimChars (takeUnits MAX_COMPONENT_LENGTH (cleaned component))
    have hin := infix_trimChars (takeUnits MAX_COMPONENT_LENGTH (cleaned component))
    exact ⟨(tidy_takeUnits (tidy_cleaned component) _).of_part hin,
      (width_le_of_part hin).trans (width_takeUnits _ _), hhead, hlast⟩
  · obtain ⟨hhead, hlast⟩ := ends_trimChars ((legal component).rdropWhile fun c => c = '.' ∨ c = ' ')
    exact ⟨tidy_cleaned component, Nat.le_of_not_lt hlong, hhead, hlast⟩

theorem reserved_spec : ∀ name ∈ RESERVED_NAMES,
    name.toList.length ≤ 4 ∧ name.toList.head? ≠ some '_' ∧ ' ' ∉ name.toList := by
  decide

theorem length_stripExtension_of_reserved {name : List Char} (h : Reserved name) :
    (stripExtension name).length ≤ 4 := by
  have hlength := (reserved_spec _ h).1
  rwa [String.toList_ofList, List.length_map] at hlength

theorem length_extensionOf_le (name : List Char) : (extensionOf name).length ≤ 5 := by
  rcases extensionOf_cases name with h | ⟨_, letters, -, h, -, -, hlength⟩
  · rw [h]
    exact Nat.zero_le _
  · rw [h, List.length_cons]
    omega

theorem width_le_of_reserved {name : List Char} (h : Reserved name) : width name ≤ 18 := by
  have hstem := length_stripExtension_of_reserved h
  have hext := length_extensionOf_le name
  have hname := congrArg List.length (stripExtension_append name)
  rw [List.length_append] at hname
  have hwidth : width name ≤ 2 * name.length := length_units_le name
  omega

theorem not_reserved_underscore (name : List Char) : ¬ Reserved ('_' :: name) := by
  intro h
  have hext : extensionOf ('_' :: name) = extensionOf name :=
    extensionOf_append_cons (by decide) (by decide) [] name
  have hstrip := stripExtension_append ('_' :: name)
  have hhead : (stripExtension ('_' :: name)).head? = some '_' := by
    rw [hext] at hstrip
    have hname := stripExtension_append name
    conv_rhs at hstrip => rw [← hname]
    rw [← List.cons_append, List.append_cancel_right_eq] at hstrip
    rw [hstrip, List.head?_cons]
  have hfirst := (reserved_spec _ h).2.1
  rw [String.toList_ofList, List.head?_map, hhead] at hfirst
  exact hfirst (by decide)

theorem not_reserved_of_space {name : List Char} (h : ' ' ∈ name) : ¬ Reserved name := by
  intro hreserved
  have hstem : ' ' ∈ stripExtension name := by
    rw [← stripExtension_append name] at h
    refine (List.mem_append.mp h).resolve_right fun hin => ?_
    rcases extensionOf_cases name with hnone | ⟨_, letters, -, hsome, hplain, -⟩
    · rw [hnone] at hin
      cases hin
    · rw [hsome] at hin
      rcases List.mem_cons.mp hin with heq | hin
      · exact absurd heq (by decide)
      · exact absurd (plain_spec (hplain ' ' hin)).2.1 (by decide)
  refine (reserved_spec _ hreserved).2.2 ?_
  rw [String.toList_ofList]
  exact List.mem_map.mpr ⟨' ', hstem, by decide⟩

theorem sanitise_eq (component : String) :
    (cleaned component = [] ∧ sanitise component = "untitled") ∨
      cleaned component ≠ [] ∧
        (Reserved (trimmed component) ∧ sanitise component = .ofList ('_' :: trimmed component) ∨
          ¬ Reserved (trimmed component) ∧ sanitise component = .ofList (trimmed component)) := by
  by_cases hempty : cleaned component = []
  · exact .inl ⟨hempty, if_pos hempty⟩
  · refine .inr ⟨hempty, ?_⟩
    by_cases hreserved : Reserved (trimmed component)
    · exact .inl ⟨hreserved, (if_neg hempty).trans (if_pos hreserved)⟩
    · exact .inr ⟨hreserved, (if_neg hempty).trans (if_neg hreserved)⟩

theorem sanitise_congr {component other : String} (h : cleaned component ≠ [])
    (h' : cleaned other ≠ []) (heq : trimmed component = trimmed other) :
    sanitise component = sanitise other := by
  rcases sanitise_eq component with ⟨hnil, -⟩ | ⟨-, ⟨hreserved, hc⟩ | ⟨hfree, hc⟩⟩
  · exact absurd hnil h
  · rcases sanitise_eq other with ⟨hnil, -⟩ | ⟨-, ⟨-, ho⟩ | ⟨hfree, -⟩⟩
    · exact absurd hnil h'
    · rw [hc, ho, heq]
    · rw [heq] at hreserved
      exact absurd hreserved hfree
  · rcases sanitise_eq other with ⟨hnil, -⟩ | ⟨-, ⟨hreserved, -⟩ | ⟨-, ho⟩⟩
    · exact absurd hnil h'
    · rw [← heq] at hreserved
      exact absurd hreserved hfree
    · rw [hc, ho, heq]

theorem extensionOf_sanitise {component : String} (h : cleaned component ≠ []) :
    extensionOf (sanitise component).toList = extensionOf (trimmed component) := by
  rcases sanitise_eq component with ⟨hnil, -⟩ | ⟨-, ⟨-, heq⟩ | ⟨-, heq⟩⟩
  · exact absurd hnil h
  · rw [heq, String.toList_ofList]
    exact extensionOf_append_cons (by decide) (by decide) [] _
  · rw [heq, String.toList_ofList]

theorem sanitise_of_not_cut {component : String} (h : ¬ Cut component)
    (hne : cleaned component ≠ []) (hfree : ¬ Reserved (cleaned component)) :
    (sanitise component).toList = cleaned component := by
  have htrimmed : trimmed component = cleaned component := trimmed_of_not_cut h
  rw [← htrimmed] at hfree
  rcases sanitise_eq component with ⟨hnil, -⟩ | ⟨-, ⟨hreserved, -⟩ | ⟨-, heq⟩⟩
  · exact absurd hnil hne
  · exact absurd hreserved hfree
  · rw [heq, htrimmed, String.toList_ofList]

theorem sanitise_of_firm {text : List Char} (h : Firm text)
    (hshort : width text ≤ MAX_COMPONENT_LENGTH) (hfree : ¬ Reserved text) :
    (sanitise (.ofList text)).toList = text := by
  have hcleaned : cleaned (.ofList text) = text := by
    have hfront : front [] = [] := rfl
    have hall := cleaned_append h []
    rwa [hfront, List.nil_append] at hall
  rw [sanitise_of_not_cut, hcleaned]
  · rw [Cut, hcleaned]
    exact Nat.not_lt.mpr hshort
  · rw [hcleaned]
    exact h.nonempty
  · rwa [hcleaned]

theorem safe_untitled : Safe "untitled".toList where
  nonempty := by decide
  short := by decide
  tidy := Tidy.of_solid (by decide)
  head := by decide
  last := by decide
  free := by
    unfold Reserved
    decide

/-- **A sanitised component is a name every filesystem takes.** -/
theorem safe_sanitise (component : String) : Safe (sanitise component).toList := by
  obtain ⟨htidy, hshort, hhead, hlast⟩ := trimmed_spec component
  rcases sanitise_eq component with ⟨-, heq⟩ | ⟨hne, ⟨hreserved, heq⟩ | ⟨hfree, heq⟩⟩
  · exact heq ▸ safe_untitled
  · have hnil : trimmed component ≠ [] := fun hnil =>
      not_dots_trimmed hne (hnil ▸ List.mem_cons_self ..)
    have hlength := width_le_of_reserved hreserved
    have hline : Tidy ['_'] := Tidy.of_solid (by decide)
    rw [heq, String.toList_ofList]
    refine ⟨by simp, ?_, ?_, ?_, ?_, not_reserved_underscore _⟩
    · rw [width_cons, MAX_COMPONENT_LENGTH]
      split_ifs <;> omega
    · rw [← List.singleton_append]
      exact hline.append htidy fun h => absurd h (by decide)
    · intro c hc
      rw [List.head?_cons, Option.mem_some_iff] at hc
      exact hc ▸ by decide
    · intro c hc
      rw [List.getLast?_cons_of_ne_nil hnil] at hc
      exact hlast c hc
  · rw [heq, String.toList_ofList]
    exact ⟨fun hnil => not_dots_trimmed hne (hnil ▸ List.mem_cons_self ..), hshort, htidy, hhead,
      hlast, hfree⟩

/-- What a component ends with, a name made of it ends with, unless it is cut. -/
theorem suffix_sanitise {component : String} {last : List Char} (huncut : ¬ Cut component)
    (hne : last ≠ []) (h : last <:+ cleaned component) : last <:+ (sanitise component).toList := by
  have hcleaned : cleaned component ≠ [] := by
    intro hnil
    rw [hnil] at h
    exact hne (List.suffix_nil.mp h)
  rw [← trimmed_of_not_cut huncut] at h
  rcases sanitise_eq component with ⟨hnil, -⟩ | ⟨-, ⟨-, heq⟩ | ⟨-, heq⟩⟩
  · exact absurd hnil hcleaned
  · rw [heq, String.toList_ofList]
    exact h.trans (List.suffix_cons '_' _)
  · rwa [heq, String.toList_ofList]

theorem last_ne_dot {component : String} (huncut : ¬ Cut component) :
    (sanitise component).toList.getLast? ≠ some '.' := by
  have hlast : (trimmed component).getLast? ≠ some '.' := by
    rw [trimmed_of_not_cut huncut]
    exact fun hdot => (ends_cleaned component).2 '.' hdot rfl
  rcases sanitise_eq component with ⟨-, heq⟩ | ⟨hne, ⟨-, heq⟩ | ⟨-, heq⟩⟩
  · rw [heq]
    decide
  · have hnil : trimmed component ≠ [] := by rwa [trimmed_of_not_cut huncut]
    rw [heq, String.toList_ofList, List.getLast?_cons_of_ne_nil hnil]
    exact hlast
  · rw [heq, String.toList_ofList]
    exact hlast

end MediaCenterSync.Naming
