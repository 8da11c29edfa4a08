import Mathlib.Data.List.Chain
import MediaCenterSync.Naming.Service
import MediaCenterSync.Placement.Correct.Service

/-!
# Names a path keeps

What `sanitise` gives is a component that a path keeps as it is (`proper_sanitise`): nothing in it
separates, and it is neither empty nor made of dots that lead somewhere.  So the folders of a
template and the name of a file are components of a path (`proper_template`, `proper_fileName`), and
another name changes the last component alone (`disambiguate_concat`, `proper_renamed`).
-/

namespace MediaCenterSync.Naming

open Placement (Proper folders)
open Quality (isSpace trim)

/-! ### Cleaning -/

theorem mem_squeeze {text : List Char} {c : Char} (h : c ∈ squeeze text) :
    c = ' ' ∨ c ∈ text ∧ isSpace c = false := by
  induction text with
  | nil => cases h
  | cons first rest ih =>
    rw [squeeze, List.foldr_cons, ← squeeze] at h
    have hrest : c ∈ squeeze rest → c = ' ' ∨ c ∈ first :: rest ∧ isSpace c = false :=
      fun hin => (ih hin).imp_right fun ⟨hmem, hspace⟩ => ⟨List.mem_cons_of_mem _ hmem, hspace⟩
    split_ifs at h with hspace hhead
    · exact hrest h
    · exact (List.mem_cons.mp h).elim .inl hrest
    · rcases List.mem_cons.mp h with rfl | h
      · exact .inr ⟨List.mem_cons_self .., by simpa using hspace⟩
      · exact hrest h

/-- No two spaces follow each other. -/
def Single (text : List Char) : Prop := text.IsChain fun a b => ¬ (a = ' ' ∧ b = ' ')

theorem single_squeeze (text : List Char) : Single (squeeze text) := by
  induction text with
  | nil => exact List.IsChain.nil
  | cons first rest ih =>
    rw [squeeze, List.foldr_cons, ← squeeze]
    split_ifs with hspace hhead
    · exact ih
    · refine List.isChain_cons.mpr ⟨fun b hb => ?_, ih⟩
      rintro ⟨-, rfl⟩
      exact hhead hb
    · refine List.isChain_cons.mpr ⟨fun b _ => ?_, ih⟩
      rintro ⟨rfl, -⟩
      exact hspace (by decide)

theorem infix_trimChars (text : List Char) : trimChars text <:+: text :=
  (List.rdropWhile_prefix _ _).isInfix.trans (List.dropWhile_suffix _).isInfix

/-- The component with a space for every illegal character, and its long spaces made short. -/
def legal (component : String) : List Char :=
  squeeze (component.toList.map fun c => if isIllegal c then ' ' else c)

theorem infix_cleaned (component : String) : cleaned component <:+: legal component :=
  (infix_trimChars _).trans (List.rdropWhile_prefix _ _).isInfix

theorem eq_space_of_legal {component : String} {c : Char} (h : c ∈ legal component)
    (hspace : isSpace c) : c = ' ' := by
  rcases mem_squeeze h with rfl | ⟨-, hother⟩
  · rfl
  · rw [hspace] at hother
    cases hother

theorem backslash_not_mem_legal (component : String) : Char.ofNat 0x5C ∉ legal component := by
  intro h
  rcases mem_squeeze h with heq | ⟨hmem, -⟩
  · exact absurd heq (by decide)
  · obtain ⟨c, -, hc⟩ := List.mem_map.mp hmem
    split_ifs at hc with hillegal
    · exact absurd hc (by decide)
    · exact hillegal (hc ▸ by decide)

theorem ends_cleaned (component : String) :
    (∀ c ∈ (cleaned component).head?, isSpace c = false) ∧
      ∀ c ∈ (cleaned component).getLast?, c ≠ '.' := by
  set kept := (legal component).rdropWhile fun c => c = '.' ∨ c = ' ' with hkept
  set text := kept.dropWhile isSpace with htext
  have hlast : ∀ c ∈ text.getLast?, c ≠ '.' ∧ isSpace c = false := by
    intro c hc
    obtain ⟨front, hfront⟩ := List.getLast?_eq_some_iff.mp hc
    obtain ⟨before, hbefore⟩ : text <:+ kept := List.dropWhile_suffix _
    have hne : kept ≠ [] := by
      rintro hnil
      rw [hnil, hfront] at hbefore
      simp at hbefore
    have hget : kept.getLast hne = c := by
      simp only [← hbefore, hfront, ← List.append_assoc, List.getLast_concat]
    have hnot : ¬ (kept.getLast hne = '.' ∨ kept.getLast hne = ' ') := fun h =>
      List.rdropWhile_last_not _ _ hne (decide_eq_true h)
    rw [hget, not_or] at hnot
    have hmem : c ∈ legal component :=
      (List.rdropWhile_prefix _ _).subset (hget ▸ List.getLast_mem hne)
    exact ⟨hnot.1, Bool.eq_false_iff.mpr fun hspace => hnot.2 (eq_space_of_legal hmem hspace)⟩
  have hcleaned : cleaned component = text := by
    refine List.rdropWhile_eq_self_iff.mpr fun hne => ?_
    rw [Bool.not_eq_true]
    exact (hlast _ (List.getLast?_eq_some_getLast hne)).2
  rw [hcleaned]
  refine ⟨fun c hc => ?_, fun c hc => (hlast c hc).1⟩
  have hhead := List.head?_dropWhile_not isSpace kept
  rw [← htext, hc] at hhead
  exact hhead

/-! ### Components -/

theorem length_units_le (text : List Char) :
    (Matching.units (.ofList text)).length ≤ 2 * text.length := by
  rw [Matching.units, String.toList_ofList]
  induction text with
  | nil => simp
  | cons c rest ih =>
    rw [List.flatMap_cons, List.length_append, List.length_cons]
    split_ifs <;> simp only [List.length_cons, List.length_nil] <;> omega

theorem mem_takeUnits {count : ℕ} {text : List Char} {c : Char} (h : c ∈ takeUnits count text) :
    c ∈ text ∨ c = Char.ofNat 0xFFFD := by
  fun_induction takeUnits count text with
  | case1 => cases h
  | case2 => cases h
  | case3 count first rest hsmall ih =>
    exact (List.mem_cons.mp h).elim (fun heq => .inl (heq ▸ List.mem_cons_self ..))
      fun hin => (ih hin).imp_left (List.mem_cons_of_mem _)
  | case4 => exact .inr (List.mem_singleton.mp h)
  | case5 first rest hlarge count ih =>
    exact (List.mem_cons.mp h).elim (fun heq => .inl (heq ▸ List.mem_cons_self ..))
      fun hin => (ih hin).imp_left (List.mem_cons_of_mem _)

theorem takeUnits_cons {count : ℕ} (h : 2 ≤ count) (c : Char) (rest : List Char) :
    ∃ left, count - 2 ≤ left ∧ takeUnits count (c :: rest) = c :: takeUnits left rest := by
  obtain ⟨count, rfl⟩ := Nat.exists_eq_add_of_le' h
  rw [takeUnits]
  split_ifs
  · exact ⟨count + 1, by omega, rfl⟩
  · exact ⟨count, by omega, rfl⟩

/-- Cut off well behind its fourth character, a text keeps those before. -/
theorem takeUnits_four {count : ℕ} (h : 8 ≤ count) (a b c d : Char) (rest : List Char) :
    ∃ cut, takeUnits count (a :: b :: c :: d :: rest) = a :: b :: c :: d :: cut := by
  obtain ⟨left, hleft, ha⟩ := takeUnits_cons (by omega : 2 ≤ count) a (b :: c :: d :: rest)
  obtain ⟨left', hleft', hb⟩ := takeUnits_cons (by omega : 2 ≤ left) b (c :: d :: rest)
  obtain ⟨left'', hleft'', hc⟩ := takeUnits_cons (by omega : 2 ≤ left') c (d :: rest)
  obtain ⟨_, -, hd⟩ := takeUnits_cons (by omega : 2 ≤ left'') d rest
  exact ⟨_, by rw [ha, hb, hc, hd]⟩

theorem proper_trimmed {component : String}
    (h : MAX_COMPONENT_LENGTH < (Matching.units (.ofList (cleaned component))).length) :
    trimChars (takeUnits MAX_COMPONENT_LENGTH (cleaned component)) ∉ [[], ['.'], ['.', '.']] := by
  have hlength : 4 ≤ (cleaned component).length := by
    have hunits := length_units_le (cleaned component)
    rw [MAX_COMPONENT_LENGTH] at h
    omega
  obtain ⟨a, b, c, d, rest, hcleaned⟩ : ∃ a b c d rest, cleaned component = a :: b :: c :: d :: rest
  · match cleaned component, hlength with
    | a :: b :: c :: d :: rest, _ => exact ⟨a, b, c, d, rest, rfl⟩
  have hsingle : Single (cleaned component) :=
    List.IsChain.infix (single_squeeze _) (infix_cleaned component)
  have hspace : ∀ e ∈ cleaned component, isSpace e → e = ' ' := fun e he =>
    eq_space_of_legal ((infix_cleaned component).subset he)
  have hhead := (ends_cleaned component).1 a (by rw [hcleaned]; rfl)
  rw [hcleaned] at hsingle hspace ⊢
  simp only [Single, List.isChain_cons_cons] at hsingle
  obtain ⟨-, hbc, hcd, -⟩ := hsingle
  obtain ⟨cut, hcut⟩ := takeUnits_four (by decide : 8 ≤ MAX_COMPONENT_LENGTH) a b c d rest
  have htrim : trimChars (a :: b :: c :: d :: cut) =
      (a :: b :: c :: d :: cut).rdropWhile isSpace := by
    rw [trimChars, List.dropWhile_cons_of_neg (by simpa using hhead)]
  have hback := List.rdropWhile_append_rtakeWhile (p := isSpace) (l := a :: b :: c :: d :: cut)
  have htail : ∀ e ∈ (a :: b :: c :: d :: cut).rtakeWhile isSpace, isSpace e :=
    fun e he => List.mem_rtakeWhile_imp he
  rw [hcut, htrim]
  generalize (a :: b :: c :: d :: cut).rtakeWhile isSpace = tail at hback htail
  intro hmem
  simp only [List.mem_cons, List.not_mem_nil, or_false] at hmem
  -- what was trimmed away would hold two spaces in a row
  rcases hmem with hnil | hdot | hdots
  · rw [hnil, List.nil_append] at hback
    have ha := htail a (hback ▸ List.mem_cons_self ..)
    rw [hhead] at ha
    cases ha
  · rw [hdot, List.singleton_append] at hback
    obtain ⟨-, htl⟩ := List.cons.inj hback
    exact hbc ⟨hspace b (by simp) (htail b (by simp [htl])),
      hspace c (by simp) (htail c (by simp [htl]))⟩
  · rw [hdots] at hback
    have htl : tail = c :: d :: cut := (List.cons.inj (List.cons.inj hback).2).2
    exact hcd ⟨hspace c (by simp) (htail c (by simp [htl])),
      hspace d (by simp) (htail d (by simp [htl]))⟩

theorem proper_ofList {text : List Char} (h : text ∉ [[], ['.'], ['.', '.']])
    (hwhole : Char.ofNat 0x5C ∉ text) : Proper (.ofList text) where
  plain := by
    simp only [List.mem_cons, List.not_mem_nil, or_false, not_or] at h ⊢
    refine ⟨fun heq => h.1 ?_, fun heq => h.2.1 ?_, fun heq => h.2.2 ?_⟩ <;>
      · have hlist := congrArg String.toList heq
        rwa [String.toList_ofList] at hlist
  whole := by rwa [String.toList_ofList]

/-- What is cleaned does not lead anywhere, unless nothing is left. -/
theorem not_dots_cleaned {component : String} (h : cleaned component ≠ []) :
    cleaned component ∉ [[], ['.'], ['.', '.']] := by
  have hlast := (ends_cleaned component).2
  intro hmem
  simp only [List.mem_cons, List.not_mem_nil, or_false] at hmem
  rcases hmem with hnil | hdot | hdots
  · exact h hnil
  · rw [hdot] at hlast
    exact hlast '.' rfl rfl
  · rw [hdots] at hlast
    exact hlast '.' rfl rfl

theorem backslash_not_mem_cleaned (component : String) :
    Char.ofNat 0x5C ∉ cleaned component :=
  fun h => backslash_not_mem_legal component ((infix_cleaned component).subset h)

/-- A component before the reserved names are looked at. -/
def trimmed (component : String) : List Char :=
  if MAX_COMPONENT_LENGTH < (Matching.units (.ofList (cleaned component))).length then
    trimChars (takeUnits MAX_COMPONENT_LENGTH (cleaned component))
  else cleaned component

theorem not_dots_trimmed {component : String} (h : cleaned component ≠ []) :
    trimmed component ∉ [[], ['.'], ['.', '.']] := by
  unfold trimmed
  split_ifs with hlong
  · exact proper_trimmed hlong
  · exact not_dots_cleaned h

theorem backslash_not_mem_trimmed (component : String) :
    Char.ofNat 0x5C ∉ trimmed component := by
  unfold trimmed
  split_ifs
  · intro h
    rcases mem_takeUnits ((infix_trimChars _).subset h) with h | h
    · exact backslash_not_mem_cleaned component h
    · exact absurd h (by decide)
  · exact backslash_not_mem_cleaned component

/-- **A sanitised component is one a path keeps.** -/
theorem proper_sanitise (component : String) : Proper (sanitise component) := by
  have hwhole := backslash_not_mem_trimmed component
  have hdots := @not_dots_trimmed component
  unfold sanitise
  dsimp only
  rw [← trimmed]
  split_ifs with hempty hreserved
  · exact ⟨by decide, by decide⟩
  · refine proper_ofList (by simp) fun h => ?_
    rcases List.mem_cons.mp h with h | h
    · exact absurd h (by decide)
    · exact hwhole h
  · exact proper_ofList (hdots hempty) hwhole

/-! ### Names -/

def tagOf (season episode : ℤ) : String := "S" ++ pad season ++ "E" ++ pad episode

/-- The title behind a tag, when there is one. -/
def titled (separator : String) (item : NameableItem) : String :=
  if trim item.title = "" then "" else separator ++ sanitise item.title

/-- What a sample has before its tag, and what behind it. -/
def sampleParts (context : NamingContext) : Option (List Char × List Char) := do
  let offered := if context.samples ≠ [] then context.samples else context.siblingPath.toList
  let sample ← offered.head?
  splitAtTag (stripExtension (basename sample))

def separatorOf (after : List Char) : String :=
  let gap := after.takeWhile fun c => isSpace c ∨ c ∈ ['.', '_', '-']
  if gap = [] then " - " else .ofList gap

/-- What comes before our tag in the place of the sample's, and what separates it from the title. -/
def framed (context : NamingContext) (season episode : ℤ) : Option (List Char × String) :=
  (sampleParts context).map fun parts =>
    let tag := (tagOf season episode).toList
    let cut := cutAtFirst tag (parts.1 ++ tag ++ parts.2)
    (cut.1, separatorOf cut.2)

def spelledStandard (item : NameableItem) (extension : String) : String :=
  if item.kind = .EPISODE then
    sanitise (seriesOrOwn item) ++ " - S" ++ pad (item.seasonNumber.getD 0) ++ "E" ++
      pad (item.episodeNumber.getD 0) ++ titled " - " item ++ extension
  else dated (sanitise item.title) item.year ++ extension

def spelledDotted (item : NameableItem) (extension : String) : String :=
  if item.kind = .EPISODE then
    dots [some (seriesOrOwn item), item.seriesYear.map toString,
      some (tagOf (item.seasonNumber.getD 0) (item.episodeNumber.getD 0)), some item.title] ++
      extension
  else dots [some item.title, item.year.map toString] ++ extension

def spelledLocal (item : NameableItem) (context : NamingContext) (extension : String) :
    Option String := do
  let season ← item.seasonNumber
  let episode ← item.episodeNumber
  let (before, separator) ← framed context season episode
  return .ofList before ++ tagOf season episode ++ titled separator item ++ extension

/-- The text that the answer of a step is sanitised from. -/
def spelledBy (scheme : NamingScheme) (item : NameableItem) (context : NamingContext)
    (extension : String) : Option String :=
  match scheme with
  | .SOURCE => ((item.sourcePath.map basename).filter (· ≠ [])).map String.ofList
  | .LOCAL => spelledLocal item context extension
  | .STANDARD => some (spelledStandard item extension)
  | .DOTTED => some (spelledDotted item extension)

/-- The text that the name of a file is sanitised from. -/
def spelled (order : List NamingScheme) (item : NameableItem) (context : NamingContext)
    (extension : String) : String :=
  (order.findSome? (spelledBy · item context extension)).getD (spelledStandard item extension)

theorem fromLocal_eq (item : NameableItem) (context : NamingContext) (extension : String) :
    fromLocal item context extension =
      (spelledLocal item context extension).map sanitise := by
  unfold fromLocal spelledLocal framed sampleParts
  dsimp only [Option.bind_eq_bind]
  generalize (if context.samples ≠ [] then context.samples
    else context.siblingPath.toList).head? = offered
  cases item.seasonNumber with
  | none =>
    cases offered with
    | none => rfl
    | some sample => cases hsplit : splitAtTag (stripExtension (basename sample)) <;> simp [hsplit]
  | some season =>
    cases item.episodeNumber with
    | none =>
      cases offered with
      | none => rfl
      | some sample =>
        cases hsplit : splitAtTag (stripExtension (basename sample)) <;> simp [hsplit]
    | some episode =>
      cases offered with
      | none => rfl
      | some sample =>
        simp only [Option.bind_some]
        cases splitAtTag (stripExtension (basename sample)) with
        | none => rfl
        | some parts => rfl

theorem step_eq (scheme : NamingScheme) (item : NameableItem) (context : NamingContext)
    (extension : String) :
    step scheme item context extension =
      (spelledBy scheme item context extension).map sanitise := by
  cases scheme with
  | SOURCE =>
    simp only [step, spelledBy, fromSource, Option.map_map]
    rfl
  | LOCAL => exact fromLocal_eq item context extension
  | STANDARD =>
    simp only [step, spelledBy, standard, spelledStandard, titled, Option.map_some]
    split_ifs <;> rfl
  | DOTTED =>
    simp only [step, spelledBy, dotted, spelledDotted, tagOf, Option.map_some]
    split_ifs <;> rfl

/-- **The name of a file is a sanitised text.** -/
theorem fileName_eq (order : List NamingScheme) (item : NameableItem) (context : NamingContext)
    (extension : String) :
    fileName order item context extension = sanitise (spelled order item context extension) := by
  have hstandard : step .STANDARD item context extension =
      (spelledBy .STANDARD item context extension).map sanitise := step_eq ..
  have hfirst : order.findSome? (step · item context extension) =
      (order.findSome? (spelledBy · item context extension)).map sanitise := by
    rw [List.map_findSome?]
    exact congrArg (List.findSome? · order) (funext fun scheme => step_eq ..)
  rw [fileName, spelled, hfirst]
  cases order.findSome? (spelledBy · item context extension) with
  | none => exact Option.some.inj hstandard
  | some text => rfl

theorem proper_fileName (order : List NamingScheme) (item : NameableItem) (context : NamingContext)
    (extension : String) : Proper (fileName order item context extension) := by
  rw [fileName_eq]
  exact proper_sanitise _

theorem proper_template (item : NameableItem) : ∀ part ∈ templateDirectory item, Proper part := by
  unfold templateDirectory
  split
  · intro part hpart
    rcases List.mem_cons.mp hpart with rfl | hpart
    · exact proper_sanitise _
    · exact List.mem_singleton.mp hpart ▸ proper_sanitise _
  · intro part hpart
    exact List.mem_singleton.mp hpart ▸ proper_sanitise _
  · intro part hpart
    cases hpart

/-- Another name is in the same folders, taken apart at every separator. -/
theorem disambiguate_concat (toLowerCase : String → String) (parts : List String) {name : String}
    (h : Proper name) (marks : VersionMarks) (attempt : ℕ) :
    disambiguate toLowerCase (parts ++ [name]) marks attempt =
      parts.flatMap Placement.splitBackslashes ++ [renamed toLowerCase name marks attempt] := by
  have hcut : (parts ++ [name]).flatMap Placement.splitBackslashes =
      parts.flatMap Placement.splitBackslashes ++ [name] := by
    rw [List.flatMap_append, List.flatMap_singleton, Placement.splitBackslashes_eq h.whole]
  simp only [disambiguate, hcut, List.dropLast_concat, List.getLastD_concat]

theorem proper_renamed (toLowerCase : String → String) (name : String) (marks : VersionMarks)
    (attempt : ℕ) : Proper (renamed toLowerCase name marks attempt) := by
  unfold renamed
  exact proper_sanitise _

end MediaCenterSync.Naming
