import Mathlib.Algebra.Group.Prod
import Mathlib.Data.List.ReduceOption
import MediaCenterSync.Quality.Summary

/-!
# Summaries fold

A summary describes a list of files (`Describes`): for every key its variants add up to the files of
that key, and a summary that is not mixed has the label of the first of them.  Summarising files
does that (`describes_summarise`), and merging summaries does it for the files of all of them
(`describes_merge`).

So a merge says what a summary of all the files says, however the merges are nested.  In another
order it says the same but for the label: the first file of a key stands for it, and a codec or a
container with the separator in it has the key of other files that read otherwise (`folds_iff`).
-/

namespace MediaCenterSync.Quality

open OrderedMap (Alike balance alike_balance alike_of_perm)

variable {toLowerCase : String → String}

/-- The key of a variant, with its count and its bytes. -/
def shareOf (variant : QualityVariant) : String × ℕ × ℚ :=
  (variantKey variant, variant.count, variant.bytes)

/-- Two summaries that say the same, but for the order of the variants that tie. -/
structure SameSummary (summary summary' : QualitySummary) : Prop where
  fileCount : summary.fileCount = summary'.fileCount
  totalBytes : summary.totalBytes = summary'.totalBytes
  mixed : summary.mixed = summary'.mixed
  label : summary.label = summary'.label
  variants : (summary.variants.map shareOf).Perm (summary'.variants.map shareOf)
  /-- The counts and the bytes are listed in one order. -/
  ranks : summary.variants.map (fun variant => (shareOf variant).2) =
    summary'.variants.map (fun variant => (shareOf variant).2)

/-! ### A summary describes its files -/

structure Describes (toLowerCase : String → String) (summary : QualitySummary)
    (files : List EncodedFile) : Prop where
  alike : Alike (summary.variants.map shareOf) ((files.map (describe toLowerCase)).map shareOf)
  nodup : (summary.variants.map variantKey).Nodup
  sorted : summary.variants.Pairwise fun left right => comesFirst left right = true
  fileCount : summary.fileCount = files.length
  totalBytes : summary.totalBytes = (files.map bytesOf).sum
  mixed : summary.mixed = decide (1 < summary.variants.length)
  label : summary.label = if 1 < summary.variants.length then "mixed"
    else (summary.variants.head?.map (·.label)).getD "unknown"
  first : summary.variants.length ≤ 1 → summary.variants.head?.map (·.label) =
    (files.map (describe toLowerCase)).head?.map (·.label)
  adds : (summary.variants.map fun variant => (shareOf variant).2).sum =
    (summary.fileCount, summary.totalBytes)

/-! ### Grouping -/

theorem variantKey_addVariant {variant : QualityVariant} {existing : Option QualityVariant}
    (h : ∀ v ∈ existing, variantKey v = variantKey variant) :
    variantKey (addVariant variant existing) = variantKey variant := by
  cases existing with
  | none => rfl
  | some existing => exact h existing rfl

theorem shares_groupBy (variants : List QualityVariant) :
    (OrderedMap.groupBy variantKey addVariant variants).map (fun entry => shareOf entry.2) =
      balance (variants.map shareOf) := by
  have hkeys : ∀ entry ∈ OrderedMap.groupBy variantKey addVariant variants,
      variantKey entry.2 = entry.1 := by
    apply OrderedMap.forall_mem_groupBy (P := fun k v => variantKey v = k)
    intro item value h
    exact variantKey_addVariant h
  have hadd : ∀ (item : QualityVariant) (value : Option QualityVariant),
      (shareOf (addVariant item value)).2 =
        (value.map fun v => (shareOf v).2).getD 0 + (shareOf item).2 := by
    intro item value
    cases value with
    | none => exact (zero_add _).symm
    | some existing => rfl
  rw [balance, OrderedMap.groupBy_map (g := fun v => (shareOf v).2) (fun _ => rfl) hadd]
  exact List.map_congr_left fun entry hentry => Prod.ext (hkeys entry hentry) rfl

theorem groupBy_addFile (files : List EncodedFile) :
    OrderedMap.groupBy (fun file => variantKey (describe toLowerCase file)) (addFile toLowerCase)
        files =
      OrderedMap.groupBy variantKey addVariant (files.map (describe toLowerCase)) := by
  have hadd : ∀ (file : EncodedFile) (value : Option QualityVariant),
      addFile toLowerCase file value = addVariant (describe toLowerCase file) (value.map id) := by
    intro file value
    cases value <;> rfl
  rw [OrderedMap.groupBy_map (g := id) (fun _ => rfl) hadd]
  exact (List.map_id _).symm

/-! ### What is assembled -/

/-- More files, or as many of no fewer bytes. -/
def Outranks (rank rank' : ℕ × ℚ) : Prop :=
  rank'.1 < rank.1 ∨ rank.1 = rank'.1 ∧ rank'.2 ≤ rank.2

theorem outranks_antisymm {rank rank' : ℕ × ℚ} (h : Outranks rank rank')
    (h' : Outranks rank' rank) : rank = rank' := by
  rcases h with hlt | ⟨heq, hle⟩
  · rcases h' with hgt | ⟨heq, _⟩
    · exact absurd hgt (Nat.lt_asymm hlt)
    · exact absurd heq.symm (Nat.ne_of_gt hlt)
  · rcases h' with hgt | ⟨_, hge⟩
    · exact absurd heq (Nat.ne_of_lt hgt)
    · exact Prod.ext heq (le_antisymm hge hle)

theorem comesFirst_iff {left right : QualityVariant} :
    comesFirst left right = true ↔ Outranks (shareOf left).2 (shareOf right).2 := by
  simp [comesFirst, Outranks, shareOf]

theorem comesFirst_trans (a b c : QualityVariant) (hab : comesFirst a b = true)
    (hbc : comesFirst b c = true) : comesFirst a c = true := by
  rw [comesFirst_iff] at hab hbc ⊢
  rcases hab with hab | ⟨hab, hbytes⟩
  · rcases hbc with hbc | ⟨hbc, _⟩
    · exact .inl (hbc.trans hab)
    · exact .inl (hbc ▸ hab)
  · rcases hbc with hbc | ⟨hbc, hbytes'⟩
    · exact .inl (hab ▸ hbc)
    · exact .inr ⟨hab.trans hbc, hbytes'.trans hbytes⟩

theorem comesFirst_total (a b : QualityVariant) : (comesFirst a b || comesFirst b a) = true := by
  rw [Bool.or_eq_true, comesFirst_iff, comesFirst_iff]
  rcases lt_trichotomy a.count b.count with hlt | heq | hgt
  · exact .inr (.inl hlt)
  · exact (le_total b.bytes a.bytes).imp (fun h => .inr ⟨heq, h⟩) fun h => .inr ⟨heq.symm, h⟩
  · exact .inl (.inl hgt)

theorem Describes.ranked {summary : QualitySummary} {files : List EncodedFile}
    (h : Describes toLowerCase summary files) :
    (summary.variants.map fun variant => (shareOf variant).2).Pairwise Outranks :=
  List.pairwise_map.mpr (h.sorted.imp comesFirst_iff.mp)

theorem head?_label_groupBy (variants : List QualityVariant) :
    (OrderedMap.groupBy variantKey addVariant variants).head?.map (fun entry => entry.2.label) =
      variants.head?.map (·.label) := by
  cases variants with
  | nil => rfl
  | cons variant variants =>
    exact OrderedMap.head?_groupBy_cons (g := QualityVariant.label) (fun _ _ => rfl) variantKey variant
      variants

theorem eq_of_length_le_one {α : Type*} {l : List α} (h : l.length ≤ 1) {a b : α} (ha : a ∈ l)
    (hb : b ∈ l) : a = b := by
  obtain ⟨i, hi, rfl⟩ := List.mem_iff_getElem.mp ha
  obtain ⟨j, hj, rfl⟩ := List.mem_iff_getElem.mp hb
  have hij : i = j := by omega
  subst hij
  rfl

theorem mergeSort_of_length_le_one {α : Type*} {l : List α} {le : α → α → Bool}
    (h : l.length ≤ 1) : l.mergeSort le = l := by
  match l, h with
  | [], _ => exact List.mergeSort_nil
  | [a], _ => exact List.mergeSort_singleton a

theorem describes_assemble {variants : List QualityVariant} {files : List EncodedFile}
    (halike : Alike (variants.map shareOf) ((files.map (describe toLowerCase)).map shareOf))
    (hfirst : (∀ v ∈ variants, ∀ w ∈ variants, variantKey v = variantKey w) →
      variants.head?.map (·.label) = (files.map (describe toLowerCase)).head?.map (·.label))
    (hadds : (variants.map fun variant => (shareOf variant).2).sum =
      (files.length, (files.map bytesOf).sum)) :
    Describes toLowerCase (assemble (OrderedMap.groupBy variantKey addVariant variants)
      files.length (files.map bytesOf).sum) files := by
  set entries := OrderedMap.groupBy variantKey addVariant variants with hentries
  -- What the merge adds up is, key by key, what the shares of the variants add up to.
  have hshares : entries.map (fun entry => shareOf entry.2) = balance (variants.map shareOf) :=
    shares_groupBy variants
  have hperm : ((entries.map (·.2)).mergeSort comesFirst).Perm (entries.map (·.2)) :=
    List.mergeSort_perm _ _
  have hsharesPerm : (((entries.map (·.2)).mergeSort comesFirst).map shareOf).Perm
      (balance (variants.map shareOf)) := by
    have hmapped := hperm.map shareOf
    rwa [List.map_map, Function.comp_def, hshares] at hmapped
  have hkeys : ((balance (variants.map shareOf)).map (·.1)).Nodup :=
    OrderedMap.nodup_keys_groupBy _ _ _
  constructor
  case alike => exact (alike_of_perm hsharesPerm).trans ((alike_balance _).trans halike)
  case nodup =>
    have hnodup := (hsharesPerm.map (·.1)).nodup_iff.mpr hkeys
    rwa [List.map_map] at hnodup
  case sorted => exact List.pairwise_mergeSort comesFirst_trans comesFirst_total _
  case fileCount => rfl
  case totalBytes => rfl
  case mixed => rfl
  case label => rfl
  case first =>
    intro hlength
    change ((entries.map (·.2)).mergeSort comesFirst).length ≤ 1 at hlength
    -- One line: the sort has nothing to do, and all the variants had one key.
    have hone : ((entries.map (·.2)).mergeSort comesFirst) = entries.map (·.2) :=
      mergeSort_of_length_le_one (hperm.length_eq ▸ hlength)
    have hkeyed : ∀ v ∈ variants,
        variantKey v ∈ (((entries.map (·.2)).mergeSort comesFirst).map shareOf).map (·.1) := by
      intro v hv
      rw [((alike_of_perm hsharesPerm).trans (alike_balance _)).keys]
      exact List.mem_map_of_mem (List.mem_map_of_mem hv)
    refine Eq.trans ?_ (hfirst fun v hv w hw =>
      eq_of_length_le_one (by simpa using hlength) (hkeyed v hv) (hkeyed w hw))
    change ((entries.map (·.2)).mergeSort comesFirst).head?.map (·.label) = _
    rw [hone, List.head?_map, Option.map_map]
    exact head?_label_groupBy variants
  case adds =>
    have hsum := (hsharesPerm.map (·.2)).sum_eq
    rw [OrderedMap.sum_balance, List.map_map, List.map_map] at hsum
    exact hsum.trans hadds

/-! ### Summarising and merging -/

theorem sum_describe (files : List EncodedFile) :
    ((files.map (describe toLowerCase)).map fun variant => (shareOf variant).2).sum =
      (files.length, (files.map bytesOf).sum) := by
  induction files with
  | nil => rfl
  | cons file files ih =>
    rw [List.map_cons, List.map_cons, List.sum_cons, ih, List.map_cons, List.sum_cons,
      List.length_cons, add_comm files.length]
    rfl

theorem describes_summarise (files : List (Option EncodedFile)) :
    Describes toLowerCase (summarise toLowerCase files) files.reduceOption := by
  unfold summarise
  dsimp only
  rw [groupBy_addFile]
  exact describes_assemble (.refl _) (fun _ => rfl) (sum_describe _)

section

variable {summaries : List QualitySummary} {pieces : List (List EncodedFile)}

theorem alike_flatMap (h : List.Forall₂ (Describes toLowerCase) summaries pieces) :
    Alike ((summaries.flatMap (·.variants)).map shareOf)
      ((pieces.flatten.map (describe toLowerCase)).map shareOf) := by
  induction h with
  | nil => exact .refl []
  | cons hsummary _ ih =>
    rw [List.flatMap_cons, List.flatten_cons, List.map_append, List.map_append, List.map_append]
    exact hsummary.alike.append ih

theorem sum_flatMap (h : List.Forall₂ (Describes toLowerCase) summaries pieces) :
    (summaries.map (·.fileCount)).sum = pieces.flatten.length ∧
      (summaries.map (·.totalBytes)).sum = (pieces.flatten.map bytesOf).sum ∧
      ((summaries.flatMap (·.variants)).map fun variant => (shareOf variant).2).sum =
        (pieces.flatten.length, (pieces.flatten.map bytesOf).sum) := by
  induction h with
  | nil => exact ⟨rfl, rfl, rfl⟩
  | cons hsummary _ ih =>
    obtain ⟨hcount, hbytes, hadds⟩ := ih
    rw [List.flatMap_cons, List.flatten_cons, List.map_append, List.map_append, List.sum_append,
      List.sum_append, List.length_append, hadds, hsummary.adds, List.map_cons, List.map_cons,
      List.sum_cons, List.sum_cons, hcount, hbytes, hsummary.fileCount, hsummary.totalBytes]
    exact ⟨rfl, rfl, rfl⟩

theorem Describes.length_le_one {summary : QualitySummary} {files : List EncodedFile}
    (h : Describes toLowerCase summary files)
    (hone : ∀ v ∈ summary.variants, ∀ w ∈ summary.variants, variantKey v = variantKey w) :
    summary.variants.length ≤ 1 := by
  have hnodup := h.nodup
  match hvariants : summary.variants with
  | [] => exact Nat.zero_le 1
  | [_] => exact Nat.le_refl 1
  | v :: w :: _ =>
    rw [hvariants] at hnodup hone
    have hkey : variantKey v = variantKey w := hone v (by simp) w (by simp)
    simp [hkey] at hnodup

/-- Where all the variants have one key, the first of them has the label of the first file. -/
theorem head?_label_flatMap (h : List.Forall₂ (Describes toLowerCase) summaries pieces)
    (hone : ∀ v ∈ summaries.flatMap (·.variants), ∀ w ∈ summaries.flatMap (·.variants),
      variantKey v = variantKey w) :
    (summaries.flatMap (·.variants)).head?.map (·.label) =
      (pieces.flatten.map (describe toLowerCase)).head?.map (·.label) := by
  induction h with
  | nil => rfl
  | @cons summary files summaries pieces hsummary _ ih =>
    rw [List.flatMap_cons] at hone
    have hfirst := hsummary.first (hsummary.length_le_one fun v hv w hw =>
      hone v (List.mem_append_left _ hv) w (List.mem_append_left _ hw))
    have hrest := ih fun v hv w hw =>
      hone v (List.mem_append_right _ hv) w (List.mem_append_right _ hw)
    rw [List.flatMap_cons, List.flatten_cons, List.map_append, List.head?_append,
      List.head?_append, Option.map_or, Option.map_or, hfirst, hrest]

theorem describes_merge {summaries : List (Option QualitySummary)}
    (h : List.Forall₂ (Describes toLowerCase) summaries.reduceOption pieces) :
    Describes toLowerCase (merge summaries) pieces.flatten := by
  obtain ⟨hcount, hbytes, hadds⟩ := sum_flatMap h
  unfold merge
  dsimp only
  rw [hcount, hbytes]
  exact describes_assemble (alike_flatMap h) (head?_label_flatMap h) hadds

end

/-! ### What says the same -/

/-- Summaries of the same files say the same, where their first files have one label. -/
theorem Describes.same {summary summary' : QualitySummary} {files files' : List EncodedFile}
    (h : Describes toLowerCase summary files) (h' : Describes toLowerCase summary' files')
    (hperm : files.Perm files')
    (hlabel : (∀ f ∈ files, ∀ g ∈ files,
        variantKey (describe toLowerCase f) = variantKey (describe toLowerCase g)) →
      (files.map (describe toLowerCase)).head?.map (·.label) =
        (files'.map (describe toLowerCase)).head?.map (·.label)) :
    SameSummary summary summary' := by
  have hfiles : Alike ((files.map (describe toLowerCase)).map shareOf)
      ((files'.map (describe toLowerCase)).map shareOf) :=
    alike_of_perm ((hperm.map _).map _)
  have hvariants : (summary.variants.map shareOf).Perm (summary'.variants.map shareOf) := by
    apply ((h.alike.trans hfiles).trans h'.alike.symm).perm
    · rw [List.map_map]
      exact h.nodup
    · rw [List.map_map]
      exact h'.nodup
  have hlength : summary.variants.length = summary'.variants.length := by
    simpa using hvariants.length_eq
  constructor
  case fileCount => rw [h.fileCount, h'.fileCount, hperm.length_eq]
  case totalBytes => rw [h.totalBytes, h'.totalBytes, (hperm.map bytesOf).sum_eq]
  case mixed => rw [h.mixed, h'.mixed, hlength]
  case label =>
    rw [h.label, h'.label, hlength]
    split_ifs with hmany
    · rfl
    · have hle : summary.variants.length ≤ 1 := by omega
      have hkeyed : ∀ f ∈ files, variantKey (describe toLowerCase f) ∈
          (summary.variants.map shareOf).map (·.1) := by
        intro f hf
        rw [h.alike.keys]
        exact List.mem_map_of_mem (List.mem_map_of_mem (List.mem_map_of_mem hf))
      have hone := hlabel fun f hf g hg =>
        eq_of_length_le_one (by simpa using hle) (hkeyed f hf) (hkeyed g hg)
      rw [h.first hle, h'.first (hlength ▸ hle), hone]
  case variants => exact hvariants
  case ranks =>
    have hranks := hvariants.map (·.2)
    rw [List.map_map, List.map_map] at hranks
    exact hranks.eq_of_pairwise (fun _ _ _ _ => outranks_antisymm) h.ranked h'.ranked

/-! ### Summaries of parts -/

/-- Summaries that were made of parts, one after another, by merges of any nesting. -/
inductive Folded (toLowerCase : String → String) :
    List (List (Option EncodedFile)) → List (Option QualitySummary) → Prop
  | nil : Folded toLowerCase [] []
  | skip {parts summaries} (h : Folded toLowerCase parts summaries) :
    Folded toLowerCase parts (none :: summaries)
  | summarise {parts summaries} (files : List (Option EncodedFile))
    (h : Folded toLowerCase parts summaries) :
    Folded toLowerCase (files :: parts) (some (summarise toLowerCase files) :: summaries)
  | merge {group merged parts summaries} (hgroup : Folded toLowerCase group merged)
    (h : Folded toLowerCase parts summaries) :
    Folded toLowerCase (group ++ parts) (some (merge merged) :: summaries)

def summaries (toLowerCase : String → String) (parts : List (List (Option EncodedFile))) :
    List (Option QualitySummary) :=
  parts.map fun files => some (summarise toLowerCase files)

structure Folds (toLowerCase : String → String) (parts : List (List (Option EncodedFile))) :
    Prop where
  concat : SameSummary (merge (summaries toLowerCase parts)) (summarise toLowerCase parts.flatten)
  commutative {made made' : List (Option QualitySummary)} (h : Folded toLowerCase parts made)
    (hperm : made'.Perm made) : SameSummary (merge made') (merge made)
  associative {summary : QualitySummary} (h : Folded toLowerCase parts [some summary]) :
    SameSummary summary (merge (summaries toLowerCase parts))
  adds {summary : QualitySummary} (h : Folded toLowerCase parts [some summary]) :
    (summary.variants.map (·.count)).sum = summary.fileCount ∧
      (summary.variants.map (·.bytes)).sum = summary.totalBytes

def Opens (parts : List (List (Option EncodedFile))) (file : EncodedFile) : Prop :=
  ∃ part ∈ parts, part.reduceOption.head? = some file

/-- Where all the files have one key, the first files of the parts have one label. -/
def OneLabel (toLowerCase : String → String) (parts : List (List (Option EncodedFile))) : Prop :=
  (∀ f ∈ parts.flatten.reduceOption, ∀ g ∈ parts.flatten.reduceOption,
      variantKey (describe toLowerCase f) = variantKey (describe toLowerCase g)) →
    ∀ f g, Opens parts f → Opens parts g →
      (describe toLowerCase f).label = (describe toLowerCase g).label

section

variable {parts group : List (List (Option EncodedFile))} {made : List (Option QualitySummary)}
  {file : EncodedFile}

theorem folded_summaries (parts : List (List (Option EncodedFile))) :
    Folded toLowerCase parts (summaries toLowerCase parts) := by
  induction parts with
  | nil => exact .nil
  | cons files parts ih => exact .summarise files ih

theorem Opens.mono (h : Opens group file) (hsub : ∀ part ∈ group, part ∈ parts) :
    Opens parts file := by
  obtain ⟨part, hpart, hhead⟩ := h
  exact ⟨part, hsub part hpart, hhead⟩

/-- The first of many lists is the first of one of them. -/
theorem exists_head?_of_flatten {pieces : List (List EncodedFile)}
    (h : pieces.flatten.head? = some file) : ∃ piece ∈ pieces, piece.head? = some file := by
  rw [List.head?_flatten] at h
  exact List.exists_of_findSome?_eq_some h

theorem Folded.describes (h : Folded toLowerCase parts made) :
    ∃ pieces, List.Forall₂ (Describes toLowerCase) made.reduceOption pieces ∧
      pieces.flatten = parts.flatten.reduceOption ∧
      ∀ piece ∈ pieces, ∀ file, piece.head? = some file → Opens parts file := by
  induction h with
  | nil => exact ⟨[], .nil, rfl, fun _ hpiece => absurd hpiece List.not_mem_nil⟩
  | skip _ ih => exact ih
  | @summarise parts made files _ ih =>
    obtain ⟨pieces, hpieces, hflatten, hopens⟩ := ih
    refine ⟨files.reduceOption :: pieces, .cons (describes_summarise files) hpieces, ?_, ?_⟩
    · rw [List.flatten_cons, List.flatten_cons, List.reduceOption_append, hflatten]
    · intro piece hpiece file hhead
      rcases List.mem_cons.mp hpiece with rfl | hpiece
      · exact ⟨files, List.mem_cons_self, hhead⟩
      · exact (hopens piece hpiece file hhead).mono fun _ => List.mem_cons_of_mem _
  | @merge group merged parts made _ _ ihgroup ih =>
    obtain ⟨groupPieces, hgroupPieces, hgroupFlatten, hgroupOpens⟩ := ihgroup
    obtain ⟨pieces, hpieces, hflatten, hopens⟩ := ih
    refine ⟨groupPieces.flatten :: pieces, .cons (describes_merge hgroupPieces) hpieces, ?_, ?_⟩
    · rw [List.flatten_cons, List.flatten_append, List.reduceOption_append, hflatten,
        hgroupFlatten]
    · intro piece hpiece file hhead
      rcases List.mem_cons.mp hpiece with rfl | hpiece
      · obtain ⟨piece, hpiece, hhead⟩ := exists_head?_of_flatten hhead
        exact (hgroupOpens piece hpiece file hhead).mono fun _ => List.mem_append_left _
      · exact (hopens piece hpiece file hhead).mono fun _ => List.mem_append_right _

theorem Folded.describes_single {summary : QualitySummary}
    (h : Folded toLowerCase parts [some summary]) :
    Describes toLowerCase summary parts.flatten.reduceOption := by
  obtain ⟨pieces, hpieces, hflatten, _⟩ := h.describes
  obtain ⟨piece, rest, hpiece, hrest, rfl⟩ := List.forall₂_cons_left_iff.mp hpieces
  obtain rfl := List.forall₂_nil_left_iff.mp hrest
  rw [← hflatten, List.flatten_singleton]
  exact hpiece

theorem describes_merge_summaries (parts : List (List (Option EncodedFile))) :
    Describes toLowerCase (merge (summaries toLowerCase parts)) parts.flatten.reduceOption := by
  have hmerged : Folded toLowerCase parts [some (merge (summaries toLowerCase parts))] := by
    simpa using Folded.merge (folded_summaries parts) .nil
  exact hmerged.describes_single

/-! ### What holds of every merge -/

theorem Describes.label_of_one {summary : QualitySummary} {files : List EncodedFile}
    (h : Describes toLowerCase summary files)
    (hone : ∀ f ∈ files, ∀ g ∈ files,
      variantKey (describe toLowerCase f) = variantKey (describe toLowerCase g))
    (hhead : files.head? = some file) : summary.label = (describe toLowerCase file).label := by
  have hkeyed : ∀ v ∈ summary.variants, ∃ f ∈ files,
      variantKey (describe toLowerCase f) = variantKey v := by
    intro v hv
    have hmem : variantKey v ∈ (summary.variants.map shareOf).map (·.1) :=
      List.mem_map_of_mem (List.mem_map_of_mem hv)
    rw [h.alike.keys, List.map_map, List.map_map] at hmem
    exact List.mem_map.mp hmem
  have hlength : summary.variants.length ≤ 1 := h.length_le_one fun v hv w hw => by
    obtain ⟨f, hf, hfkey⟩ := hkeyed v hv
    obtain ⟨g, hg, hgkey⟩ := hkeyed w hw
    rw [← hfkey, ← hgkey, hone f hf g hg]
  rw [h.label, if_neg (Nat.not_lt.mpr hlength), h.first hlength, List.head?_map, hhead]
  rfl

/-- In another order the first file has the same label, where all first files of the parts do. -/
theorem head?_label_of_perm {pieces pieces' : List (List EncodedFile)}
    (hperm : pieces'.Perm pieces)
    (hopens : ∀ piece ∈ pieces, ∀ file, piece.head? = some file → Opens parts file)
    (hlabel : ∀ f g, Opens parts f → Opens parts g →
      (describe toLowerCase f).label = (describe toLowerCase g).label) :
    (pieces'.flatten.map (describe toLowerCase)).head?.map (·.label) =
      (pieces.flatten.map (describe toLowerCase)).head?.map (·.label) := by
  rw [List.head?_map, List.head?_map]
  rcases hhead : pieces.flatten.head? with _ | f
  · have hnil : pieces'.flatten.Perm [] := List.head?_eq_none_iff.mp hhead ▸ hperm.flatten
    rw [hnil.eq_nil]
    rfl
  · rcases hhead' : pieces'.flatten.head? with _ | g
    · have hnil : pieces.flatten.Perm [] := List.head?_eq_none_iff.mp hhead' ▸ hperm.flatten.symm
      rw [hnil.eq_nil] at hhead
      exact absurd hhead nofun
    · obtain ⟨piece, hpiece, hf⟩ := exists_head?_of_flatten hhead
      obtain ⟨piece', hpiece', hg⟩ := exists_head?_of_flatten hhead'
      have hfOpens := hopens piece hpiece f hf
      have hgOpens := hopens piece' (hperm.mem_iff.mp hpiece') g hg
      exact congrArg some (hlabel g f hgOpens hfOpens)

theorem OneLabel.commutative (hlabel : OneLabel toLowerCase parts)
    {made' : List (Option QualitySummary)} (h : Folded toLowerCase parts made)
    (hperm : made'.Perm made) : SameSummary (merge made') (merge made) := by
  obtain ⟨pieces, hpieces, hflatten, hopens⟩ := h.describes
  have hpresent : made'.reduceOption.Perm made.reduceOption := hperm.filterMap _
  obtain ⟨pieces', hpieces', hpiecesPerm⟩ := List.perm_comp_forall₂ hpresent hpieces
  refine (describes_merge hpieces').same (describes_merge hpieces) hpiecesPerm.flatten ?_
  intro hone
  refine head?_label_of_perm hpiecesPerm hopens (hlabel fun f hf g hg => ?_)
  rw [← hflatten, ← hpiecesPerm.flatten.mem_iff] at hf hg
  exact hone f hf g hg

theorem Describes.sums {summary : QualitySummary} {files : List EncodedFile}
    (h : Describes toLowerCase summary files) :
    (summary.variants.map (·.count)).sum = summary.fileCount ∧
      (summary.variants.map (·.bytes)).sum = summary.totalBytes := by
  have hsums : ∀ variants : List QualityVariant,
      (variants.map fun variant => (shareOf variant).2).sum =
        ((variants.map (·.count)).sum, (variants.map (·.bytes)).sum) := by
    intro variants
    induction variants with
    | nil => rfl
    | cons variant variants ih =>
      rw [List.map_cons, List.sum_cons, ih, List.map_cons, List.sum_cons, List.map_cons,
        List.sum_cons]
      rfl
  have hadds := h.adds
  rw [hsums, Prod.mk.injEq] at hadds
  exact hadds

theorem exists_merge_of_opens (hopens : Opens parts file)
    (hone : ∀ f ∈ parts.flatten.reduceOption, ∀ g ∈ parts.flatten.reduceOption,
      variantKey (describe toLowerCase f) = variantKey (describe toLowerCase g)) :
    ∃ made, made.Perm (summaries toLowerCase parts) ∧
      (merge made).label = (describe toLowerCase file).label := by
  obtain ⟨part, hpart, hhead⟩ := hopens
  obtain ⟨before, after, rfl⟩ := List.append_of_mem hpart
  have hperm : (part :: (before ++ after)).Perm (before ++ part :: after) :=
    List.perm_middle.symm
  refine ⟨summaries toLowerCase (part :: (before ++ after)), hperm.map _, ?_⟩
  refine (describes_merge_summaries _).label_of_one (fun f hf g hg => ?_) ?_
  · have hfiles : ((part :: (before ++ after)).flatten.reduceOption).Perm
        (before ++ part :: after).flatten.reduceOption := hperm.flatten.filterMap _
    exact hone f (hfiles.mem_iff.mp hf) g (hfiles.mem_iff.mp hg)
  · rw [List.flatten_cons, List.reduceOption_append, List.head?_append, hhead]
    rfl

theorem Folds.oneLabel (h : Folds toLowerCase parts) : OneLabel toLowerCase parts := by
  intro hone f g hf hg
  obtain ⟨made, hmade, hfLabel⟩ := exists_merge_of_opens hf hone
  obtain ⟨made', hmade', hgLabel⟩ := exists_merge_of_opens hg hone
  have hsame := h.commutative (folded_summaries parts) hmade
  have hsame' := h.commutative (folded_summaries parts) hmade'
  rw [← hfLabel, ← hgLabel, hsame.label, hsame'.label]

/-- **Summaries fold**, exactly when files of one key that lead their parts have one label. -/
theorem folds_iff : Folds toLowerCase parts ↔ OneLabel toLowerCase parts := by
  refine ⟨Folds.oneLabel, fun hlabel => ?_⟩
  have hmerge : Describes toLowerCase (merge (summaries toLowerCase parts)) _ :=
    describes_merge_summaries parts
  constructor
  case concat =>
    exact hmerge.same (describes_summarise parts.flatten) (.refl _) fun _ => rfl
  case commutative => exact hlabel.commutative
  case associative =>
    intro summary h
    exact h.describes_single.same hmerge (.refl _) fun _ => rfl
  case adds => exact fun h => h.describes_single.sums

end

/-- A file that says no more than a codec, a height and a container. -/
def encoded (videoCodec : String) (height : Option ℚ) (container : String) : EncodedFile where
  size := some 1
  videoCodec := some videoCodec
  width := none
  height := height
  bitrate := none
  path := "a"
  audioCodec := none
  container := some container

/-- The separator in a codec stands where another file has its resolution. -/
def clashing : List (List (Option EncodedFile)) :=
  [[some (encoded "h|1080p" none "x")], [some (encoded "h" (some 1080) "|x")]]

theorem not_folds_clashing : ¬ Folds String.toLower clashing := by
  intro h
  have hlabel := h.oneLabel (by decide +kernel) (encoded "h|1080p" none "x")
    (encoded "h" (some 1080) "|x") ⟨_, List.mem_cons_self, rfl⟩
    ⟨_, List.mem_cons_of_mem _ List.mem_cons_self, rfl⟩
  exact absurd hlabel (by decide +kernel)

end MediaCenterSync.Quality
