import Mathlib.Data.List.Pairwise
import Mathlib.Data.List.Sort

/-!
# Sorting by a comparator

A comparator answers a number that is negative, zero or positive as its first argument comes before
the other, ties with it or comes after it.  Comparators are often chains: the first difference that
is not zero decides (`orElse`).  `sort` is stable: it keeps the order of what ties
(`filter_sort`).  What it puts first is told without sorting (`head?_sort_iff`), also where another
sort went before (`head?_sort_sort_iff`).
-/

namespace Comparator

variable {α β : Type*}

/-- `first || rest`, of numbers. -/
def orElse (first rest : ℤ) : ℤ := if first = 0 then rest else first

/-- The comparator is one of a total preorder. -/
structure Lawful (compare : α → α → ℤ) : Prop where
  total : ∀ a b, compare a b ≤ 0 ∨ compare b a ≤ 0
  trans : ∀ a b c, compare a b ≤ 0 → compare b c ≤ 0 → compare a c ≤ 0

theorem orElse_le_iff {first rest : ℤ} :
    orElse first rest ≤ 0 ↔ first < 0 ∨ first = 0 ∧ rest ≤ 0 := by
  unfold orElse
  split_ifs with h <;> omega

theorem lawful_key_desc (key : α → ℤ) : Lawful fun a b => key b - key a where
  total a b := by omega
  trans a b c hab hbc := by omega

theorem Lawful.orElse_key (key : α → ℤ) {rest : α → α → ℤ} (h : Lawful rest) :
    Lawful fun a b => orElse (key a - key b) (rest a b) where
  total a b := by
    have hrest := h.total a b
    rw [orElse_le_iff, orElse_le_iff]
    omega
  trans a b c hab hbc := by
    have hrest := h.trans a b c
    rw [orElse_le_iff] at hab hbc ⊢
    omega

theorem Lawful.orElse_key_desc (key : α → ℤ) {rest : α → α → ℤ} (h : Lawful rest) :
    Lawful fun a b => orElse (key b - key a) (rest a b) := by
  have hneg : ∀ a b, -key a - -key b = key b - key a := fun a b => by omega
  simpa only [hneg] using h.orElse_key fun a => -key a

theorem Lawful.comap {compare : β → β → ℤ} (h : Lawful compare) (f : α → β) :
    Lawful fun a b => compare (f a) (f b) where
  total a b := h.total (f a) (f b)
  trans a b c := h.trans (f a) (f b) (f c)

/-- `sort(compare)` -/
def sort (compare : α → α → ℤ) (l : List α) : List α :=
  l.mergeSort fun a b => decide (compare a b ≤ 0)

variable {compare : α → α → ℤ} {l : List α}

theorem sort_perm (compare : α → α → ℤ) (l : List α) : (sort compare l).Perm l :=
  l.mergeSort_perm _

theorem sort_pair (compare : α → α → ℤ) (a b : α) :
    sort compare [a, b] = if compare a b ≤ 0 then [a, b] else [b, a] := by
  simp [sort, List.mergeSort, List.MergeSort.Internal.splitInTwo, List.merge]

@[simp] theorem mem_sort {a : α} : a ∈ sort compare l ↔ a ∈ l := (sort_perm compare l).mem_iff

theorem pairwise_sort (h : Lawful compare) (l : List α) :
    (sort compare l).Pairwise fun a b => compare a b ≤ 0 := by
  have hsorted : (sort compare l).Pairwise fun a b => decide (compare a b ≤ 0) = true :=
    List.pairwise_mergeSort
      (fun a b c hab hbc =>
        decide_eq_true (h.trans a b c (of_decide_eq_true hab) (of_decide_eq_true hbc)))
      (fun a b => by simpa using h.total a b) l
  exact hsorted.imp of_decide_eq_true

/-- **Sorting is stable.**  What ties stays in the order it came in. -/
theorem filter_sort (h : Lawful compare) {p : α → Bool}
    (hties : ∀ a b, p a → p b → compare a b ≤ 0) : (sort compare l).filter p = l.filter p := by
  have hpairwise : (l.filter p).Pairwise fun a b => decide (compare a b ≤ 0) = true := by
    refine List.pairwise_of_forall_mem_list fun a ha b hb => decide_eq_true ?_
    exact hties a b (List.mem_filter.mp ha).2 (List.mem_filter.mp hb).2
  have hsub : (l.filter p).Sublist (sort compare l) :=
    List.sublist_mergeSort
      (fun a b c hab hbc =>
        decide_eq_true (h.trans a b c (of_decide_eq_true hab) (of_decide_eq_true hbc)))
      (fun a b => by simpa using h.total a b) hpairwise List.filter_sublist
  have hfilter := hsub.filter p
  simp only [List.filter_filter, Bool.and_self] at hfilter
  have hlength : ((sort compare l).filter p).length = (l.filter p).length :=
    ((sort_perm compare l).filter p).length_eq
  exact (hfilter.eq_of_length hlength.symm).symm

/-! ### What comes first -/

/-- An element stands where a stable sort puts it first: what comes before it is not as good, and
nothing after it is better. -/
def First (compare : α → α → ℤ) (l : List α) (a : α) : Prop :=
  ∃ before after, l = before ++ a :: after ∧ (∀ b ∈ before, ¬ compare b a ≤ 0) ∧
    ∀ b ∈ after, compare a b ≤ 0

theorem First.mem {a : α} (h : First compare l a) : a ∈ l := by
  obtain ⟨before, after, rfl, -⟩ := h
  simp

theorem First.le (hlawful : Lawful compare) {a : α} (h : First compare l a) :
    ∀ b ∈ l, compare a b ≤ 0 := by
  obtain ⟨before, after, rfl, hbefore, hafter⟩ := h
  intro b hb
  rcases List.mem_append.mp hb with hb | hb
  · exact (hlawful.total b a).resolve_left (hbefore b hb)
  · rcases List.mem_cons.mp hb with rfl | hb
    · exact (hlawful.total b b).elim id id
    · exact hafter b hb

/-- The first of those that are as good as an element that nothing is better than. -/
theorem first_of_head?_filter {p : α → Bool} {a : α} (hle : ∀ b ∈ l, compare a b ≤ 0)
    (hp : ∀ b ∈ l, p b ↔ compare b a ≤ 0) (h : (l.filter p).head? = some a) :
    First compare l a := by
  obtain ⟨before, after, hsplit, hbefore⟩ : ∃ before after, l = before ++ a :: after ∧
      ∀ b ∈ before, ¬ p b := by
    rw [List.head?_filter] at h
    obtain ⟨-, before, after, rfl, hbefore⟩ := List.find?_eq_some_iff_append.mp h
    exact ⟨before, after, rfl, fun b hb => by simpa using hbefore b hb⟩
  refine ⟨before, after, hsplit, fun b hb hcompare => ?_, fun b hb => hle b (by simp [hsplit, hb])⟩
  exact hbefore b hb ((hp b (by simp [hsplit, hb])).mpr hcompare)

theorem head?_filter_of_first {p : α → Bool} {a : α} (ha : p a)
    (hp : ∀ b ∈ l, p b → compare b a ≤ 0) (h : First compare l a) :
    (l.filter p).head? = some a := by
  obtain ⟨before, after, rfl, hbefore, -⟩ := h
  have hnone : before.filter p = [] :=
    List.filter_eq_nil_iff.mpr fun b hb hb' => hbefore b hb (hp b (by simp [hb]) hb')
  rw [List.filter_append, hnone, List.nil_append, List.filter_cons_of_pos ha, List.head?_cons]

/-- **What a sort puts first.** -/
theorem head?_sort_iff (h : Lawful compare) {a : α} :
    (sort compare l).head? = some a ↔ First compare l a := by
  -- those that tie with an element keep their order
  have hstable (a : α) :
      (sort compare l).filter (fun b => compare b a ≤ 0 ∧ compare a b ≤ 0) =
        l.filter fun b => compare b a ≤ 0 ∧ compare a b ≤ 0 := by
    refine filter_sort h fun b c hb hc => ?_
    simp only [decide_eq_true_eq] at hb hc
    exact h.trans b a c hb.1 hc.2
  constructor
  · intro hhead
    obtain ⟨rest, hsorted⟩ := List.head?_eq_some_iff.mp hhead
    have hpairs := pairwise_sort h l
    rw [hsorted, List.pairwise_cons] at hpairs
    have hle : ∀ b ∈ l, compare a b ≤ 0 := by
      intro b hb
      have hb : b ∈ sort compare l := mem_sort.mpr hb
      rw [hsorted] at hb
      rcases List.mem_cons.mp hb with rfl | hb
      · exact (h.total b b).elim id id
      · exact hpairs.1 b hb
    have hself : compare a a ≤ 0 := (h.total a a).elim id id
    refine first_of_head?_filter hle (p := fun b => compare b a ≤ 0 ∧ compare a b ≤ 0)
      (fun b hb => by simp [hle b hb]) ?_
    rw [← hstable a, hsorted, List.filter_cons_of_pos (by simp [hself]), List.head?_cons]
  · intro hfirst
    have hle := hfirst.le h
    cases hhead : (sort compare l).head? with
    | none =>
      rw [List.head?_eq_none_iff] at hhead
      have hmem : a ∈ sort compare l := mem_sort.mpr hfirst.mem
      rw [hhead] at hmem
      exact absurd hmem (by simp)
    | some b =>
      obtain ⟨rest, hsorted⟩ := List.head?_eq_some_iff.mp hhead
      have hpairs := pairwise_sort h l
      rw [hsorted, List.pairwise_cons] at hpairs
      have hb : b ∈ l := mem_sort.mp (hsorted ▸ List.mem_cons_self)
      have hba : compare b a ≤ 0 := by
        have ha : a ∈ sort compare l := mem_sort.mpr hfirst.mem
        rw [hsorted] at ha
        rcases List.mem_cons.mp ha with rfl | ha
        · exact (h.total a a).elim id id
        · exact hpairs.1 a ha
      have hself : compare a a ≤ 0 := (h.total a a).elim id id
      have hties := hstable a
      rw [hsorted, List.filter_cons_of_pos (by simp [hba, hle b hb])] at hties
      have hheads := head?_filter_of_first (p := fun b => compare b a ≤ 0 ∧ compare a b ≤ 0)
        (by simp [hself]) (fun b _ hb => by simp at hb; exact hb.1) hfirst
      rw [← hties, List.head?_cons] at hheads
      exact hheads

theorem First.unique (hlawful : Lawful compare) {a b : α} (ha : First compare l a)
    (hb : First compare l b) : a = b :=
  Option.some.inj
    (((head?_sort_iff hlawful).mpr ha).symm.trans ((head?_sort_iff hlawful).mpr hb))

theorem Lawful.orElse {f g : α → α → ℤ} (hf : Lawful f) (hg : Lawful g)
    (hswap : ∀ a b, f b a = -f a b) : Lawful fun a b => Comparator.orElse (f a b) (g a b) where
  total a b := by
    have hrest := hg.total a b
    have hback := hswap a b
    rw [orElse_le_iff, orElse_le_iff]
    omega
  trans a b c hab hbc := by
    rw [orElse_le_iff] at hab hbc ⊢
    have hforth := hf.trans a b c
    have hrest := hg.trans a b c
    -- where the ends tie, neither step is strict
    have hcab := hf.trans c a b
    have hbca := hf.trans b c a
    have hba := hswap a b
    have hcb := hswap b c
    have hca := hswap a c
    omega

/-- **What a sort puts first of what another has sorted.** -/
theorem head?_sort_sort_iff {f g : α → α → ℤ} (hf : Lawful f) (hg : Lawful g)
    (hswap : ∀ a b, f b a = -f a b) {a : α} :
    (sort f (sort g l)).head? = some a ↔
      First (fun a b => Comparator.orElse (f a b) (g a b)) l a := by
  have hboth := hf.orElse hg hswap
  have hforth {a : α} (h : First f (sort g l) a) :
      First (fun a b => Comparator.orElse (f a b) (g a b)) l a := by
    have hself : f a a ≤ 0 := (hf.total a a).elim id id
    have hhead := head?_filter_of_first (p := fun b => f b a ≤ 0 ∧ f a b ≤ 0)
      (by simp [hself]) (fun b _ hb => by simp at hb; exact hb.1) h
    obtain ⟨rest, htied⟩ := List.head?_eq_some_iff.mp hhead
    have hsorted := (pairwise_sort hg l).filter fun b => f b a ≤ 0 ∧ f a b ≤ 0
    rw [htied, List.pairwise_cons] at hsorted
    have hle : ∀ b ∈ l, Comparator.orElse (f a b) (g a b) ≤ 0 := by
      intro b hb
      have hin : b ∈ sort g l := mem_sort.mpr hb
      have hab := h.le hf b hin
      rw [orElse_le_iff]
      by_cases htie : f a b = 0
      · have hmem : b ∈ (sort g l).filter fun b => f b a ≤ 0 ∧ f a b ≤ 0 := by
          simp [hin, hswap a b, htie]
        rw [htied] at hmem
        rcases List.mem_cons.mp hmem with rfl | hmem
        · exact .inr ⟨htie, (hg.total b b).elim id id⟩
        · exact .inr ⟨htie, hsorted.1 b hmem⟩
      · exact .inl (lt_of_le_of_ne hab htie)
    refine first_of_head?_filter hle
      (p := fun b => (f b a ≤ 0 ∧ f a b ≤ 0) ∧ g b a ≤ 0 ∧ g a b ≤ 0) (fun b hb => ?_) ?_
    · have hab := hle b hb
      have hback := hswap a b
      rw [orElse_le_iff] at hab ⊢
      simp only [decide_eq_true_eq]
      omega
    · -- those that tie in both keep their order
      rw [← filter_sort hg fun b c hb hc => ?_]
      · have hsplit : (sort g l).filter (fun b => (f b a ≤ 0 ∧ f a b ≤ 0) ∧ g b a ≤ 0 ∧ g a b ≤ 0)
            = ((sort g l).filter fun b => f b a ≤ 0 ∧ f a b ≤ 0).filter
              fun b => g b a ≤ 0 ∧ g a b ≤ 0 := by
          rw [List.filter_filter]
          congr 1
          funext b
          exact (Bool.decide_and _ _).trans (Bool.and_comm _ _)
        have hgself : g a a ≤ 0 := (hg.total a a).elim id id
        rw [hsplit, htied, List.filter_cons_of_pos (by simp [hgself]), List.head?_cons]
      · simp only [decide_eq_true_eq] at hb hc
        exact hg.trans b a c hb.2.1 hc.2.2
  rw [head?_sort_iff hf]
  refine ⟨hforth, fun h => ?_⟩
  cases hhead : (sort f (sort g l)).head? with
  | none =>
    rw [List.head?_eq_none_iff] at hhead
    have hmem : a ∈ sort f (sort g l) := mem_sort.mpr (mem_sort.mpr h.mem)
    rw [hhead] at hmem
    exact absurd hmem (by simp)
  | some b =>
    have hfirst := (head?_sort_iff hf).mp hhead
    rwa [← (hforth hfirst).unique hboth h]

/-! ### What stands where -/

/-- Two elements of a list stand in it one way or the other. -/
theorem pairwise_or {R : α → α → Prop} (h : l.Pairwise R) {a b : α} (ha : a ∈ l) (hb : b ∈ l)
    (hne : a ≠ b) : R a b ∨ R b a := by
  have hsymm : Std.Symm fun x y => R x y ∨ R y x := ⟨fun _ _ => Or.symm⟩
  have heither : l.Pairwise fun x y => R x y ∨ R y x := h.imp .inl
  exact heither.forall ha hb hne

theorem not_sublist_swap {a b : α} (hnodup : l.Nodup)
    (h : [a, b].Sublist l) : ¬ [b, a].Sublist l := by
  induction l with
  | nil => exact absurd h (by simp)
  | cons first rest ih =>
    rw [List.nodup_cons] at hnodup
    intro h'
    rcases List.sublist_cons_iff.mp h with hrest | ⟨tail, heq, hrest⟩ <;>
      rcases List.sublist_cons_iff.mp h' with hrest' | ⟨tail', heq', hrest'⟩
    · exact ih hnodup.2 hrest hrest'
    · obtain ⟨rfl, rfl⟩ := List.cons_eq_cons.mp heq'
      exact hnodup.1 (hrest.subset (by simp))
    · obtain ⟨rfl, rfl⟩ := List.cons_eq_cons.mp heq
      exact hnodup.1 (hrest'.subset (by simp))
    · obtain ⟨rfl, rfl⟩ := List.cons_eq_cons.mp heq
      obtain ⟨rfl, rfl⟩ := List.cons_eq_cons.mp heq'
      exact hnodup.1 (hrest.subset (List.mem_singleton_self _))

/-- **What stands where in a sorted list**: two elements are in the order of the comparator, and where
that lets both be first, in the order they came in. -/
theorem pairwise_sort_iff (h : Lawful compare) {R : α → α → Prop} (hnodup : l.Nodup) :
    (sort compare l).Pairwise R ↔
      l.Pairwise fun a b => if compare a b ≤ 0 then R a b else R b a := by
  have htrans : ∀ a b c, decide (compare a b ≤ 0) = true → decide (compare b c ≤ 0) = true →
      decide (compare a c ≤ 0) = true := fun a b c hab hbc =>
    decide_eq_true (h.trans a b c (of_decide_eq_true hab) (of_decide_eq_true hbc))
  have htotal : ∀ a b, (decide (compare a b ≤ 0) || decide (compare b a ≤ 0)) = true :=
    fun a b => by simpa using h.total a b
  have hstays {a b : α} (hpair : [a, b].Sublist l) (hle : compare a b ≤ 0) :
      [a, b].Sublist (sort compare l) :=
    List.pair_sublist_mergeSort htrans htotal (decide_eq_true hle) hpair
  have hsorted {a b : α} (hpair : [a, b].Sublist (sort compare l)) : compare a b ≤ 0 :=
    (pairwise_sort h l).forall_sublist hpair
  have hne {l : List α} (hl : l.Nodup) {a b : α} (hpair : [a, b].Sublist l) : a ≠ b :=
    hl.forall_sublist hpair
  have hpairs (l : List α) : l.Pairwise fun a b => [a, b].Sublist l :=
    List.pairwise_of_forall_sublist fun hpair => hpair
  constructor
  · intro hR
    refine List.pairwise_of_forall_sublist fun {a b} hpair => ?_
    have ha : a ∈ sort compare l := mem_sort.mpr (hpair.subset (by simp))
    have hb : b ∈ sort compare l := mem_sort.mpr (hpair.subset (by simp))
    split_ifs with hle
    · exact hR.forall_sublist (hstays hpair hle)
    · rcases pairwise_or (hpairs _) ha hb (hne hnodup hpair) with hforth | hback
      · exact absurd (hsorted hforth) hle
      · exact hR.forall_sublist hback
  · intro hR
    have hnodup' := (sort_perm compare l).nodup_iff.mpr hnodup
    refine List.pairwise_of_forall_sublist fun {a b} hpair => ?_
    have ha : a ∈ l := mem_sort.mp (hpair.subset (by simp))
    have hb : b ∈ l := mem_sort.mp (hpair.subset (by simp))
    rcases pairwise_or (hpairs _) ha hb (hne hnodup' hpair) with hforth | hback
    · have hrule := hR.forall_sublist hforth
      rwa [if_pos (hsorted hpair)] at hrule
    · have hrule := hR.forall_sublist hback
      have hafter : ¬ compare b a ≤ 0 := fun hle =>
        not_sublist_swap hnodup' hpair (hstays hback hle)
      rwa [if_neg hafter] at hrule

end Comparator
