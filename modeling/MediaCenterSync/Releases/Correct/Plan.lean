import MediaCenterSync.Lib.Text
import MediaCenterSync.Releases.Plan

/-!
# A plan covers what can be covered

Whether a line fills an episode depends on the coordinate of the episode alone
(`mem_fillsOf_of_keyOf`), so what a step is taken for is all of the missing episodes under the
coordinates it deletes.  What is left at the end is another matter: the map kept one episode of each
coordinate, and of several that share one only the last is named.  A plan is exact if and only if no
two missing episodes share a coordinate that nothing can fill: `planExact_iff`.
-/

namespace MediaCenterSync.Releases

open OrderedMap (has)

/-! ### Coordinates -/

theorem printed_injective {a b : Option ℕ} (h : printed a = printed b) : a = b := by
  cases a with
  | none =>
    cases b with
    | none => rfl
    | some b => exact absurd h.symm Nat.repr_ne_empty
  | some a =>
    cases b with
    | none => exact absurd h Nat.repr_ne_empty
    | some b => exact congrArg some (Text.decimal_injective h)

theorem colon_notMem_printed (number : Option ℕ) : ':' ∉ (printed number).toList := by
  cases number with
  | none => simp [printed]
  | some n =>
    intro h
    have hdigit := Text.isDigit_of_mem_decimal h
    simp at hdigit

theorem keyOf_eq_keyOf_iff {one other : EpisodeRef} : keyOf one = keyOf other ↔
    one.seasonNumber = other.seasonNumber ∧ one.episodeNumber = other.episodeNumber := by
  constructor
  · intro h
    have htext := congrArg String.toList h
    simp only [keyOf, String.toList_append, List.append_assoc] at htext
    have hparts := Text.append_cons_inj htext (colon_notMem_printed one.seasonNumber)
      (colon_notMem_printed other.seasonNumber)
    exact ⟨printed_injective (String.toList_injective hparts.1),
      printed_injective (String.toList_injective hparts.2)⟩
  · rintro ⟨hseason, hepisode⟩
    rw [keyOf, keyOf, hseason, hepisode]

variable {missing : List EpisodeRef} {one other : EpisodeRef}

theorem fillsOf_subset (group : ReleaseGroup) : fillsOf group missing ⊆ missing := by
  unfold fillsOf
  intro one h
  split_ifs at h
  · exact absurd h List.not_mem_nil
  · exact h
  · exact List.mem_of_mem_filter h
  · exact List.mem_of_mem_filter h
  · exact h
  · exact absurd h List.not_mem_nil

/-- **Episodes of one coordinate are filled together.** -/
theorem mem_fillsOf_of_keyOf {group : ReleaseGroup} (h : one ∈ fillsOf group missing)
    (hother : other ∈ missing) (hkey : keyOf one = keyOf other) :
    other ∈ fillsOf group missing := by
  obtain ⟨hseason, hepisode⟩ := keyOf_eq_keyOf_iff.mp hkey
  unfold fillsOf at h ⊢
  split_ifs at h ⊢
  · exact absurd h List.not_mem_nil
  · exact hother
  · have hnumber := of_decide_eq_true (List.mem_filter.mp h).2
    exact List.mem_filter.mpr ⟨hother, decide_eq_true (hseason ▸ hnumber)⟩
  · have hnumbers := of_decide_eq_true (List.mem_filter.mp h).2
    rw [hseason, hepisode] at hnumbers
    exact List.mem_filter.mpr ⟨hother, decide_eq_true hnumbers⟩
  · exact hother
  · exact absurd h List.not_mem_nil

/-! ### One round -/

variable {groups : List ReleaseGroup} {p q : PlanState}

theorem mem_coversOf {uncovered : List (String × EpisodeRef)} {group : ReleaseGroup} :
    one ∈ coversOf uncovered group ↔ one ∈ group.fills ∧ has uncovered (keyOf one) = true :=
  List.mem_filter

theorem mem_scored {uncovered : List (String × EpisodeRef)}
    {best : ReleaseGroup × List EpisodeRef} : best ∈ scored groups uncovered ↔
      best.1 ∈ groups ∧ best.2 = coversOf uncovered best.1 ∧ best.2 ≠ [] := by
  rw [scored, List.mem_mergeSort, List.mem_filter, List.mem_map, decide_eq_true_eq,
    List.length_pos_iff]
  constructor
  · rintro ⟨⟨group, hgroup, rfl⟩, hne⟩
    exact ⟨hgroup, rfl, hne⟩
  · rintro ⟨hgroup, hcovers, hne⟩
    exact ⟨⟨best.1, hgroup, Prod.ext rfl hcovers.symm⟩, hne⟩

/-- What a round does: some line is taken for all it would fill of what is uncovered. -/
theorem planStep_cases (h : planStep groups p = some q) :
    ∃ group ∈ groups, coversOf p.uncovered group ≠ [] ∧
      q.uncovered = (coversOf p.uncovered group).foldl
        (fun left one => OrderedMap.delete left (keyOf one)) p.uncovered ∧
      q.steps = p.steps ++ [stepFor group (coversOf p.uncovered group)] := by
  unfold planStep at h
  split_ifs at h
  obtain ⟨best, hbest, rfl⟩ := Option.map_eq_some_iff.mp h
  obtain ⟨hgroup, hcovers, hne⟩ := mem_scored.mp (List.mem_of_mem_head? hbest)
  exact ⟨best.1, hgroup, hcovers ▸ hne, by rw [hcovers], by rw [hcovers]⟩

/-- There is no further round where no line would fill anything. -/
theorem planStep_eq_none_iff :
    planStep groups p = none ↔ ∀ group ∈ groups, coversOf p.uncovered group = [] := by
  unfold planStep
  split_ifs with hempty
  · refine iff_of_true rfl fun group _ => List.filter_eq_nil_iff.mpr fun one _ => ?_
    rw [List.length_eq_zero_iff.mp hempty]
    exact Bool.false_ne_true
  · rw [Option.map_eq_none_iff, List.head?_eq_none_iff, List.eq_nil_iff_forall_not_mem]
    constructor
    · intro hnone group hgroup
      by_contra hne
      exact hnone (group, _) (mem_scored.mpr ⟨hgroup, rfl, hne⟩)
    · rintro hnone best hbest
      obtain ⟨hgroup, hcovers, hne⟩ := mem_scored.mp hbest
      exact hne (hcovers.trans (hnone _ hgroup))

theorem length_lt_of_planStep (h : planStep groups p = some q) :
    q.uncovered.length < p.uncovered.length := by
  obtain ⟨group, _, hne, huncovered, _⟩ := planStep_cases h
  obtain ⟨one, hone⟩ := List.exists_mem_of_ne_nil _ hne
  obtain ⟨value, hvalue⟩ := OrderedMap.has_iff.mp (mem_coversOf.mp hone).2
  rw [huncovered]
  refine lt_of_le_of_ne (OrderedMap.foldl_delete_sublist keyOf _ _).length_le fun hlength => ?_
  have hsame := (OrderedMap.foldl_delete_sublist keyOf p.uncovered
    (coversOf p.uncovered group)).eq_of_length hlength
  rw [← hsame, OrderedMap.mem_foldl_delete] at hvalue
  exact hvalue.2 one hone rfl

/-! ### The rounds -/

theorem planLoop_induction {P : PlanState → Prop}
    (hstep : ∀ p q, P p → planStep groups p = some q → P q) (rounds : ℕ) (hp : P p) :
    P (planLoop groups rounds p) := by
  induction rounds generalizing p with
  | zero => exact hp
  | succ rounds ih =>
    rw [planLoop]
    cases hnext : planStep groups p with
    | none => exact hp
    | some q => exact ih (hstep p q hp hnext)

/-- **The rounds come to an end.** -/
theorem planStep_planLoop {rounds : ℕ} (h : p.uncovered.length ≤ rounds) :
    planStep groups (planLoop groups rounds p) = none := by
  induction rounds generalizing p with
  | zero => rw [planLoop, planStep, if_pos (Nat.le_zero.mp h)]
  | succ rounds ih =>
    rw [planLoop]
    cases hnext : planStep groups p with
    | none => exact hnext
    | some q => exact ih (Nat.lt_succ_iff.mp (lt_of_lt_of_le (length_lt_of_planStep hnext) h))

/-! ### What a plan is to be -/

def lines (result : ReleaseSearchResult) : List ReleaseGroup :=
  result.suggestions.filterMap (·.release?)

/-- Some line fills it. -/
def Fillable (result : ReleaseSearchResult) (one : EpisodeRef) : Prop :=
  ∃ group ∈ lines result, one ∈ fillsOf group result.missing

/-- A step takes a line, for what the line fills. -/
structure TakenFrom (missing : List EpisodeRef) (group : ReleaseGroup) (step : CoverageStep) :
    Prop where
  releaseId : step.releaseId = group.first.id
  covers : step.covers ⊆ fillsOf group missing

/-- A plan that covers what can be covered, once, and names the rest. -/
structure PlanExact (result : ReleaseSearchResult) : Prop where
  ended : planStep (candidates result) (planned result) = none
  covers_ne_nil : ∀ step ∈ (plan result).steps, step.covers ≠ []
  disjoint : (plan result).steps.Pairwise fun step later => step.covers.Disjoint later.covers
  taken : ∃ groups : List ReleaseGroup, groups.Nodup ∧ groups ⊆ lines result ∧
    List.Forall₂ (TakenFrom result.missing) groups (plan result).steps
  /-- Nor is a release, where no two lines offer the same. -/
  once : (∀ group ∈ lines result, ∀ other ∈ lines result,
    group.first.id = other.first.id → group = other) →
      ((plan result).steps.map (·.releaseId)).Nodup
  /-- What is missing is covered by one step, or else it is left. -/
  placed : ∀ one ∈ result.missing, ((plan result).steps.filter (one ∈ ·.covers)).length =
    if one ∈ (plan result).uncovered then 0 else 1
  uncovered : ∀ one, one ∈ (plan result).uncovered ↔
    one ∈ result.missing ∧ ¬Fillable result one

theorem fills_of_mem_lines {suggestions : List ReleaseSuggestion} {group : ReleaseGroup}
    (h : group ∈ lines (found suggestions missing)) : group.fills = fillsOf group missing := by
  rw [lines, found, List.filterMap_map, List.mem_filterMap] at h
  obtain ⟨suggestion, _, hgroup⟩ := h
  cases suggestion with
  | indexer release =>
    cases hgroup
    rfl
  | peer copy => exact absurd hgroup (Option.some_ne_none group).symm

/-! ### What every round keeps -/

/-- The plan so far: the coordinates that were taken are those that are deleted. -/
structure Kept (result : ReleaseSearchResult) (p : PlanState) : Prop where
  left : p.uncovered.Sublist (startPlan result.missing).uncovered
  covers_ne_nil : ∀ step ∈ p.steps, step.covers ≠ []
  disjoint : p.steps.Pairwise fun step later => step.covers.Disjoint later.covers
  taken : ∃ groups : List ReleaseGroup, groups.Nodup ∧ groups ⊆ lines result ∧
    List.Forall₂ (TakenFrom result.missing) groups p.steps ∧
    ∀ group ∈ groups, coversOf p.uncovered group = []
  held : ∀ one ∈ result.missing,
    has p.uncovered (keyOf one) = true ↔ ∀ step ∈ p.steps, one ∉ step.covers

variable {suggestions : List ReleaseSuggestion}

theorem kept_startPlan (result : ReleaseSearchResult) : Kept result (startPlan result.missing) where
  left := List.Sublist.refl _
  covers_ne_nil := List.forall_mem_nil _
  disjoint := List.Pairwise.nil
  taken := ⟨[], List.nodup_nil, List.nil_subset _, List.Forall₂.nil, List.forall_mem_nil _⟩
  held := fun one hone =>
    iff_of_true ((OrderedMap.has_groupBy keyOf).mpr ⟨one, hone, rfl⟩) (List.forall_mem_nil _)

theorem coversOf_eq_nil_of_has {uncovered left : List (String × EpisodeRef)} {group : ReleaseGroup}
    (h : coversOf uncovered group = []) (hleft : ∀ k, has left k = true → has uncovered k = true) :
    coversOf left group = [] := by
  rw [List.eq_nil_iff_forall_not_mem] at h ⊢
  intro one hone
  obtain ⟨hfills, hhas⟩ := mem_coversOf.mp hone
  exact h one (mem_coversOf.mpr ⟨hfills, hleft _ hhas⟩)

theorem Kept.step (h : Kept (found suggestions missing) p)
    (hstep : planStep (candidates (found suggestions missing)) p = some q) :
    Kept (found suggestions missing) q := by
  obtain ⟨group, hgroup, hne, huncovered, hsteps⟩ := planStep_cases hstep
  have hline : group ∈ lines (found suggestions missing) := List.mem_of_mem_filter hgroup
  have hfills := fills_of_mem_lines hline
  have hcovers {one : EpisodeRef} (hone : one ∈ coversOf p.uncovered group) :
      one ∈ fillsOf group missing := hfills ▸ (mem_coversOf.mp hone).1
  have hhas {k : String} : has q.uncovered k = true ↔ has p.uncovered k = true ∧
      ∀ one ∈ coversOf p.uncovered group, keyOf one ≠ k := by
    rw [huncovered, OrderedMap.has_foldl_delete]
  refine ⟨?_, ?_, ?_, ?_, ?_⟩
  · rw [huncovered]
    exact (OrderedMap.foldl_delete_sublist keyOf _ _).trans h.left
  · rw [hsteps]
    intro step hmem
    rcases List.mem_append.mp hmem with hmem | hmem
    · exact h.covers_ne_nil step hmem
    · rw [List.mem_singleton.mp hmem]
      exact hne
  · -- what is taken now was uncovered, and what was taken before is not
    rw [hsteps, List.pairwise_append]
    refine ⟨h.disjoint, List.pairwise_singleton _ _, fun step hmem later hlater one hone hnew => ?_⟩
    rw [List.mem_singleton.mp hlater] at hnew
    have huntaken := (h.held one (fillsOf_subset group (hcovers hnew))).mp (mem_coversOf.mp hnew).2
    exact huntaken step hmem hone
  · obtain ⟨groups, hnodup, hlines, htaken, hdone⟩ := h.taken
    refine ⟨groups ++ [group], ?_, ?_, ?_, ?_⟩
    · rw [← List.concat_eq_append, List.nodup_concat]
      exact ⟨fun hmem => hne (hdone group hmem), hnodup⟩
    · exact List.append_subset.mpr ⟨hlines, List.cons_subset.mpr ⟨hline, List.nil_subset _⟩⟩
    · rw [hsteps]
      exact List.rel_append htaken (.cons ⟨rfl, fun one => hcovers⟩ .nil)
    · intro other hother
      rcases List.mem_append.mp hother with hother | hother
      · exact coversOf_eq_nil_of_has (hdone other hother) fun k hk => (hhas.mp hk).1
      · obtain rfl := List.mem_singleton.mp hother
        rw [List.eq_nil_iff_forall_not_mem]
        intro one hone
        obtain ⟨hone, hleft⟩ := mem_coversOf.mp hone
        exact (hhas.mp hleft).2 one (mem_coversOf.mpr ⟨hone, (hhas.mp hleft).1⟩) rfl
  · intro one hone
    rw [hhas, h.held one hone, hsteps]
    simp only [List.mem_append, List.mem_singleton, or_imp, forall_and, forall_eq]
    refine and_congr_right fun huntaken => ⟨fun hkeys hmem => hkeys one hmem rfl, ?_⟩
    -- an episode of the coordinate of one that is taken is taken with it
    intro hmem other hother hkey
    refine hmem (mem_coversOf.mpr ⟨?_, (h.held one hone).mpr huntaken⟩)
    rw [hfills]
    exact mem_fillsOf_of_keyOf (hcovers hother) hone hkey

theorem kept_planned : Kept (found suggestions missing) (planned (found suggestions missing)) :=
  planLoop_induction (fun _ _ hp hstep => hp.step hstep) _ (kept_startPlan _)

/-! ### Where the rounds end -/

theorem ended (result : ReleaseSearchResult) :
    planStep (candidates result) (planned result) = none :=
  planStep_planLoop (le_refl _)

theorem has_planned_iff (hone : one ∈ missing) :
    has (planned (found suggestions missing)).uncovered (keyOf one) = true ↔
      ¬Fillable (found suggestions missing) one := by
  have hkept : Kept (found suggestions missing) (planned (found suggestions missing)) :=
    kept_planned
  constructor
  · rintro hleft ⟨group, hline, hfills⟩
    have hone : one ∈ group.fills := by rwa [fills_of_mem_lines hline]
    have hcandidate : group ∈ candidates (found suggestions missing) :=
      List.mem_filter.mpr ⟨hline, decide_eq_true (List.length_pos_of_mem hone)⟩
    have hcovers := planStep_eq_none_iff.mp (ended _) group hcandidate
    exact List.not_mem_nil (hcovers ▸ mem_coversOf.mpr ⟨hone, hleft⟩)
  · intro hfillable
    refine (hkept.held one hone).mpr fun step hstep hcovered => hfillable ?_
    obtain ⟨groups, _, hlines, htaken, _⟩ := hkept.taken
    obtain ⟨i, hi, rfl⟩ := List.mem_iff_get.mp hstep
    have hlt : i.val < groups.length := lt_of_lt_of_eq i.isLt htaken.length_eq.symm
    have htook := htaken.get hlt i.isLt
    exact ⟨_, hlines (List.get_mem _ _), htook.covers hcovered⟩

theorem get_startPlan {k : String}
    (h : OrderedMap.get (startPlan missing).uncovered k = some one) :
    one ∈ missing ∧ keyOf one = k := by
  rw [startPlan, OrderedMap.get_groupBy_last] at h
  have hmem := List.mem_filter.mp (List.mem_of_getLast? h)
  exact ⟨hmem.1, of_decide_eq_true hmem.2⟩

theorem mem_startPlan_iff {entry : String × EpisodeRef} :
    entry ∈ (startPlan missing).uncovered ↔
      OrderedMap.get (startPlan missing).uncovered entry.1 = some entry.2 :=
  OrderedMap.mem_iff_get (OrderedMap.nodup_keys_groupBy keyOf _ missing)

/-- What is named is what the map keeps of a coordinate that is left. -/
theorem mem_uncovered_iff : one ∈ (plan (found suggestions missing)).uncovered ↔
    has (planned (found suggestions missing)).uncovered (keyOf one) = true ∧
      OrderedMap.get (startPlan missing).uncovered (keyOf one) = some one := by
  have hkept : Kept (found suggestions missing) (planned (found suggestions missing)) :=
    kept_planned
  have hleft := hkept.left
  rw [plan, List.mem_map, OrderedMap.has_iff]
  constructor
  · rintro ⟨⟨k, value⟩, hentry, rfl⟩
    have hget := mem_startPlan_iff.mp (hleft.subset hentry)
    have hkey : keyOf value = k := (get_startPlan hget).2
    subst hkey
    exact ⟨⟨value, hentry⟩, hget⟩
  · rintro ⟨⟨value, hvalue⟩, hget⟩
    have hsame := mem_startPlan_iff.mp (hleft.subset hvalue)
    exact ⟨(keyOf one, value), hvalue, Option.some.inj (hsame.symm.trans hget)⟩

theorem length_filter_eq_one {α : Type*} {P : α → Prop} [DecidablePred P] {l : List α} {a : α}
    (h : l.Pairwise fun b c => ¬(P b ∧ P c)) (ha : a ∈ l) (hPa : P a) :
    (l.filter P).length = 1 := by
  have hmem : a ∈ l.filter P := List.mem_filter.mpr ⟨ha, decide_eq_true hPa⟩
  have hpair : (l.filter P).Pairwise fun b c => ¬(P b ∧ P c) := h.filter _
  have hP : ∀ d ∈ l.filter P, P d := fun d hd => of_decide_eq_true (List.mem_filter.mp hd).2
  generalize l.filter P = kept at hmem hpair hP
  match kept with
  | [] => exact absurd hmem List.not_mem_nil
  | [_] => rfl
  | b :: c :: rest =>
    have hboth := (List.pairwise_cons.mp hpair).1 c List.mem_cons_self
    exact absurd ⟨hP b (by simp), hP c (by simp)⟩ hboth

theorem length_steps_covering (hone : one ∈ missing) :
    ((plan (found suggestions missing)).steps.filter (one ∈ ·.covers)).length =
      if has (planned (found suggestions missing)).uncovered (keyOf one) then 0 else 1 := by
  have hkept : Kept (found suggestions missing) (planned (found suggestions missing)) :=
    kept_planned
  have hheld := hkept.held one hone
  split
  · next hleft =>
    rw [List.length_eq_zero_iff, List.filter_eq_nil_iff]
    exact fun step hstep hcovered => hheld.mp hleft step hstep (of_decide_eq_true hcovered)
  · next hleft =>
    rw [hheld] at hleft
    push Not at hleft
    obtain ⟨step, hstep, hcovered⟩ := hleft
    exact length_filter_eq_one
      (hkept.disjoint.imp fun hdisjoint hboth => hdisjoint hboth.1 hboth.2) hstep hcovered

/-! ### When a plan is exact -/

/-- No two missing episodes share a coordinate that nothing can fill. -/
def NamedOnce (result : ReleaseSearchResult) : Prop :=
  ∀ one ∈ result.missing, ∀ other ∈ result.missing, keyOf one = keyOf other →
    one = other ∨ Fillable result one

theorem once_of_taken {result : ReleaseSearchResult} {groups : List ReleaseGroup}
    {steps : List CoverageStep} (hnodup : groups.Nodup) (hlines : groups ⊆ lines result)
    (htaken : List.Forall₂ (TakenFrom result.missing) groups steps)
    (hids : ∀ group ∈ lines result, ∀ other ∈ lines result,
      group.first.id = other.first.id → group = other) :
    (steps.map (·.releaseId)).Nodup := by
  have hmap : steps.map (·.releaseId) = groups.map (·.first.id) := by
    induction htaken with
    | nil => rfl
    | cons htook _ ih =>
      rw [List.map_cons, List.map_cons, htook.releaseId,
        ih (List.nodup_cons.mp hnodup).2 (List.cons_subset.mp hlines).2]
  rw [hmap]
  exact hnodup.map_on fun group hgroup other hother => hids _ (hlines hgroup) _ (hlines hother)

/-- **The plan is exact if and only if every coordinate that nothing fills is that of one episode.**
It ends, takes no line twice and covers nothing twice in any case. -/
theorem planExact_iff (suggestions : List ReleaseSuggestion) (missing : List EpisodeRef) :
    PlanExact (found suggestions missing) ↔ NamedOnce (found suggestions missing) := by
  constructor
  · intro hexact one hone other hother hkey
    by_contra hnot
    push Not at hnot
    have hunfilled : ¬Fillable (found suggestions missing) other := by
      rintro ⟨group, hline, hfills⟩
      exact hnot.2 ⟨group, hline, mem_fillsOf_of_keyOf hfills hone hkey.symm⟩
    have hfirst := mem_uncovered_iff.mp ((hexact.uncovered one).mpr ⟨hone, hnot.2⟩)
    have hsecond := mem_uncovered_iff.mp ((hexact.uncovered other).mpr ⟨hother, hunfilled⟩)
    rw [hkey] at hfirst
    exact hnot.1 (Option.some.inj (hfirst.2.symm.trans hsecond.2))
  · intro hnamed
    have hkept : Kept (found suggestions missing) (planned (found suggestions missing)) :=
      kept_planned
    have huncovered (one : EpisodeRef) : one ∈ (plan (found suggestions missing)).uncovered ↔
        one ∈ missing ∧ ¬Fillable (found suggestions missing) one := by
      rw [mem_uncovered_iff]
      constructor
      · rintro ⟨hleft, hget⟩
        have hone := (get_startPlan hget).1
        exact ⟨hone, (has_planned_iff hone).mp hleft⟩
      · rintro ⟨hone, hunfilled⟩
        have hleft := (has_planned_iff hone).mpr hunfilled
        obtain ⟨value, hvalue⟩ := OrderedMap.has_iff.mp hleft
        have hget := mem_startPlan_iff.mp (hkept.left.subset hvalue)
        obtain ⟨hmem, hkey⟩ := get_startPlan hget
        rcases hnamed one hone value hmem hkey.symm with rfl | hfillable
        · exact ⟨hleft, hget⟩
        · exact absurd hfillable hunfilled
    obtain ⟨groups, hnodup, hlines, htaken, _⟩ := hkept.taken
    refine ⟨ended _, hkept.covers_ne_nil, hkept.disjoint, ⟨groups, hnodup, hlines, htaken⟩,
      once_of_taken hnodup hlines htaken, fun one hone => ?_, huncovered⟩
    have hone : one ∈ missing := hone
    rw [length_steps_covering hone]
    have hiff : has (planned (found suggestions missing)).uncovered (keyOf one) = true ↔
        one ∈ (plan (found suggestions missing)).uncovered := by
      rw [huncovered, has_planned_iff hone]
      exact ⟨fun h => ⟨hone, h⟩, And.right⟩
    simp only [hiff]

/-- Of two specials without a number that nothing can fill, one is not named. -/
theorem not_planExact_twoSpecials : ¬∀ (suggestions : List ReleaseSuggestion)
    (missing : List EpisodeRef), PlanExact (found suggestions missing) := by
  intro h
  have huncovered := ((h [] [⟨"a", some 0, none, "Pilot"⟩, ⟨"b", some 0, none, "Reunion"⟩]).uncovered
    ⟨"a", some 0, none, "Pilot"⟩).mpr ⟨List.mem_cons_self, fun ⟨_, hline, _⟩ => by
      simp [lines, found] at hline⟩
  revert huncovered
  decide +kernel

end MediaCenterSync.Releases
