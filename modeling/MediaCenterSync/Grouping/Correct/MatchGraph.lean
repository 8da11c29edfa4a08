import MediaCenterSync.Grouping.MatchGraph

/-!
# The match graph is the connected components of its pairs

However the pairs are cut into pages and whatever is asked in between, `root` ends, `members` is the
sorted list of what the pairs absorbed so far connect, and `besideAnotherCut` holds at the ends of a
conflict (`answers_of_run`).

The invariant (`Represents`) says that the parents are acyclic and lead two identifiers to one root
exactly when the pairs connect them, and that a remembered index is the one of the present parents.
-/

namespace MediaCenterSync.Grouping

open UnionFind

namespace MatchGraph

variable {α : Type*}

def Joins (pairs : List (MatchPair α)) (a b : α) : Prop :=
  ∃ pair ∈ pairs, pair.localItemId = a ∧ pair.remoteItemId = b

def Connected (pairs : List (MatchPair α)) : α → α → Prop := Relation.EqvGen (Joins pairs)

/-- The identifier is an end of a conflict. -/
def InConflict (pairs : List (MatchPair α)) (id : α) : Prop :=
  ∃ pair ∈ pairs, pair.state = .CONFLICT ∧ (id = pair.localItemId ∨ id = pair.remoteItemId)

/-! ### Pairs -/

theorem connected_append (pairs : List (MatchPair α)) (pair : MatchPair α) :
    Connected (pairs ++ [pair]) = Relation.EqvGen fun a b =>
      Joins pairs a b ∨ a = pair.localItemId ∧ b = pair.remoteItemId := by
  unfold Connected
  congr 1
  funext a b
  simp only [Joins, List.mem_append, List.mem_singleton, eq_iff_iff]
  constructor
  · rintro ⟨p, hp | rfl, rfl, rfl⟩
    · exact .inl ⟨p, hp, rfl, rfl⟩
    · exact .inr ⟨rfl, rfl⟩
  · rintro (⟨p, hp, rfl, rfl⟩ | ⟨rfl, rfl⟩)
    · exact ⟨p, .inl hp, rfl, rfl⟩
    · exact ⟨pair, .inr rfl, rfl, rfl⟩

theorem inConflict_append (pairs : List (MatchPair α)) (pair : MatchPair α) (id : α) :
    InConflict (pairs ++ [pair]) id ↔ InConflict pairs id ∨
      pair.state = .CONFLICT ∧ (id = pair.localItemId ∨ id = pair.remoteItemId) := by
  simp only [InConflict, List.mem_append, List.mem_singleton]
  constructor
  · rintro ⟨p, hp | rfl, hconflict⟩
    · exact .inl ⟨p, hp, hconflict⟩
    · exact .inr hconflict
  · rintro (⟨p, hp, hconflict⟩ | hconflict)
    · exact ⟨p, .inl hp, hconflict⟩
    · exact ⟨pair, .inr rfl, hconflict⟩

section

variable [DecidableEq α] {g : MatchGraph α} {pairs : List (MatchPair α)}

/-- The parents and the cuts are those of the pairs. -/
structure Represents (g : MatchGraph α) (pairs : List (MatchPair α)) : Prop where
  acyclic : Acyclic (up g.parent)
  closed : ∀ id ∈ g.parent, up g.parent id ∈ g.parent
  joined : ∀ a b, g.root a = g.root b ↔ Connected pairs a b
  cut : ∀ id, id ∈ g.otherCut ↔ InConflict pairs id

/-! ### Parents -/

theorem within_up (parent : AList fun _ : α => α) : Within (up parent) parent.keys := by
  intro a ha
  by_contra hmem
  have hnone : parent.lookup a = none := AList.lookup_eq_none.mpr hmem
  simp [up, hnone] at ha

theorem up_insert (parent : AList fun _ : α => α) (a b : α) :
    up (parent.insert a b) = Function.update (up parent) a b := by
  funext x
  by_cases hx : x = a
  · subst hx
    simp [up]
  · simp [up, AList.lookup_insert_ne hx, hx]

theorem up_root_eq (h : Acyclic (up g.parent)) (id : α) : up g.parent (g.root id) = g.root id :=
  up_root h (within_up _) id

theorem root_mem (h : Acyclic (up g.parent))
    (hclosed : ∀ id ∈ g.parent, up g.parent id ∈ g.parent) {id : α} (hid : id ∈ g.parent) :
    g.root id ∈ g.parent := by
  obtain ⟨depth, hdepth⟩ := h
  induction hn : depth id using Nat.strongRecOn generalizing id with
  | ind n ih =>
    by_cases hfixed : up g.parent id = id
    · rw [root, root_of_fixed hfixed]
      exact hid
    · have hless := hdepth id hfixed
      rw [root, ← root_up ⟨depth, hdepth⟩ (within_up _) id]
      exact ih _ (by omega) (hclosed id hid) rfl

/-- An identifier that is put in the map as its own parent changes nothing else. -/
theorem up_ensure (g : MatchGraph α) (id : α) : up (g.ensure id).parent = up g.parent := by
  unfold ensure
  split
  · rfl
  · rename_i hid
    have hnone : g.parent.lookup id = none := AList.lookup_eq_none.mpr hid
    rw [up_insert]
    apply Function.update_eq_self_iff.mpr
    simp [up, hnone]

theorem mem_ensure (g : MatchGraph α) {id x : α} :
    x ∈ (g.ensure id).parent ↔ x = id ∨ x ∈ g.parent := by
  unfold ensure
  split
  · rename_i hid
    constructor
    · exact .inr
    · rintro (rfl | hx)
      · exact hid
      · exact hx
  · exact AList.mem_insert _

theorem root_congr {g g' : MatchGraph α} (h : Acyclic (up g.parent))
    (hup : up g'.parent = up g.parent) (id : α) : g'.root id = g.root id := by
  have hwithin : Within (up g.parent) g'.parent.keys := hup ▸ within_up g'.parent
  rw [root, hup]
  exact (eq_root h hwithin (f := g.root) (fun _ hfixed => root_of_fixed hfixed)
    (fun a => root_up h (within_up _) a) id).symm

/-- **Union**: what led to the left root leads to the right one. -/
theorem union_spec (h : Acyclic (up g.parent))
    (hclosed : ∀ id ∈ g.parent, up g.parent id ∈ g.parent) (left right : α) :
    Acyclic (up (g.union left right).parent) ∧
      (∀ id ∈ (g.union left right).parent,
        up (g.union left right).parent id ∈ (g.union left right).parent) ∧
      ∀ id, (g.union left right).root id =
        if g.root id = g.root left then g.root right else g.root id := by
  -- First both elements are entered as their own roots, which changes no root.
  generalize he : (g.ensure left).ensure right = e
  have hup : up e.parent = up g.parent := by rw [← he, up_ensure, up_ensure]
  have hacyclic : Acyclic (up e.parent) := by rw [hup]; exact h
  have hmem : ∀ x, x ∈ e.parent ↔ x = right ∨ x = left ∨ x ∈ g.parent := fun x => by
    rw [← he, mem_ensure, mem_ensure]
  have hroot : ∀ x, e.root x = g.root x := root_congr h hup
  have hclosed' : ∀ id ∈ e.parent, up e.parent id ∈ e.parent := by
    intro id hid
    rw [hup]
    by_cases hold : id ∈ g.parent
    · exact (hmem _).mpr (.inr (.inr (hclosed id hold)))
    · have hnone : g.parent.lookup id = none := AList.lookup_eq_none.mpr hold
      have hsame : up g.parent id = id := by simp [up, hnone]
      rw [hsame]
      exact hid
  have hunion : g.union left right =
      { e with
        parent := if e.root left ≠ e.root right then e.parent.insert (e.root left) (e.root right)
          else e.parent
        components := none } := by
    rw [← he]
    rfl
  rw [hunion]
  -- Then one root is hung under the other, unless they are one.
  by_cases hne : e.root left = e.root right
  · simp only [hne, ne_eq, not_true_eq_false, if_false]
    refine ⟨hacyclic, hclosed', fun id => ?_⟩
    have hid : ({ e with parent := e.parent, components := none } : MatchGraph α).root id =
        e.root id := rfl
    rw [hid, hroot, ← hroot left, hne, hroot right]
    split
    · assumption
    · rfl
  · have hleft := up_root_eq hacyclic left
    have hright := up_root_eq hacyclic right
    simp only [ne_eq, hne, not_false_eq_true, if_true]
    refine ⟨?_, ?_, fun id => ?_⟩
    · rw [up_insert]
      exact hacyclic.update (within_up _) hleft hright hne
    · intro id hid
      rw [up_insert]
      rw [AList.mem_insert] at hid ⊢
      by_cases hidl : id = e.root left
      · rw [hidl, Function.update_self]
        exact .inr (root_mem hacyclic hclosed' ((hmem right).mpr (.inl rfl)))
      · rw [Function.update_of_ne hidl]
        exact .inr (hclosed' id (hid.resolve_left hidl))
    · have hwithin := within_up (e.parent.insert (e.root left) (e.root right))
      rw [up_insert] at hwithin
      have hjoin := root_update hacyclic (within_up _) hleft hright hne hwithin id
      rw [root]
      simp only [up_insert]
      rw [hjoin]
      have hid : UnionFind.root (up e.parent) e.parent.keys id = g.root id := hroot id
      rw [hid, hroot left, hroot right]

/-! ### Absorbing -/

/-- **One more pair.** -/
theorem Represents.absorbPair (h : g.Represents pairs) (pair : MatchPair α) :
    (g.absorbPair pair).Represents (pairs ++ [pair]) := by
  obtain ⟨hacyclic, hclosed, hroot⟩ :=
    union_spec h.acyclic h.closed pair.localItemId pair.remoteItemId
  have hjoined : ∀ a b, (g.union pair.localItemId pair.remoteItemId).root a =
      (g.union pair.localItemId pair.remoteItemId).root b ↔ Connected (pairs ++ [pair]) a b := by
    intro a b
    rw [connected_append]
    exact eqvGen_merge h.joined _ _ hroot a b
  have hcut : (g.union pair.localItemId pair.remoteItemId).otherCut = g.otherCut := by
    simp only [union, ensure]
    split <;> split <;> rfl
  unfold MatchGraph.absorbPair
  simp only
  split
  · rename_i hconflict
    refine ⟨hacyclic, hclosed, hjoined, fun id => ?_⟩
    rw [inConflict_append, hcut, List.mem_append, h.cut]
    simp [hconflict]
  · rename_i hconflict
    refine ⟨hacyclic, hclosed, hjoined, fun id => ?_⟩
    rw [inConflict_append, hcut, h.cut]
    simp [hconflict]

/-- **Pages** are absorbed a pair at a time. -/
theorem Represents.absorb (h : g.Represents pairs) (page : List (MatchPair α)) :
    (g.absorb page).Represents (pairs ++ page) := by
  have hdropped : ({ g with components := none } : MatchGraph α).Represents pairs :=
    ⟨h.acyclic, h.closed, h.joined, h.cut⟩
  have key : ∀ (page pairs : List (MatchPair α)) (g : MatchGraph α), g.Represents pairs →
      (page.foldl MatchGraph.absorbPair g).Represents (pairs ++ page) := by
    intro page
    induction page with
    | nil =>
      intro pairs g h
      rwa [List.append_nil]
    | cons pair page ih =>
      intro pairs g h
      have hone := ih (pairs ++ [pair]) _ (h.absorbPair pair)
      rwa [List.append_assoc, List.singleton_append] at hone
  exact key page pairs _ hdropped

theorem represents_empty : (⟨∅, [], none⟩ : MatchGraph α).Represents [] := by
  have hup : up (∅ : AList fun _ : α => α) = id := by
    funext a
    simp [up]
  refine ⟨⟨fun _ => 0, fun a ha => ?_⟩, fun id hid => ?_, fun a b => ?_, fun id => ?_⟩
  · simp [hup] at ha
  · exact absurd hid (AList.notMem_empty id)
  · have hroot : ∀ a, (⟨∅, [], none⟩ : MatchGraph α).root a = a := fun a =>
      root_of_fixed (by simp [hup])
    rw [hroot, hroot]
    constructor
    · rintro rfl
      exact .refl a
    · intro hab
      induction hab with
      | rel a b hab => obtain ⟨_, hp, _⟩ := hab; cases hp
      | refl a => rfl
      | symm a b _ ih => exact ih.symm
      | trans a b c _ _ ih ih' => exact ih.trans ih'
  · simp [InConflict]

end

/-! ### The index -/

section

variable [LinearOrder α] {g : MatchGraph α} {pairs : List (MatchPair α)}

/-- What the loop of `_index` has filed under a root. -/
theorem lookup_foldl_addToIndex (g : MatchGraph α) (r : α) (ids : List α)
    (index : AList fun _ : α => List α) :
    (ids.foldl g.addToIndex index).lookup r =
      if ids.filter (g.root · = r) = [] then index.lookup r
      else some ((index.lookup r).getD [] ++ ids.filter (g.root · = r)) := by
  induction ids generalizing index with
  | nil => rfl
  | cons id ids ih =>
    rw [List.foldl_cons, ih, addToIndex]
    by_cases hid : g.root id = r
    · subst hid
      simp only [AList.lookup_insert, Option.getD_some, List.filter_cons, decide_true, if_true,
        List.append_assoc, List.singleton_append, List.cons_ne_nil, if_false]
      split
      · rename_i hnone
        rw [hnone]
      · rfl
    · rw [AList.lookup_insert_ne (Ne.symm hid)]
      simp only [List.filter_cons, hid, decide_false, Bool.false_eq_true, if_false]

/-- A remembered index is the one of the present parents. -/
def Current (g : MatchGraph α) : Prop := ∀ components ∈ g.components, components = g.computeIndex

theorem Current.index (h : g.Current) : g.index.1 = g.computeIndex ∧ g.index.2.parent = g.parent ∧
    g.index.2.otherCut = g.otherCut ∧ g.index.2.Current := by
  unfold MatchGraph.index
  split
  · rename_i components hsome
    exact ⟨h components hsome, rfl, rfl, h⟩
  · refine ⟨rfl, rfl, rfl, ?_⟩
    rintro _ ⟨⟩
    rfl

/-- **Members** are what the pairs connect, in their order. -/
theorem members_spec (h : g.Represents pairs) (hcurrent : g.Current) (id : α) :
    (g.members id).1.Pairwise (· < ·) ∧ ∀ x, x ∈ (g.members id).1 ↔ Connected pairs id x := by
  obtain ⟨hindex, hparent, _, _⟩ := hcurrent.index
  have hroot : g.index.2.root id = g.root id := by rw [root, root, hparent]
  have hmembers : (g.members id).1 = (g.computeIndex.lookup (g.root id)).getD [id] := by
    show (g.index.1.lookup (g.index.2.root id)).getD [id] = _
    rw [hindex, hroot]
  -- The identifiers of the map that have this root, sorted.
  generalize hf : (g.parent.keys.insertionSort (· ≤ ·)).filter (g.root · = g.root id) = found
  have hlookup : g.computeIndex.lookup (g.root id) = if found = [] then none else some found := by
    rw [computeIndex, lookup_foldl_addToIndex, hf, AList.lookup_empty]
    rfl
  have hmem : ∀ x, x ∈ found ↔ x ∈ g.parent ∧ g.root x = g.root id := by
    intro x
    rw [← hf]
    simp [AList.mem_keys]
  have hsorted : found.Pairwise (· < ·) := by
    have hle := (List.sortedLE_insertionSort (l := g.parent.keys)).pairwise
    have hne : (g.parent.keys.insertionSort (· ≤ ·)).Nodup :=
      (List.perm_insertionSort _ _).nodup_iff.mpr g.parent.keys_nodup
    rw [← hf]
    exact ((hle.and hne).imp fun hab => lt_of_le_of_ne hab.1 hab.2).filter _
  have hown : ∀ {x}, x ∉ g.parent → g.root x = x := fun hx => by
    have hnone := AList.lookup_eq_none.mpr hx
    exact root_of_fixed (by simp [up, hnone])
  rw [hmembers, hlookup]
  by_cases hid : id ∈ g.parent
  · have hne : found ≠ [] := List.ne_nil_of_mem ((hmem id).mpr ⟨hid, rfl⟩)
    rw [if_neg hne, Option.getD_some]
    refine ⟨hsorted, fun x => ?_⟩
    rw [hmem, ← h.joined]
    constructor
    · exact fun hx => hx.2.symm
    · intro hx
      refine ⟨?_, hx.symm⟩
      -- What is connected to it is in the map.
      by_contra hout
      have hin := root_mem h.acyclic h.closed hid
      rw [hx, hown hout] at hin
      exact hout hin
  · have hnone : found = [] := by
      apply List.eq_nil_iff_forall_not_mem.mpr
      intro x hx
      obtain ⟨hin, hroot⟩ := (hmem x).mp hx
      have hin := root_mem h.acyclic h.closed hin
      rw [hroot, hown hid] at hin
      exact hid hin
    rw [if_pos hnone, Option.getD_none]
    refine ⟨List.pairwise_singleton _ _, fun x => ?_⟩
    rw [List.mem_singleton, ← h.joined, hown hid]
    constructor
    · rintro rfl
      exact (hown hid).symm
    · intro hx
      by_cases hin : x ∈ g.parent
      · have hin := root_mem h.acyclic h.closed hin
        rw [← hx] at hin
        exact absurd hin hid
      · rw [hx, hown hin]

/-! ### Runs -/

theorem current_foldl_absorbPair (page : List (MatchPair α)) {g : MatchGraph α}
    (h : g.components = none) : (page.foldl absorbPair g).Current := by
  induction page generalizing g with
  | nil =>
    rintro _ hc
    rw [List.foldl_nil, h] at hc
    cases hc
  | cons pair page ih =>
    apply ih
    simp only [absorbPair]
    split <;> rfl

/-- **Step**: an operation adds its pairs, and no index is stale. -/
theorem represents_apply (h : g.Represents pairs) (hcurrent : g.Current) (operation : Operation α) :
    (g.apply operation).Represents (pairs ++ operation.pairs) ∧ (g.apply operation).Current := by
  cases operation with
  | absorb page => exact ⟨h.absorb page, current_foldl_absorbPair page rfl⟩
  | members id =>
    obtain ⟨_, hparent, hcut, hnext⟩ := hcurrent.index
    have hroot : ∀ x, g.index.2.root x = g.root x := fun x => by rw [root, root, hparent]
    have hsame : g.index.2.Represents pairs :=
      ⟨by rw [hparent]; exact h.acyclic, by rw [hparent]; exact h.closed,
        fun a b => by rw [hroot, hroot]; exact h.joined a b, fun x => by rw [hcut]; exact h.cut x⟩
    refine ⟨?_, hnext⟩
    rw [Operation.pairs, List.append_nil]
    · exact hsame
    · nofun
  | root | besideAnotherCut =>
    refine ⟨?_, hcurrent⟩
    rw [Operation.pairs, List.append_nil]
    · exact h
    · nofun

/-- **Connected components**, however the graph is fed and asked. -/
theorem answers_of_run (initial : List (MatchPair α)) (operations : List (Operation α)) (id : α) :
    let g := operations.foldl apply (create initial)
    let pairs := initial ++ operations.flatMap Operation.pairs
    (∀ turns, g.parent.keys.length < turns →
        climb (up g.parent) turns id = some (g.root id)) ∧
      (g.members id).1.Pairwise (· < ·) ∧ (∀ x, x ∈ (g.members id).1 ↔ Connected pairs id x) ∧
      (g.besideAnotherCut id = true ↔ InConflict pairs id) := by
  have key : ∀ (operations : List (Operation α)) (pairs : List (MatchPair α)) (g : MatchGraph α),
      g.Represents pairs → g.Current →
      (operations.foldl apply g).Represents (pairs ++ operations.flatMap Operation.pairs) ∧
        (operations.foldl apply g).Current := by
    intro operations
    induction operations with
    | nil =>
      intro pairs g h hcurrent
      simpa using ⟨h, hcurrent⟩
    | cons operation operations ih =>
      intro pairs g h hcurrent
      obtain ⟨h, hcurrent⟩ := represents_apply h hcurrent operation
      have hrest := ih _ _ h hcurrent
      rwa [List.append_assoc] at hrest
  have hcreate : (create initial).Represents initial := represents_empty.absorb initial
  obtain ⟨h, hcurrent⟩ :=
    key operations initial _ hcreate (current_foldl_absorbPair initial rfl)
  obtain ⟨hsorted, hmem⟩ := members_spec h hcurrent id
  refine ⟨fun turns hturns => climb_eq_root h.acyclic (within_up _) hturns id, hsorted, hmem, ?_⟩
  rw [besideAnotherCut, decide_eq_true_eq]
  exact h.cut id

end

end MatchGraph

end MediaCenterSync.Grouping
