import MediaCenterSync.Releases.Plan

/-!
# Suggestions keep both orders

The second sort is by the standing of an offer, its kind and how many gaps it closes, and keeps the
order of what ties in all of them.  So every rule about the kinds and about the lines of the trackers
holds; but two peer copies are not offered nearest first when the one further away closes more gaps.
They are exactly when no copy closes more gaps than a nearer one: `keepsBoth_iff`.
-/

namespace MediaCenterSync.Releases

open Comparator

/-! ### The comparators -/

theorem lawful_comparePeerCopies : Lawful comparePeerCopies := by
  have hsize := lawful_key_desc fun c : PeerCopy => ((c.size.getD 0 : ℕ) : ℤ)
  have hrank := hsize.orElse_key fun c => (resolutionRank c.quality : ℤ)
  have hfills := hrank.orElse_key_desc fun c => (c.fills.length : ℤ)
  exact hfills.orElse_key fun c => (originDistance c.origin : ℤ)

theorem lawful_compareSuggestions : Lawful compareSuggestions := by
  have hgaps := lawful_key_desc fun one : ReleaseSuggestion => (one.gapsOf : ℤ)
  have hkind := hgaps.orElse_key fun one => (one.isIndexer.toNat : ℤ)
  have hcovers := hkind.orElse_key fun one =>
    ((!one.bringsNothing && one.coversNoGap).toNat : ℤ)
  have hbrings := hcovers.orElse_key fun one => (one.bringsNothing.toNat : ℤ)
  exact hbrings.orElse_key fun one => (one.isOffTarget.toNat : ℤ)

/-! ### The second sort -/

/-- The bands of the list, from its head to its end: what covers a gap, what covers none, what
brings nothing, and what is off target. -/
def ReleaseSuggestion.standing (one : ReleaseSuggestion) : ℕ :=
  if one.isOffTarget then 3 else if one.bringsNothing then 2 else if one.coversNoGap then 1 else 0

variable {copies : List PeerCopy} {groups : List ReleaseGroup} {left right : ReleaseSuggestion}

/-- What comes first is of no later band, and in a band of no later kind. -/
theorem standing_le (h : compareSuggestions left right ≤ 0) : left.standing ≤ right.standing := by
  unfold compareSuggestions at h
  simp only [orElse_le_iff] at h
  unfold ReleaseSuggestion.standing
  revert h
  cases left.isOffTarget <;> cases right.isOffTarget <;> cases left.bringsNothing <;>
    cases right.bringsNothing <;> cases left.coversNoGap <;> cases right.coversNoGap <;> simp

/-- In the band of what covers a gap, the peers come first and then what closes more gaps. -/
theorem compareSuggestions_top (hleft : left.standing = 0) (hright : right.standing = 0) :
    compareSuggestions left right =
      orElse ((left.isIndexer.toNat : ℤ) - right.isIndexer.toNat)
        ((right.gapsOf : ℤ) - left.gapsOf) := by
  have hzero : ∀ one : ReleaseSuggestion, one.standing = 0 →
      one.isOffTarget = false ∧ one.bringsNothing = false ∧ one.coversNoGap = false := by
    intro one
    unfold ReleaseSuggestion.standing
    cases one.isOffTarget <;> cases one.bringsNothing <;> cases one.coversNoGap <;> simp
  obtain ⟨hoff, hbrings, hcovers⟩ := hzero left hleft
  obtain ⟨hoff', hbrings', hcovers'⟩ := hzero right hright
  simp [compareSuggestions, hoff, hoff', hbrings, hbrings', hcovers, hcovers', orElse]

theorem standing_peer {copy : PeerCopy} (h : copy.fills ≠ []) :
    (ReleaseSuggestion.peer copy).standing = 0 := by
  simp [ReleaseSuggestion.standing, ReleaseSuggestion.isOffTarget, ReleaseSuggestion.bringsNothing,
    ReleaseSuggestion.coversNoGap, h]

theorem gaps_le {c d : PeerCopy} (hc : c.fills ≠ []) (hd : d.fills ≠ [])
    (h : compareSuggestions (.peer c) (.peer d) ≤ 0) : d.fills.length ≤ c.fills.length := by
  rw [compareSuggestions_top (standing_peer hc) (standing_peer hd), orElse_le_iff] at h
  have hkind : (ReleaseSuggestion.peer c).isIndexer = (ReleaseSuggestion.peer d).isIndexer := rfl
  have hgaps : (((ReleaseSuggestion.peer d).gapsOf : ℤ) - (ReleaseSuggestion.peer c).gapsOf) =
      (d.fills.length : ℤ) - c.fills.length := rfl
  rw [hkind, hgaps] at h
  omega

/-! ### The property -/

structure KeepsBoth (copies : List PeerCopy) (groups : List ReleaseGroup)
    (result : List ReleaseSuggestion) : Prop where
  /-- Every copy and every line, exactly once. -/
  perm : result.Perm (copies.map .peer ++ groups.map .indexer)
  bands : result.Pairwise fun left right => left.standing ≤ right.standing
  peersFirst : result.Pairwise fun left right =>
    left.standing = 0 → right.standing = 0 → left.isIndexer → right.isIndexer
  /-- Of the copies that close a gap, none is in front of one that is to be offered before it. -/
  nearest : result.Pairwise fun left right => ∀ c d, left = .peer c → right = .peer d →
    c.fills ≠ [] → d.fills ≠ [] → comparePeerCopies c d ≤ 0
  /-- The lines that close equally many gaps, among those that are on target or not and held or
  not, are as they arrived. -/
  asArrived : ∀ gaps offTarget heldAlready,
    result.filter (fun one => one.isIndexer ∧ one.gapsOf = gaps ∧ one.isOffTarget = offTarget ∧
        one.bringsNothing = heldAlready) =
      (groups.filter fun group => group.fills.length = gaps ∧ group.offTarget = offTarget ∧
        group.heldAlready = heldAlready).map .indexer

theorem perm_orderSuggestions (copies : List PeerCopy) (groups : List ReleaseGroup) :
    (orderSuggestions copies groups).Perm (copies.map .peer ++ groups.map .indexer) :=
  (sort_perm _ _).trans (((sort_perm _ copies).map _).append_right _)

theorem pairwise_orderSuggestions (copies : List PeerCopy) (groups : List ReleaseGroup) :
    (orderSuggestions copies groups).Pairwise fun left right => compareSuggestions left right ≤ 0 :=
  pairwise_sort lawful_compareSuggestions _

theorem filter_orderSuggestions {p : ReleaseSuggestion → Bool}
    (hties : ∀ a b, p a → p b → compareSuggestions a b ≤ 0) :
    (orderSuggestions copies groups).filter p = (listed copies groups).filter p :=
  filter_sort lawful_compareSuggestions hties

theorem asArrived_orderSuggestions (gaps : ℕ) (offTarget heldAlready : Bool) :
    (orderSuggestions copies groups).filter (fun one => one.isIndexer ∧ one.gapsOf = gaps ∧
        one.isOffTarget = offTarget ∧ one.bringsNothing = heldAlready) =
      (groups.filter fun group => group.fills.length = gaps ∧ group.offTarget = offTarget ∧
        group.heldAlready = heldAlready).map .indexer := by
  rw [filter_orderSuggestions fun a b ha hb => ?_]
  · rw [listed, List.filter_append, List.filter_map, List.filter_map]
    have hpeers : (sort comparePeerCopies copies).filter ((fun one : ReleaseSuggestion =>
        decide (one.isIndexer ∧ one.gapsOf = gaps ∧ one.isOffTarget = offTarget ∧
          one.bringsNothing = heldAlready)) ∘ .peer) = [] := by
      refine List.filter_eq_nil_iff.mpr fun copy _ => ?_
      simp [ReleaseSuggestion.isIndexer]
    rw [hpeers, List.map_nil, List.nil_append]
    congr 1
    refine List.filter_congr fun group _ => ?_
    simp [ReleaseSuggestion.isIndexer, ReleaseSuggestion.gapsOf, ReleaseSuggestion.isOffTarget,
      ReleaseSuggestion.bringsNothing]
  · obtain ⟨ha, hgaps, hoff, hheld⟩ := of_decide_eq_true ha
    obtain ⟨hb, hgaps', hoff', hheld'⟩ := of_decide_eq_true hb
    have hcovers : a.coversNoGap = b.coversNoGap := by
      cases a <;> cases b <;>
        simp_all [ReleaseSuggestion.coversNoGap, ReleaseSuggestion.gapsOf]
    have heq : compareSuggestions a b = 0 := by
      simp [compareSuggestions, ha, hb, hgaps, hgaps', hoff, hoff', hheld, hheld', hcovers, orElse]
    exact heq.le

/-- Peer copies that close equally many gaps keep the order of `comparePeerCopies`. -/
theorem nearest_of_gaps (gaps : ℕ) :
    ((orderSuggestions copies groups).filter fun one => !one.isIndexer ∧ one.gapsOf = gaps).Pairwise
      fun left right => ∀ c d, left = .peer c → right = .peer d → comparePeerCopies c d ≤ 0 := by
  rw [filter_orderSuggestions fun a b ha hb => ?_]
  · have hpeers : ((sort comparePeerCopies copies).map ReleaseSuggestion.peer).Pairwise
        fun left right => ∀ c d, left = .peer c → right = .peer d → comparePeerCopies c d ≤ 0 := by
      refine List.pairwise_map.mpr ((pairwise_sort lawful_comparePeerCopies copies).imp ?_)
      rintro c d hle _ _ ⟨⟩ ⟨⟩
      exact hle
    have hlines : (groups.map ReleaseSuggestion.indexer).filter
        (fun one => decide (!one.isIndexer ∧ one.gapsOf = gaps)) = [] := by
      refine List.filter_eq_nil_iff.mpr fun one hone => ?_
      obtain ⟨group, -, rfl⟩ := List.mem_map.mp hone
      simp [ReleaseSuggestion.isIndexer]
    rw [listed, List.filter_append, hlines, List.append_nil]
    exact hpeers.sublist List.filter_sublist
  · obtain ⟨ha, hgaps⟩ := of_decide_eq_true ha
    obtain ⟨hb, hgaps'⟩ := of_decide_eq_true hb
    cases a with
    | indexer group => simp [ReleaseSuggestion.isIndexer] at ha
    | peer c =>
      cases b with
      | indexer group => simp [ReleaseSuggestion.isIndexer] at hb
      | peer d =>
        have hlength : c.fills.length = d.fills.length := hgaps.trans hgaps'.symm
        have heq : compareSuggestions (.peer c) (.peer d) = 0 := by
          simp [compareSuggestions, ReleaseSuggestion.isOffTarget, ReleaseSuggestion.bringsNothing,
            ReleaseSuggestion.coversNoGap, ReleaseSuggestion.isIndexer, ReleaseSuggestion.gapsOf,
            hlength, orElse]
        exact heq.le

/-- The second sort puts the copy that closes more gaps first, wherever the two copies are. -/
theorem KeepsBoth.length_le (h : KeepsBoth copies groups (orderSuggestions copies groups))
    {c d : PeerCopy} (hc : c ∈ copies) (hd : d ∈ copies) (hfills : c.fills ≠ [])
    (hnear : originDistance c.origin < originDistance d.origin) :
    d.fills.length ≤ c.fills.length := by
  by_contra hmore
  have hmem : ∀ e ∈ copies, ReleaseSuggestion.peer e ∈ orderSuggestions copies groups :=
    fun e he => h.perm.mem_iff.mpr (List.mem_append_left _ (List.mem_map_of_mem he))
  have hfills' : d.fills ≠ [] := by
    rintro hnil
    simp [hnil] at hmore
  have hne : ReleaseSuggestion.peer c ≠ .peer d := by
    rintro ⟨⟩
    exact hmore (le_refl _)
  have hsorted := pairwise_orderSuggestions copies groups
  -- One of the two is in front of the other, and neither may be.
  rcases pairwise_or (hsorted.and h.nearest) (hmem c hc) (hmem d hd) hne with ⟨hle, -⟩ | ⟨-, hle⟩
  · exact hmore (gaps_le hfills hfills' hle)
  · have hle := hle d c rfl rfl hfills' hfills
    rw [comparePeerCopies, orElse_le_iff] at hle
    omega

/-- **Suggestions keep both orders**, exactly when no peer copy closes more gaps than a nearer one
that closes any. -/
theorem keepsBoth_iff (copies : List PeerCopy) (groups : List ReleaseGroup) :
    KeepsBoth copies groups (orderSuggestions copies groups) ↔
      ∀ c ∈ copies, ∀ d ∈ copies, c.fills ≠ [] →
        originDistance c.origin < originDistance d.origin → d.fills.length ≤ c.fills.length := by
  have hperm := perm_orderSuggestions copies groups
  have hsorted := pairwise_orderSuggestions copies groups
  constructor
  · exact fun h c hc d hd => h.length_le hc hd
  · intro h
    refine ⟨hperm, hsorted.imp standing_le, ?_, ?_, asArrived_orderSuggestions⟩
    · refine hsorted.imp fun {left right} hle hleft hright hindexer => ?_
      rw [compareSuggestions_top hleft hright, orElse_le_iff, hindexer] at hle
      cases hkind : right.isIndexer with
      | true => rfl
      | false => simp [hkind] at hle
    · refine List.pairwise_iff_forall_sublist.mpr ?_
      rintro left right hpair c d rfl rfl hc hd
      have hle := gaps_le hc hd (hsorted.forall_sublist hpair)
      have hmem : ∀ e : PeerCopy, .peer e ∈ orderSuggestions copies groups → e ∈ copies := by
        intro e he
        rcases List.mem_append.mp (hperm.mem_iff.mp he) with he | he
        · obtain ⟨_, he, ⟨⟩⟩ := List.mem_map.mp he
          exact he
        · obtain ⟨_, -, heq⟩ := List.mem_map.mp he
          cases heq
      have hcin := hmem c (hpair.subset (by simp))
      have hdin := hmem d (hpair.subset (by simp))
      by_cases hgaps : d.fills.length = c.fills.length
      · -- The second sort has nothing to say.
        have hboth := hpair.filter fun one => decide (!one.isIndexer ∧ one.gapsOf = c.fills.length)
        have hkept : [ReleaseSuggestion.peer c, .peer d].filter
            (fun one => decide (!one.isIndexer ∧ one.gapsOf = c.fills.length)) =
              [.peer c, .peer d] := by
          simp [ReleaseSuggestion.isIndexer, ReleaseSuggestion.gapsOf, hgaps]
        rw [hkept] at hboth
        exact (nearest_of_gaps c.fills.length).forall_sublist hboth c d rfl rfl
      · have hnear : ¬ originDistance d.origin < originDistance c.origin := by
          intro hnear
          have hfew := h d hdin c hcin hd hnear
          omega
        rw [comparePeerCopies, orElse_le_iff, orElse_le_iff]
        omega

def ownServer : PeerCopy where
  id := "peer:own:4"
  itemIds := ["o1"]
  origin := .DIRECT
  size := none
  quality := none
  fills := [⟨"e1", some 4, some 1, "One"⟩]

def stranger : PeerCopy where
  id := "peer:far:4"
  itemIds := ["f1", "f2"]
  origin := .FRIEND_OF_FRIEND
  size := none
  quality := none
  fills := [⟨"e1", some 4, some 1, "One"⟩, ⟨"e2", some 4, some 2, "Two"⟩]

/-- The stranger is offered first. -/
theorem not_keepsBoth_stranger :
    ¬ KeepsBoth [ownServer, stranger] [] (orderSuggestions [ownServer, stranger] []) := by
  intro h
  have hle : stranger.fills.length ≤ ownServer.fills.length :=
    h.length_le (by simp) (by simp) (by decide) (by decide)
  exact absurd hle (by decide)

end MediaCenterSync.Releases
