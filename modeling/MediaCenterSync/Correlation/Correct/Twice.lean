import MediaCenterSync.Correlation.Correct.Parents
import MediaCenterSync.Correlation.Correct.Revocation

/-!
# A pass run twice

A visit reads of the matched parents only those of the item's *kin*: the items of its kind, season
and, for an episode, number (`score_congr`, `mem_candidatesFor_iff`).  Where each visit of a pass
leaves joined, among the pairs some visit asks about, just those it leaves linked, and links none
that has been asked about before (`KeepsStep`), the links a visit finds are what the table joins
when the pass is over (`parentsAgree_of_keepsStep`).  Where none meets a divided pair either, a
second pass goes in step with the first (`Echoes`): each of its visits proposes what the first
proposed of the item, finds it on record, and revokes nothing.
-/

namespace MediaCenterSync.Correlation

open Matching

/-- The items whose parents a visit asks about. -/
def MediaItem.Kin (item other : MediaItem) : Prop :=
  other.kind = item.kind ∧ item.seasonNumber ≠ none ∧ other.seasonNumber = item.seasonNumber ∧
    (item.kind = .EPISODE → other.episodeNumber = item.episodeNumber)

instance (item other : MediaItem) : Decidable (item.Kin other) :=
  inferInstanceAs (Decidable (_ ∧ _))

/-- What a row stated: whom it joins, on what ground and how surely. -/
def MediaMatch.said (row : MediaMatch) : Option String × String × MatchStrategy × ℚ :=
  (row.localItemId, row.remoteItemId, row.strategy, row.confidence)

def stated (claim : MatchProposal) : Option String × String × MatchStrategy × ℚ :=
  (some claim.localItemId, claim.remoteItemId, claim.strategy, claim.confidence)

theorem said_upsertPair {t : MatchTable} {claim : MatchProposal}
    (h : stated claim ∈ t.rows.map (·.said)) :
    (t.upsertPair claim).rows.map (·.said) = t.rows.map (·.said) := by
  obtain ⟨row, hrow, hsaid⟩ := List.mem_map.mp h
  have hfor : row.isFor claim.localItemId claim.remoteItemId := by
    simp only [MediaMatch.said, stated, Prod.mk.injEq] at hsaid
    simp [MediaMatch.isFor, hsaid]
  unfold MatchTable.upsertPair
  split
  · next hnone =>
    rw [hnone row hrow] at hfor
    cases hfor
  · rw [List.map_map]
    refine List.map_congr_left fun old hold => ?_
    rw [Function.comp_apply]
    unfold MatchTable.rewrite
    split
    · next hsame =>
      rw [MatchTable.eq_of_isFor hold hrow hsame hfor, hsaid]
      rfl
    · rfl

theorem said_foldl_upsertPair {claimed : List MatchProposal} {t : MatchTable}
    (h : ∀ p ∈ claimed, stated p ∈ t.rows.map (·.said)) :
    (claimed.foldl MatchTable.upsertPair t).rows.map (·.said) = t.rows.map (·.said) := by
  induction claimed generalizing t with
  | nil => rfl
  | cons claim claimed ih =>
    have hclaim := said_upsertPair (h claim List.mem_cons_self)
    rw [List.foldl_cons, ih fun p hp => hclaim ▸ h p (List.mem_cons_of_mem _ hp), hclaim]

theorem mem_foldl_upsertPair_of_mem {claimed : List MatchProposal} {t : MatchTable}
    {row : MediaMatch}
    (hrow : row ∈ t.rows)
    (h : ∀ p ∈ claimed, row.isFor p.localItemId p.remoteItemId = false) :
    row ∈ (claimed.foldl MatchTable.upsertPair t).rows := by
  induction claimed generalizing t with
  | nil => exact hrow
  | cons claim claimed ih =>
    refine ih ?_ fun p hp => h p (List.mem_cons_of_mem _ hp)
    have hsame : MatchTable.rewrite claim row = row := by
      unfold MatchTable.rewrite
      rw [h claim List.mem_cons_self]
      rfl
    exact hsame ▸ mem_upsertPair_of_mem hrow

theorem exists_stated {claimed : List MatchProposal} (t : MatchTable)
    (h : claimed.Pairwise fun p q => p.remoteItemId ≠ q.remoteItemId) {claim : MatchProposal}
    (hclaim : claim ∈ claimed) :
    ∃ row ∈ (claimed.foldl MatchTable.upsertPair t).rows, row.said = stated claim := by
  induction claimed generalizing t with
  | nil => cases hclaim
  | cons first claimed ih =>
    obtain ⟨hfirst, hrest⟩ := List.pairwise_cons.mp h
    rw [List.foldl_cons]
    rcases List.mem_cons.mp hclaim with rfl | hmem
    · have hentry : (t.upsertPair claim).entry claim.localItemId claim.remoteItemId =
          some (MatchTable.write t.next claim (t.entry claim.localItemId claim.remoteItemId)) := by
        rw [MatchTable.entry_upsertPair, if_pos (by simp [claims])]
      obtain ⟨hrow, hfor⟩ := MatchTable.entry_eq_some.mp hentry
      refine ⟨_, mem_foldl_upsertPair_of_mem hrow fun p hp => ?_, ?_⟩
      · simp only [MediaMatch.isFor, decide_eq_true_eq] at hfor
        simpa [MediaMatch.isFor, hfor] using fun _ => hfirst p hp
      · cases t.entry claim.localItemId claim.remoteItemId with
        | none => rfl
        | some row => rfl
    · exact ih (t.upsertPair first) hrest hmem

namespace Context

section

variable (toLowerCase : String → String) (ctx : Context)

/-- The two tables of links agree on the parents of the item and of its kin. -/
def ParentsAgree (item : MediaItem) (linked linked' : String → String → Prop) : Prop :=
  ∀ other ∈ ctx.library.catalogue, item.Kin other →
    ∀ a ∈ item.parentId, ∀ b ∈ other.parentId, linked a b ↔ linked' a b

instance (item : MediaItem) (linked linked' : String → String → Prop)
    [∀ a b, Decidable (linked a b)] [∀ a b, Decidable (linked' a b)] :
    Decidable (ctx.ParentsAgree item linked linked') :=
  inferInstanceAs (Decidable (∀ other ∈ ctx.library.catalogue, item.Kin other →
    ∀ a ∈ item.parentId, ∀ b ∈ other.parentId, (linked a b ↔ linked' a b)))

/-- The pairs of parents a visit of the item asks about. -/
def asked (item : MediaItem) : List (String × String) :=
  ctx.library.catalogue.filterMap fun other => do
    let a ← item.parentId
    let b ← other.parentId
    if item.Kin other then some (a, b) else none

/-- Of the pairs the visits ask about, each visit leaves joined what it leaves linked, and it links
none that it, or a visit before it, has asked about. -/
structure KeepsStep (visits : List (Walk × MediaItem)) : Prop where
  joined : ∀ v ∈ visits, ∀ asker ∈ visits, ∀ pair ∈ ctx.asked asker.2,
    v.2.id = pair.1 ∨ v.2.id = pair.2 →
      (ctx.Linked toLowerCase v.1 v.2 pair.1 pair.2 ↔
        ctx.StaysJoined toLowerCase v.1 v.2 pair.1 pair.2)
  own : ∀ v ∈ visits, ∀ pair ∈ ctx.asked v.2,
    ctx.Linked toLowerCase v.1 v.2 pair.1 pair.2 → pair ∈ v.1.parentMatches
  later : visits.Pairwise fun asker v => ∀ pair ∈ ctx.asked asker.2,
    ctx.Linked toLowerCase v.1 v.2 pair.1 pair.2 → pair ∈ v.1.parentMatches

/-- The links of the walk say of the two what its table says. -/
def InStep (w : Walk) (pair : String × String) : Prop :=
  pair ∈ w.parentMatches ↔ w.table.Joined ctx.threshold pair.1 pair.2

/-- What is proposed of two items before a person's decision is restored. -/
def assessed (links : Links) (item other : MediaItem) : Option MatchProposal :=
  (score toLowerCase (ctx.candidate item) (ctx.candidate other)
    (ctx.options links)).map fun scored =>
    ctx.overruleMislabelled item
      (toProposal toLowerCase (ctx.candidate item) (ctx.candidate other) scored (ctx.options links))

end

variable {toLowerCase : String → String} {ctx : Context} {item other : MediaItem}

/-! ### What a visit reads of the parents -/

theorem underMatchedParents_congr {left right : MatchCandidate} {options options' : MatchOptions}
    (h : ∀ a ∈ left.parentId, ∀ b ∈ right.parentId,
      (a, b) ∈ options.parentMatches ↔ (a, b) ∈ options'.parentMatches) :
    underMatchedParents left right options = underMatchedParents left right options' := by
  unfold underMatchedParents Links.has
  split
  · next a b ha hb => rw [decide_eq_decide.mpr (h a ha b hb)]
  · rfl

theorem score_congr {links links' : Links}
    (h : item.Kin other →
      ∀ a ∈ item.parentId, ∀ b ∈ other.parentId, (a, b) ∈ links ↔ (a, b) ∈ links') :
    score toLowerCase (ctx.candidate item) (ctx.candidate other) (ctx.options links) =
      score toLowerCase (ctx.candidate item) (ctx.candidate other) (ctx.options links') := by
  unfold score
  by_cases hkind : item.kind = other.kind
  · have hunder : item.Kin other → underMatchedParents (ctx.candidate item) (ctx.candidate other)
        (ctx.options links) = underMatchedParents (ctx.candidate item) (ctx.candidate other)
          (ctx.options links') := fun hkin => underMatchedParents_congr (h hkin)
    have hnumbers : seasonEpisodeMatch (ctx.candidate item) (ctx.candidate other)
        (ctx.options links) = seasonEpisodeMatch (ctx.candidate item) (ctx.candidate other)
          (ctx.options links') := by
      unfold seasonEpisodeMatch
      by_cases hkin : item.Kin other
      · rw [hunder hkin]
      · simp only [MediaItem.Kin, hkind, true_and, ne_eq, not_and] at hkin
        simp only [candidate, Correlation.candidate]
        grind
    have htitle : titleMatch (ctx.candidate item) (ctx.candidate other)
        (ctx.options links) = titleMatch (ctx.candidate item) (ctx.candidate other)
          (ctx.options links') := by
      have harithmetic : (ctx.options links).arithmetic = (ctx.options links').arithmetic := rfl
      unfold titleMatch
      rw [harithmetic]
      by_cases hkin : item.Kin other
      · rw [hunder hkin]
      · simp only [MediaItem.Kin, hkind, true_and, ne_eq, not_and] at hkin
        simp only [candidate, Correlation.candidate]
        grind
    rw [hnumbers, htitle]
    rfl
  · have hkinds : (ctx.candidate item).kind ≠ (ctx.candidate other).kind := hkind
    rw [if_pos hkinds, if_pos hkinds]

theorem mem_underMatchedParentOf_iff {links : Links} :
    other ∈ ctx.underMatchedParentOf item links ↔ other ∈ ctx.library.catalogue ∧
      (∃ a ∈ item.parentId, ∃ b ∈ other.parentId, (a, b) ∈ links) ∧ other.seasonNumber ≠ none ∧
        other.seasonNumber = item.seasonNumber ∧ other.episodeNumber = item.episodeNumber ∧
          other.serviceId ≠ item.serviceId ∧ other.kind = item.kind := by
  unfold underMatchedParentOf
  cases item.parentId with
  | none => simp
  | some a =>
    simp only [childrenOf, Links.get, List.mem_filter, List.mem_flatMap, List.mem_map,
      decide_eq_true_eq]
    constructor
    · rintro ⟨⟨b, ⟨⟨a', b'⟩, ⟨hlinked, rfl⟩, rfl⟩, hmem, hparent⟩, hsame⟩
      exact ⟨hmem, ⟨a', rfl, b', hparent, hlinked⟩, hsame⟩
    · rintro ⟨hmem, ⟨a', ha', b, hparent, hlinked⟩, hsame⟩
      obtain rfl := Option.mem_some.mp ha'
      exact ⟨⟨b, ⟨(a, b), ⟨hlinked, rfl⟩, rfl⟩, hmem, hparent⟩, hsame⟩

theorem mem_candidatesFor_congr {links links' : Links}
    (h : ctx.ParentsAgree item (fun a b => (a, b) ∈ links) fun a b => (a, b) ∈ links') :
    other ∈ ctx.candidatesFor item links ↔ other ∈ ctx.candidatesFor item links' := by
  have hunder : other ∈ ctx.underMatchedParentOf item links ↔
      other ∈ ctx.underMatchedParentOf item links' := by
    rw [mem_underMatchedParentOf_iff, mem_underMatchedParentOf_iff]
    refine and_congr_right fun hmem => and_congr_left fun hsame => ?_
    obtain ⟨hnumber, hseason, hepisode, -, hkind⟩ := hsame
    have hkin : item.Kin other := ⟨hkind, hseason ▸ hnumber, hseason, fun _ => hepisode⟩
    refine exists_congr fun a => and_congr_right fun ha => exists_congr fun b =>
      and_congr_right fun hb => h other hmem hkin a ha b hb
  rw [mem_candidatesFor_iff, mem_candidatesFor_iff, List.mem_append,
    List.mem_append (t := ctx.underMatchedParentOf item links'), hunder]

theorem mem_proposals_iff {w : Walk} {p : MatchProposal} :
    p ∈ ctx.proposals toLowerCase w item ↔ ∃ other ∈ ctx.candidatesFor item w.parentMatches,
      ∃ q ∈ ctx.assessed toLowerCase w.parentMatches item other,
        p = ctx.respectHumanDecision item w.settled q := by
  constructor
  · intro hp
    obtain ⟨other, hother, -, scored, hscore, rfl⟩ := mem_proposals hp
    refine ⟨other, hother, _, ?_, rfl⟩
    unfold assessed
    rw [hscore]
    rfl
  · rintro ⟨other, hother, q, hq, rfl⟩
    obtain ⟨scored, hscore, rfl⟩ := Option.map_eq_some_iff.mp hq
    unfold proposals
    refine List.mem_map_of_mem (List.mem_map_of_mem ?_)
    have hids :
        (((ctx.candidatesFor item w.parentMatches).map ctx.candidate).map (·.id)).Nodup := by
      rw [List.map_map]
      exact nodup_onceById _
    refine (mem_correlate_iff hids).mpr ⟨ctx.candidate other, List.mem_map_of_mem hother, ?_,
      scored, hscore, rfl⟩
    exact (mem_candidatesFor_iff.mp hother).1

/-- **Two visits of an item propose the same**, where they find the same parents of its kin linked
and the same decided of what they propose. -/
theorem mem_proposals_congr {w w' : Walk} {p : MatchProposal}
    (hparents : ctx.ParentsAgree item (fun a b => (a, b) ∈ w.parentMatches)
      fun a b => (a, b) ∈ w'.parentMatches)
    (hdecides : ∀ p ∈ ctx.proposals toLowerCase w item,
      decision w'.settled item.id p.remoteItemId = decision w.settled item.id p.remoteItemId) :
    p ∈ ctx.proposals toLowerCase w' item ↔ p ∈ ctx.proposals toLowerCase w item := by
  rw [mem_proposals_iff, mem_proposals_iff]
  refine exists_congr fun other => ?_
  rw [← mem_candidatesFor_congr hparents]
  refine and_congr_right fun hother => ?_
  have hassessed : ctx.assessed toLowerCase w'.parentMatches item other =
      ctx.assessed toLowerCase w.parentMatches item other := by
    unfold assessed
    rw [score_congr fun hkin => hparents other (mem_candidatesFor hother) hkin]
    rfl
  rw [hassessed]
  refine exists_congr fun q => and_congr_right fun hq => ?_
  have hsame := hdecides _ (mem_proposals_iff.mpr ⟨other, hother, q, hq, rfl⟩)
  rw [remoteItemId_respect] at hsame
  rw [respectHumanDecision_eq, respectHumanDecision_eq, hsame]

/-! ### In step -/

/-- What the table `t` a first pass leaves makes of one of its visits. -/
structure Repeats (toLowerCase : String → String) (ctx : Context) (t : MatchTable) (w : Walk)
    (item : MediaItem) : Prop where
  said : ∀ p ∈ ctx.proposals toLowerCase w item, stated p ∈ t.rows.map (·.said)
  decides : ∀ p ∈ ctx.proposals toLowerCase w item,
    decision t.rows item.id p.remoteItemId = decision w.settled item.id p.remoteItemId
  spares : ∀ row ∈ t.rows, row.touches item.id → ctx.revokes toLowerCase item row = false
  parents : ctx.ParentsAgree item (fun a b => (a, b) ∈ w.parentMatches) (t.Joined ctx.threshold)

/-- The second pass, from the table `t` on, is where the first was. -/
structure Echoes (ctx : Context) (t : MatchTable) (w w' : Walk) : Prop where
  settled : w'.settled = t.rows
  said : w'.table.rows.map (·.said) = t.rows.map (·.said)
  linked : ∀ a b, (a, b) ∈ w'.parentMatches → t.Joined ctx.threshold a b ∨ (a, b) ∈ w.parentMatches
  joined : ∀ a b, t.Joined ctx.threshold a b → (a, b) ∈ w'.parentMatches
  touched : ∀ id, id ∈ w'.touched ↔ id ∈ w.touched

theorem Echoes.start (table t : MatchTable) :
    Echoes ctx t (start ctx table) (start ctx t) where
  settled := rfl
  said := rfl
  linked _ _ hab := .inl (mem_adjacency.mp hab)
  joined _ _ hab := mem_adjacency.mpr hab
  touched _ := Iff.rfl

variable {t : MatchTable} {w w' : Walk} {touch : Bool}

theorem Echoes.proposals (h : Echoes ctx t w w') (hrepeats : Repeats toLowerCase ctx t w item)
    {p : MatchProposal} :
    p ∈ ctx.proposals toLowerCase w' item ↔ p ∈ ctx.proposals toLowerCase w item := by
  refine mem_proposals_congr (fun other hother hkin a ha b hb => ?_) ?_
  · have hjoined := hrepeats.parents other hother hkin a ha b hb
    constructor
    · exact fun hlinked => h.joined a b (hjoined.mp hlinked)
    · exact fun hlinked => (h.linked a b hlinked).elim hjoined.mpr id
  · rw [h.settled]
    exact hrepeats.decides

theorem Echoes.revoked (h : Echoes ctx t w w') (hrepeats : Repeats toLowerCase ctx t w item) :
    ctx.revoked toLowerCase w' item = [] := by
  unfold Context.revoked
  rw [List.map_eq_nil_iff, List.filter_eq_nil_iff, h.settled]
  intro row hrow
  obtain ⟨hmem, htouches⟩ := List.mem_filter.mp hrow
  rw [hrepeats.spares row hmem htouches]
  exact Bool.false_ne_true

theorem Echoes.correlateItem (h : Echoes ctx t w w') (hrepeats : Repeats toLowerCase ctx t w item) :
    Echoes ctx t (ctx.correlateItem toLowerCase touch w item)
      (ctx.correlateItem toLowerCase touch w' item) := by
  obtain ⟨hrows, -, hsettled⟩ := @correlateItem_spec toLowerCase ctx w' item touch
  have hall : ∀ rows : List MediaMatch,
      rows.filter (·.id ∉ ctx.revoked toLowerCase w' item) = rows := by
    intro rows
    rw [h.revoked hrepeats]
    exact List.filter_eq_self.mpr fun row _ => by simp
  rw [hall] at hrows hsettled
  refine ⟨hsettled.trans h.settled, ?_, fun a b hab => ?_, fun a b hab => ?_, fun id => ?_⟩
  · rw [hrows, ← h.said]
    refine said_foldl_upsertPair fun p hp => ?_
    rw [h.said]
    exact hrepeats.said p ((h.proposals hrepeats).mp hp)
  · rw [mem_parentMatches_correlateItem] at hab ⊢
    rcases hab with hold | ⟨p, hp, happlied⟩
    · exact (h.linked a b hold).imp_right .inl
    · obtain ⟨hp, hclaims⟩ := List.mem_filter.mp hp
      have hp' := (h.proposals hrepeats).mp hp
      exact .inr (.inr ⟨p, List.mem_filter.mpr ⟨hp', hclaims⟩, happlied⟩)
  · rw [mem_parentMatches_correlateItem]
    exact .inl (h.joined a b hab)
  · rw [touched_correlateItem, touched_correlateItem]
    cases touch with
    | false => exact h.touched id
    | true =>
      simp only [if_true, List.mem_append, List.mem_map, h.touched, h.proposals hrepeats]

theorem Echoes.walkAlong {vs : List (Bool × MediaItem)} (h : Echoes ctx t w w')
    (hrepeats : ∀ v ∈ ctx.visitsFrom toLowerCase w vs, Repeats toLowerCase ctx t v.1 v.2) :
    Echoes ctx t (ctx.walkAlong toLowerCase w vs) (ctx.walkAlong toLowerCase w' vs) := by
  induction vs generalizing w w' with
  | nil => exact h
  | cons v vs ih =>
    rw [visitsFrom, List.forall_mem_cons] at hrepeats
    rw [walkAlong_cons, walkAlong_cons]
    exact ih (h.correlateItem hrepeats.1) hrepeats.2

/-! ### What the first pass leaves of a visit -/

theorem pairwise_proposals :
    (ctx.proposals toLowerCase w item).Pairwise fun p q => p.remoteItemId ≠ q.remoteItemId := by
  have hids : (((ctx.candidatesFor item w.parentMatches).map ctx.candidate).map (·.id)).Nodup := by
    rw [List.map_map]
    exact nodup_onceById _
  have hnodup :=
    @nodup_correlate toLowerCase (ctx.candidate item) (ctx.options w.parentMatches) _ hids
  unfold proposals
  rw [List.pairwise_map, List.pairwise_map]
  simp only [remoteItemId_respect, remoteItemId_overrule]
  exact List.pairwise_map.mp hnodup

variable {a b : MediaItem}

/-- A row of a claimed pair stays as it is while the item it is filed under is not visited. -/
theorem Claimed.keeps {vs : List (Bool × MediaItem)} {row : MediaMatch} (hctx : ctx.TwoWay)
    (ha : a ∈ ctx.library.catalogue) (hb : b ∈ ctx.library.catalogue) (haligned : Aligned w)
    (h : Claimed toLowerCase ctx w a b) (hvs : Peaceful toLowerCase ctx w vs)
    (hother : ∀ v ∈ vs, v.2.id ≠ a.id) (hrow : row ∈ w.table.rows) (hfor : row.isFor a.id b.id) :
    row ∈ (ctx.walkAlong toLowerCase w vs).table.rows := by
  induction vs generalizing w with
  | nil => exact hrow
  | cons v vs ih =>
    obtain ⟨⟨hitem, hundivided⟩, hvs⟩ := peaceful_cons.mp hvs
    rw [List.forall_mem_cons] at hother
    rw [walkAlong_cons]
    refine ih haligned.correlateItem (h.correlateItem haligned hundivided hctx hitem ha hb).1 hvs
      hother.2 ?_
    have hproposed : row ∈ (ctx.proposedTable toLowerCase w v.2).rows := by
      refine mem_foldl_upsertPair_of_mem hrow fun p hp => ?_
      simp only [MediaMatch.isFor, decide_eq_true_eq] at hfor
      simpa [MediaMatch.isFor, hfor, localItemId_of_mem hp] using
        fun hsame => absurd hsame.symm hother.1
    obtain ⟨hrows, -, -⟩ := @correlateItem_spec toLowerCase ctx w v.2 v.1
    rw [hrows]
    refine List.mem_filter.mpr ⟨hproposed, decide_eq_true ?_⟩
    have hjoins : row.joins a.id b.id := by simp [MediaMatch.joins, hfor]
    exact (not_mem_revoked hctx hitem ha hb haligned (h.safe.imp_right (·.1))).2 row
      (mem_pairOf.mpr ⟨hproposed, hjoins⟩)

theorem claimed_of_mem {p : MatchProposal} (hw : Proper toLowerCase ctx w)
    (hitem : item ∈ ctx.library.catalogue) (hundivided : ctx.Undivided toLowerCase w item)
    (hp : p ∈ ctx.proposals toLowerCase w item) : ∃ other ∈ ctx.library.catalogue,
      other.id = p.remoteItemId ∧ Claimed toLowerCase ctx w item other := by
  obtain ⟨other, hother, hid, hvouches, -⟩ := proposals_spec hp
  exact ⟨other, hother, hid, (hw.tracks item hitem other hother).claimed hundivided hother hvouches⟩

/-- What a visit proposes is on record when the visit is over. -/
theorem exists_row_of_mem {p : MatchProposal} (hctx : ctx.TwoWay) (hw : Proper toLowerCase ctx w)
    (hitem : item ∈ ctx.library.catalogue) (hundivided : ctx.Undivided toLowerCase w item)
    (hp : p ∈ ctx.proposals toLowerCase w item) :
    ∃ row ∈ (ctx.correlateItem toLowerCase touch w item).table.rows,
      row.isFor item.id p.remoteItemId ∧ row.said = stated p := by
  obtain ⟨other, hother, hid, hclaimed⟩ := claimed_of_mem hw hitem hundivided hp
  obtain ⟨row, hrow, hsaid⟩ := exists_stated w.table pairwise_proposals hp
  have hfor : row.isFor item.id p.remoteItemId := by
    have hlocal := localItemId_of_mem hp
    simp only [MediaMatch.said, stated, Prod.mk.injEq, hlocal] at hsaid
    simp [MediaMatch.isFor, hsaid]
  have hjoins : row.joins item.id other.id := by simp [MediaMatch.joins, hid, hfor]
  have hspared : row.id ∉ ctx.revoked toLowerCase w item :=
    (not_mem_revoked hctx hitem hitem hother hw.aligned (hclaimed.safe.imp_right (·.1))).2 row
      (mem_pairOf.mpr ⟨hrow, hjoins⟩)
  obtain ⟨hrows, -, -⟩ := @correlateItem_spec toLowerCase ctx w item touch
  rw [hrows]
  exact ⟨row, List.mem_filter.mpr ⟨hrow, decide_eq_true hspared⟩, hfor, hsaid⟩

/-- **What a visit proposes is on record when the pass is over.** -/
theorem stated_of_mem {after : List (Bool × MediaItem)} {p : MatchProposal} (hctx : ctx.TwoWay)
    (hw : Proper toLowerCase ctx w) (hvs : Peaceful toLowerCase ctx w ((touch, item) :: after))
    (hafter : ∀ v ∈ after, v.2.id ≠ item.id) (hp : p ∈ ctx.proposals toLowerCase w item) :
    stated p ∈ (ctx.walkAlong toLowerCase w ((touch, item) :: after)).table.rows.map (·.said) := by
  obtain ⟨⟨hitem, hundivided⟩, hvs⟩ := peaceful_cons.mp hvs
  obtain ⟨other, hother, hid, hclaimed⟩ := claimed_of_mem hw hitem hundivided hp
  obtain ⟨row, hrow, hfor, hsaid⟩ :=
    @exists_row_of_mem toLowerCase ctx item w touch p hctx hw hitem hundivided hp
  rw [← hid] at hfor
  obtain ⟨hnext, -⟩ := @Claimed.correlateItem toLowerCase ctx item w touch item other hclaimed
    hw.aligned hundivided hctx hitem hitem hother
  have haligned : Aligned (ctx.correlateItem toLowerCase touch w item) := hw.aligned.correlateItem
  have hend := hnext.keeps hctx hitem hother haligned hvs hafter hrow hfor
  rw [walkAlong_cons]
  exact List.mem_map.mpr ⟨row, hend, hsaid⟩

/-! ### The links a visit finds -/

theorem mem_asked {a b : String} : (a, b) ∈ ctx.asked item ↔
    ∃ other ∈ ctx.library.catalogue, item.Kin other ∧ item.parentId = some a ∧
      other.parentId = some b := by
  unfold asked
  simp only [List.mem_filterMap, Option.bind_eq_bind, Option.bind_eq_some_iff,
    Option.ite_none_right_eq_some, Option.some.injEq, Prod.mk.injEq]
  constructor
  · rintro ⟨other, hother, a', ha, b', hb, hkin, rfl, rfl⟩
    exact ⟨other, hother, hkin, ha, hb⟩
  · rintro ⟨other, hother, hkin, ha, hb⟩
    exact ⟨other, hother, a, ha, b, hb, hkin, rfl, rfl⟩

variable {pair : String × String}

theorem InStep.start (table : MatchTable) : InStep ctx (start ctx table) pair := mem_adjacency

theorem InStep.correlateItem (h : InStep ctx w pair) (haligned : Aligned w)
    (hown : item.id = pair.1 ∨ item.id = pair.2 →
      (ctx.Linked toLowerCase w item pair.1 pair.2 ↔
        ctx.StaysJoined toLowerCase w item pair.1 pair.2)) :
    InStep ctx (ctx.correlateItem toLowerCase touch w item) pair := by
  unfold InStep
  rw [joined_correlateItem haligned.below]
  refine mem_parentMatches_correlateItem.trans ?_
  by_cases hof : item.id = pair.1 ∨ item.id = pair.2
  · exact hown hof
  · push Not at hof
    rw [linked_of_other hof.1 hof.2, staysJoined_of_other haligned hof.1 hof.2]
    exact h

theorem InStep.walkAlong {vs : List (Bool × MediaItem)} (h : InStep ctx w pair)
    (haligned : Aligned w)
    (hown : ∀ v ∈ ctx.visitsFrom toLowerCase w vs, v.2.id = pair.1 ∨ v.2.id = pair.2 →
      (ctx.Linked toLowerCase v.1 v.2 pair.1 pair.2 ↔
        ctx.StaysJoined toLowerCase v.1 v.2 pair.1 pair.2)) :
    InStep ctx (ctx.walkAlong toLowerCase w vs) pair := by
  induction vs generalizing w with
  | nil => exact h
  | cons v vs ih =>
    rw [visitsFrom, List.forall_mem_cons] at hown
    rw [walkAlong_cons]
    exact ih (h.correlateItem haligned hown.1) haligned.correlateItem hown.2

/-- What is linked after some visits was linked before them, where none of them links it. -/
theorem mem_parentMatches_walkAlong {vs : List (Bool × MediaItem)}
    (h : ∀ v ∈ ctx.visitsFrom toLowerCase w vs,
      ctx.Linked toLowerCase v.1 v.2 pair.1 pair.2 → pair ∈ v.1.parentMatches) :
    pair ∈ (ctx.walkAlong toLowerCase w vs).parentMatches ↔ pair ∈ w.parentMatches := by
  induction vs generalizing w with
  | nil => rfl
  | cons v vs ih =>
    rw [visitsFrom, List.forall_mem_cons] at h
    rw [walkAlong_cons, ih h.2]
    exact mem_parentMatches_correlateItem.trans ⟨h.1, .inl⟩

/-- **A visit finds linked what is joined in the end**, of what it asks about. -/
theorem parentsAgree_of_keepsStep {before after : List (Bool × MediaItem)} {table : MatchTable}
    (h : ctx.KeepsStep toLowerCase (ctx.visitsFrom toLowerCase (start ctx table)
      (before ++ (touch, item) :: after)))
    (hw : w = ctx.walkAlong toLowerCase (start ctx table) before) :
    ctx.ParentsAgree item (fun a b => (a, b) ∈ w.parentMatches)
      ((ctx.walkAlong toLowerCase w ((touch, item) :: after)).table.Joined ctx.threshold) := by
  intro other hother hkin a ha b hb
  have hasked : (a, b) ∈ ctx.asked item := mem_asked.mpr ⟨other, hother, hkin, ha, hb⟩
  have hvisits : ctx.visitsFrom toLowerCase (start ctx table)
      (before ++ (touch, item) :: after) = _ := visitsFrom_append _ _
  rw [← hw, visitsFrom] at hvisits
  have hself : (w, item) ∈ ctx.visitsFrom toLowerCase (start ctx table)
      (before ++ (touch, item) :: after) := by
    rw [hvisits]
    exact List.mem_append_right _ List.mem_cons_self
  have hstep : InStep ctx (ctx.walkAlong toLowerCase (start ctx table)
      (before ++ (touch, item) :: after)) (a, b) :=
    (InStep.start table).walkAlong (.start table) fun v hv => h.joined v hv _ hself _ hasked
  have hlinked : (a, b) ∈ (ctx.walkAlong toLowerCase w ((touch, item) :: after)).parentMatches ↔
      (a, b) ∈ w.parentMatches := by
    refine mem_parentMatches_walkAlong fun v hv => ?_
    have hlater := h.later
    rw [hvisits] at hlater
    rcases List.mem_cons.mp hv with rfl | hv
    · exact h.own _ hself _ hasked
    · exact (List.pairwise_cons.mp (List.pairwise_append.mp hlater).2.1).1 v hv _ hasked
  have hend : ctx.walkAlong toLowerCase (start ctx table)
      (before ++ (touch, item) :: after) =
        ctx.walkAlong toLowerCase w ((touch, item) :: after) := by
    rw [hw]
    exact List.foldl_append ..
  rw [hend] at hstep
  exact hlinked.symm.trans hstep

/-- **What the second pass will find of a visit.** -/
theorem repeats_of_peaceful {after : List (Bool × MediaItem)} (hctx : ctx.TwoWay)
    (hw : Proper toLowerCase ctx w) (hvs : Peaceful toLowerCase ctx w ((touch, item) :: after))
    (hafter : ∀ v ∈ after, v.2.id ≠ item.id)
    (hparents : ctx.ParentsAgree item (fun a b => (a, b) ∈ w.parentMatches)
      ((ctx.walkAlong toLowerCase w ((touch, item) :: after)).table.Joined ctx.threshold)) :
    Repeats toLowerCase ctx
      (ctx.walkAlong toLowerCase w ((touch, item) :: after)).table w item := by
  obtain ⟨hitem, hundivided⟩ := (peaceful_cons.mp hvs).1
  refine ⟨fun p hp => stated_of_mem hctx hw hvs hafter hp, fun p hp => ?_,
    fun row hrow htouches => ?_, hparents⟩
  · obtain ⟨other, hother, hid, hclaimed⟩ := claimed_of_mem hw hitem hundivided hp
    obtain ⟨hend, hsettled⟩ := hclaimed.walkAlong hctx hitem hother hw.aligned hvs
    rw [← hid, hend.same, decision_congr hsettled]
  · exact revokes_eq_false_of_end hitem (hw.walkAlong hctx hvs) hrow htouches

end Context

/-! ### Two passes -/

section

variable (toLowerCase : String → String) (arithmetic : Arithmetic) (library : Library)
  (serviceId : String) (threshold : ℚ) (table : MatchTable)

def visits : List (Walk × MediaItem) :=
  (context toLowerCase arithmetic library threshold).visitsFrom toLowerCase
    (start (context toLowerCase arithmetic library threshold) table)
    (visitsOf toLowerCase arithmetic library serviceId threshold table)

/-- What the table is after a pass. -/
def passed : MatchTable :=
  (correlateService toLowerCase arithmetic library serviceId threshold table).1.table

/-- A pass throws away nothing that it vouches for, and a second one changes nothing. -/
structure Sound : Prop where
  /-- A row whose other side is still in the catalogue is deleted only where the two score nothing,
  with the options the visit proposes with. -/
  vouched : ∀ v ∈ visits toLowerCase arithmetic library serviceId threshold table,
    ∀ row ∈ v.1.settled, row.touches v.2.id →
      (context toLowerCase arithmetic library threshold).revokes toLowerCase v.2 row →
        ∀ other ∈ (Context.otherSide v.2 row).bind
            (context toLowerCase arithmetic library threshold).byId,
          score toLowerCase ((context toLowerCase arithmetic library threshold).candidate v.2)
            ((context toLowerCase arithmetic library threshold).candidate other)
            ((context toLowerCase arithmetic library threshold).options v.1.parentMatches) = none
  /-- What a visit proposes is on record when the pass is over. -/
  kept : ∀ v ∈ visits toLowerCase arithmetic library serviceId threshold table,
    ∀ p ∈ (context toLowerCase arithmetic library threshold).proposals toLowerCase v.1 v.2,
      ∃ row ∈ (passed toLowerCase arithmetic library serviceId threshold table).rows,
        row.isFor p.localItemId p.remoteItemId
  idempotent : ∀ pair, pair ∈ (passed toLowerCase arithmetic library serviceId threshold
      (passed toLowerCase arithmetic library serviceId threshold table)).rows.map (·.said) ↔
    pair ∈ (passed toLowerCase arithmetic library serviceId threshold table).rows.map (·.said)

end

variable {toLowerCase : String → String} {arithmetic : Arithmetic} {library : Library}
  {serviceId : String} {threshold : ℚ} {table t : MatchTable}

theorem mem_visitsOf {v : Bool × MediaItem}
    (h : v ∈ visitsOf toLowerCase arithmetic library serviceId threshold table) :
    v.2 ∈ library.catalogue := by
  rcases List.mem_append.mp h with hmine | hcounterparts
  · obtain ⟨item, hitem, rfl⟩ := List.mem_map.mp hmine
    exact List.mem_of_mem_filter ((List.mem_insertionSort _).mp hitem)
  · obtain ⟨item, hitem, rfl⟩ := List.mem_map.mp hcounterparts
    exact List.mem_of_mem_filter hitem

theorem nodup_visitsOf :
    ((visitsOf toLowerCase arithmetic library serviceId threshold table).map (·.2.id)).Nodup := by
  unfold visitsOf
  simp only [List.map_append, List.map_map]
  refine List.nodup_append.mpr ⟨?_, library.ids.sublist (List.filter_sublist.map _), ?_⟩
  · have hperm : (mine library serviceId).Perm
        (library.catalogue.filter (·.serviceId = serviceId)) := List.perm_insertionSort _ _
    exact (hperm.map _).nodup_iff.mpr (library.ids.sublist (List.filter_sublist.map _))
  · rintro id hmine _ hcounterparts rfl
    obtain ⟨item, hitem, rfl⟩ := List.mem_map.mp hmine
    obtain ⟨other, hother, hid⟩ := List.mem_map.mp hcounterparts
    obtain ⟨hitem, hservice⟩ := List.mem_filter.mp ((List.mem_insertionSort _).mp hitem)
    obtain ⟨hother, hservice'⟩ := List.mem_filter.mp hother
    obtain rfl := List.inj_on_of_nodup_map library.ids hother hitem hid
    simp only [decide_eq_true_eq] at hservice hservice'
    exact hservice'.1 hservice

theorem walkMine_eq :
    walkMine toLowerCase (context toLowerCase arithmetic library threshold) serviceId table =
    (context toLowerCase arithmetic library threshold).walkAlong toLowerCase
      (start (context toLowerCase arithmetic library threshold) table)
      ((mine library serviceId).map (true, ·)) := by
  unfold walkMine Context.walkAlong
  rw [List.foldl_map]
  rfl

/-- **The second pass says what the first said**, where what the first pass leaves makes the second
repeat each of its visits. -/
theorem said_of_repeats
    (h : ∀ v ∈ visits toLowerCase arithmetic library serviceId threshold table,
      (context toLowerCase arithmetic library threshold).Repeats toLowerCase t v.1 v.2) :
    (passed toLowerCase arithmetic library serviceId threshold t).rows.map (·.said) =
      t.rows.map (·.said) := by
  let ctx := context toLowerCase arithmetic library threshold
  have hstart : ctx.Echoes t (start ctx table) (start ctx t) := .start table t
  have hmine : ctx.Echoes t (walkMine toLowerCase ctx serviceId table)
      (walkMine toLowerCase ctx serviceId t) := by
    rw [walkMine_eq, walkMine_eq]
    refine hstart.walkAlong fun v hv => h v ?_
    unfold visits visitsOf
    rw [Context.visitsFrom_append]
    exact List.mem_append_left _ hv
  have hcounterparts : counterparts library serviceId
      (walkMine toLowerCase ctx serviceId t).touched =
        counterparts library serviceId (walkMine toLowerCase ctx serviceId table).touched := by
    unfold counterparts
    simp only [hmine.touched]
  have hvisits : visitsOf toLowerCase arithmetic library serviceId threshold t =
      visitsOf toLowerCase arithmetic library serviceId threshold table := by
    unfold visitsOf
    exact congrArg (fun items => (mine library serviceId).map (true, ·) ++ items.map (false, ·))
      hcounterparts
  have hend := hstart.walkAlong h
  unfold passed
  rw [← walkAlong_visitsOf, hvisits]
  exact hend.said

/-- **A pass throws away nothing it vouches for, and a second one changes nothing**, where no visit
meets a divided pair and each visit keeps the links that are asked about in step with the table. -/
theorem sound_of_undivided
    (hundivided : ∀ v ∈ visits toLowerCase arithmetic library serviceId threshold table,
      (context toLowerCase arithmetic library threshold).Undivided toLowerCase v.1 v.2)
    (hstep : (context toLowerCase arithmetic library threshold).KeepsStep toLowerCase
      (visits toLowerCase arithmetic library serviceId threshold table)) :
    Sound toLowerCase arithmetic library serviceId threshold table := by
  let ctx := context toLowerCase arithmetic library threshold
  have hctx : ctx.TwoWay := Context.twoWay_context arithmetic library threshold
  have hpeaceful : Context.Peaceful toLowerCase ctx (start ctx table)
      (visitsOf toLowerCase arithmetic library serviceId threshold table) := by
    intro v hv
    obtain ⟨before, touch, after, hsplit, -⟩ := Context.mem_visitsFrom hv
    refine ⟨?_, hundivided v hv⟩
    exact mem_visitsOf (hsplit ▸ List.mem_append_right _ List.mem_cons_self : (touch, v.2) ∈ _)
  -- Each visit of the second pass says again what it said, whatever came after it.
  have hrepeats : ∀ v ∈ visits toLowerCase arithmetic library serviceId threshold table,
      ctx.Repeats toLowerCase (passed toLowerCase arithmetic library serviceId threshold table)
        v.1 v.2 := by
    intro v hv
    obtain ⟨before, touch, after, hsplit, hwalk⟩ := Context.mem_visitsFrom hv
    rw [hsplit] at hpeaceful
    obtain ⟨hbefore, hafter⟩ := hpeaceful.split
    rw [← hwalk] at hafter
    have hproper : Context.Proper toLowerCase ctx v.1 := by
      rw [hwalk]
      exact (Context.Proper.start table).walkAlong hctx hbefore
    have hend : passed toLowerCase arithmetic library serviceId threshold table =
        (ctx.walkAlong toLowerCase v.1 ((touch, v.2) :: after)).table := by
      unfold passed
      rw [← walkAlong_visitsOf, hsplit, hwalk]
      unfold Context.walkAlong
      rw [List.foldl_append]
    -- No later visit is of the same item.
    have hothers : ∀ other ∈ after, other.2.id ≠ v.2.id := by
      have hids := @nodup_visitsOf toLowerCase arithmetic library serviceId threshold table
      rw [hsplit, List.map_append] at hids
      intro other hother hid
      exact (List.nodup_cons.mp (List.nodup_append.mp hids).2.1).1
        (List.mem_map.mpr ⟨other, hother, hid⟩)
    have hagree : ctx.ParentsAgree v.2 (fun a b => (a, b) ∈ v.1.parentMatches)
        ((ctx.walkAlong toLowerCase v.1 ((touch, v.2) :: after)).table.Joined ctx.threshold) := by
      refine Context.parentsAgree_of_keepsStep ?_ hwalk
      rw [← hsplit]
      exact hstep
    rw [hend]
    exact Context.repeats_of_peaceful hctx hproper hafter hothers hagree
  refine ⟨fun v hv row hrow htouches hrevokes other hother => ?_, fun v hv p hp => ?_,
    fun pair => ?_⟩
  · have hnot := Context.vouches_eq_false_of_revokes (hundivided v hv) hrow htouches hrevokes hother
    exact Option.not_isSome_iff_eq_none.mp (Bool.not_eq_true _ ▸ hnot)
  · obtain ⟨row, hrow, hsaid⟩ := List.mem_map.mp ((hrepeats v hv).said p hp)
    refine ⟨row, hrow, ?_⟩
    simp only [MediaMatch.said, stated, Prod.mk.injEq] at hsaid
    simp [MediaMatch.isFor, hsaid]
  · rw [said_of_repeats hrepeats]

/-! ### Two series and their first seasons, again -/

/-- The same two, where the seasons have a number of their own. -/
def numberedSeasons : Library :=
  { twoSeries "70523" "70523" with
    catalogue := [series "here" "ours" "70523",
      { firstSeason "here/1" "ours" "here" with externalIds := { tmdb := some "84772" } },
      series "there" "theirs" "70523",
      { firstSeason "there/1" "theirs" "there" with externalIds := { tmdb := some "84772" } }]
    ids := by simp [series, firstSeason] }

/-- Nothing on record. -/
def noMatches : MatchTable :=
  { rows := [], next := 0, id_lt := by simp, ids := .nil, pairs := .nil }

theorem sound_of_undivided_numberedSeasons :
    Sound id .exact numberedSeasons "ours" (8 / 10) noMatches := by
  have hundivided : ∀ v ∈ visits id .exact numberedSeasons "ours" (8 / 10) noMatches,
      (context id .exact numberedSeasons (8 / 10)).Undivided id v.1 v.2 := by decide +kernel
  have hstep : (context id .exact numberedSeasons (8 / 10)).KeepsStep id
      (visits id .exact numberedSeasons "ours" (8 / 10) noMatches) :=
    ⟨by decide +kernel, by decide +kernel, by decide +kernel⟩
  exact sound_of_undivided hundivided hstep

/-- **A second pass deletes what the first wrote**: nothing but their series vouches for the two
seasons, which is not asked when a row is revoked. -/
theorem unsound_bySeasons :
    ¬ ∀ (toLowerCase : String → String) arithmetic library serviceId threshold table,
      Sound toLowerCase arithmetic library serviceId threshold table := by
  intro h
  have hsound := h id .exact (twoSeries "70523" "70523") "ours" (8 / 10) noMatches
  have hlost := (hsound.idempotent (some "here/1", "there/1", .SEASON_EPISODE, 95 / 100)).mpr
    (by decide +kernel)
  revert hlost
  decide +kernel

end MediaCenterSync.Correlation
