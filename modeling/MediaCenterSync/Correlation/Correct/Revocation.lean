import MediaCenterSync.Correlation.Correct.Visit
import MediaCenterSync.Matching.Correct.Service

/-!
# What a pass vouches for and what it revokes

A pass proposes a pair on one question and revokes it on another.  The two part on a *divided* pair
(`divided_iff`): two works that share the number of one registry and differ on another, and a season
or an episode nothing but its parents vouches for.

Where no visit proposes or has on record a divided pair that nobody decided (`Undivided`), a pair
that is claimed once keeps its rows and the decision on record for it to the end of the pass
(`Claimed.correlateItem`), and what is left when the pass ends is revoked by no item it visited.
-/

namespace MediaCenterSync.Correlation

open Matching

namespace Context

section

variable (toLowerCase : String → String) (ctx : Context)

/-- What is asked of a pair that nobody decided by hand before it is revoked. -/
def disowns (item other : MediaItem) : Bool :=
  contradicted (ctx.candidate item) (ctx.candidate other) ||
    ctx.scoresNothing toLowerCase (ctx.candidate item) (ctx.candidate other)

def vouches (links : Links) (item other : MediaItem) : Bool :=
  (score toLowerCase (ctx.candidate item) (ctx.candidate other) (ctx.options links)).isSome

/-- The two share a file or the number of one registry, and differ on another registry; or nothing
but their parents vouches for them. -/
def Divided (links : Links) (item other : MediaItem) : Prop :=
  let left := ctx.candidate item
  let right := ctx.candidate other
  left.kind = right.kind ∧
    if contradicted left right then
      (checksumMatch left right).isSome ∨
        (externalIdMatch left right WORK_IDENTIFIERS (ctx.options links)).isSome
    else
      ctx.scoresNothing toLowerCase left right ∧ separateCuts left right = false ∧
        ((seasonEpisodeMatch left right (ctx.options links)).isSome ∨
          (titleMatch left right (ctx.options links)).isSome)

instance (links : Links) (item other : MediaItem) :
    Decidable (ctx.Divided toLowerCase links item other) :=
  inferInstanceAs (Decidable (_ ∧ _))

/-- Episodes are aligned both ways round. -/
def TwoWay : Prop := ∀ a b, (a, b) ∈ ctx.absolutePairs → (b, a) ∈ ctx.absolutePairs

end

variable {toLowerCase : String → String} {ctx : Context} {links : Links} {item other : MediaItem}

theorem isSome_score {left right : MatchCandidate} {options : MatchOptions} :
    (score toLowerCase left right options).isSome ↔ left.kind = right.kind ∧
      ((checksumMatch left right).isSome ∨
        (externalIdMatch left right WORK_IDENTIFIERS options).isSome ∨
        (contradicted left right = false ∧ separateCuts left right = false) ∧
          ((externalIdMatch left right CATALOGUE_IDENTIFIERS options).isSome ∨
            (seasonEpisodeMatch left right options).isSome ∨
            (absoluteEpisodeMatch left right options).isSome ∨
            (titleMatch left right options).isSome ∨
            (pathMatch toLowerCase left right).isSome)) := by
  unfold score
  by_cases hkind : left.kind = right.kind
  · rw [if_neg (not_not.mpr hkind), Option.isSome_or, Option.isSome_or]
    by_cases hveto : contradicted left right ∨ separateCuts left right
    · rw [if_pos hveto]
      simp only [hkind, Option.isSome_none, Bool.or_false, Bool.or_eq_true, true_and]
      grind
    · rw [if_neg hveto, Option.isSome_or, Option.isSome_or, Option.isSome_or, Option.isSome_or]
      simp only [not_or, Bool.not_eq_true] at hveto
      simp only [hkind, hveto, Bool.or_eq_true, true_and, and_self]
  · simp [hkind]

/-- **Where proposing and revoking part.** -/
theorem divided_iff : ctx.Divided toLowerCase links item other ↔
    ctx.vouches toLowerCase links item other ∧ ctx.disowns toLowerCase item other := by
  have hnothing : ctx.scoresNothing toLowerCase (ctx.candidate item) (ctx.candidate other) ↔
      ¬(score toLowerCase (ctx.candidate item) (ctx.candidate other) (ctx.options [])).isSome := by
    unfold scoresNothing
    rw [Option.not_isSome_iff_eq_none, Option.isNone_iff_eq_none]
    rfl
  -- only two strategies read the parents
  have hexternal : ∀ providers, externalIdMatch (ctx.candidate item) (ctx.candidate other) providers
      (ctx.options links) = externalIdMatch (ctx.candidate item) (ctx.candidate other) providers
        (ctx.options []) := fun _ => rfl
  have habsolute : absoluteEpisodeMatch (ctx.candidate item) (ctx.candidate other)
      (ctx.options links) = absoluteEpisodeMatch (ctx.candidate item) (ctx.candidate other)
        (ctx.options []) := rfl
  unfold Divided vouches disowns
  dsimp only
  rw [Bool.or_eq_true, hnothing, isSome_score, isSome_score, hexternal, hexternal, habsolute]
  cases contradicted (ctx.candidate item) (ctx.candidate other) with
  | true => simp
  | false =>
    simp only [Bool.false_eq_true, if_false, false_or, true_and]
    tauto

/-! ### Both sides ask the same -/

theorem twoWay_context (arithmetic : Arithmetic) (library : Library) (threshold : ℚ) :
    (context toLowerCase arithmetic library threshold).TwoWay := by
  have hfold : ∀ (aligned : List NumberingPair) (pairs : Links),
      (∀ a b, (a, b) ∈ pairs → (b, a) ∈ pairs) → ∀ a b, (a, b) ∈ aligned.foldl (fun pairs pair =>
        (pairs.link pair.absoluteId pair.splitId).link pair.splitId pair.absoluteId) pairs →
          (b, a) ∈ aligned.foldl (fun pairs pair =>
            (pairs.link pair.absoluteId pair.splitId).link pair.splitId pair.absoluteId) pairs := by
    intro aligned
    induction aligned with
    | nil => exact fun _ hpairs => hpairs
    | cons pair aligned ih =>
      refine fun pairs hpairs => ih _ fun a b hab => ?_
      simp only [mem_link, Prod.mk.injEq] at hab ⊢
      rcases hab with (hab | ⟨rfl, rfl⟩) | ⟨rfl, rfl⟩
      · exact .inl (.inl (hpairs a b hab))
      · exact .inr ⟨rfl, rfl⟩
      · exact .inl (.inr ⟨rfl, rfl⟩)
  exact hfold _ [] fun _ _ hab => nomatch hab

theorem disowns_comm (hctx : ctx.TwoWay) (item other : MediaItem) :
    ctx.disowns toLowerCase item other = ctx.disowns toLowerCase other item := by
  unfold disowns scoresNothing
  have habsolute : ctx.absolutePairs.has (ctx.candidate item).id (ctx.candidate other).id =
      ctx.absolutePairs.has (ctx.candidate other).id (ctx.candidate item).id := by
    unfold Links.has
    exact decide_eq_decide.mpr ⟨hctx _ _, hctx _ _⟩
  rw [score_comm (fun _ _ _ _ => by simp) habsolute]
  by_cases hkind : (ctx.candidate item).kind = (ctx.candidate other).kind
  · rw [contradicted_comm hkind]
  · -- two kinds score nothing, whatever their identifiers say
    have hnone : ∀ options, score toLowerCase (ctx.candidate other) (ctx.candidate item) options =
        none := by
      intro options
      unfold score
      rw [if_pos (Ne.symm hkind)]
    rw [hnone, Option.isNone_none, Bool.or_true, Bool.or_true]

/-! ### The items of a row -/

theorem eq_of_item_id (hitem : item ∈ ctx.library.catalogue)
    (hother : other ∈ ctx.library.catalogue)
    (h : item.id = other.id) : item = other :=
  List.inj_on_of_nodup_map ctx.library.ids hitem hother h

theorem byId_eq_some (hitem : item ∈ ctx.library.catalogue) : ctx.byId item.id = some item := by
  obtain ⟨found, hfound⟩ := Option.isSome_iff_exists.mp (byId_isSome hitem)
  have hid : found.id = item.id := by
    simpa using List.find?_some (p := fun other : MediaItem => decide (other.id = item.id)) hfound
  rw [hfound, eq_of_item_id (List.mem_of_find?_eq_some hfound) hitem hid]

theorem otherSide_of_joins {row : MediaMatch} (h : row.joins item.id other.id) :
    otherSide item row = some other.id := by
  simp only [MediaMatch.joins, MediaMatch.isFor, decide_eq_true_eq] at h
  unfold otherSide
  rcases h with ⟨hlocal, hremote⟩ | ⟨hlocal, hremote⟩
  · rw [if_pos hlocal, hremote]
  · split
    · next hsame => rw [hremote, ← hlocal, hsame]
    · exact hlocal

theorem revokes_of_joins {row : MediaMatch} (hother : other ∈ ctx.library.catalogue)
    (h : row.joins item.id other.id) : ctx.revokes toLowerCase item row =
      (!row.decidedByHand && ctx.disowns toLowerCase item other) := by
  unfold revokes disowns
  rw [otherSide_of_joins h, Option.bind_some, byId_eq_some hother]

/-! ### A visit that meets no divided pair -/

section

variable (toLowerCase : String → String) (ctx : Context)

/-- No row the visit has on record and nobody decided is of a divided pair; and nothing it proposes,
unless it is written as a person's decision. -/
def Undivided (w : Walk) (item : MediaItem) : Prop :=
  (∀ row ∈ w.settled, row.touches item.id → row.decidedByHand = false →
      ∀ other ∈ (otherSide item row).bind ctx.byId,
        ¬ ctx.Divided toLowerCase w.parentMatches item other) ∧
    ∀ p ∈ ctx.proposals toLowerCase w item, Stands w.table p ∨
      ∀ other ∈ ctx.byId p.remoteItemId, ¬ ctx.Divided toLowerCase w.parentMatches item other

instance (w : Walk) (item : MediaItem) : Decidable (ctx.Undivided toLowerCase w item) :=
  inferInstanceAs (Decidable (_ ∧ _))

end

variable {w : Walk} {touch : Bool} {a b : MediaItem}

/-- **What such a visit revokes scores nothing** under the very options it proposes with. -/
theorem vouches_eq_false_of_revokes (h : ctx.Undivided toLowerCase w item) {row : MediaMatch}
    (hrow : row ∈ w.settled) (htouches : row.touches item.id)
    (hrevokes : ctx.revokes toLowerCase item row)
    (hother : (otherSide item row).bind ctx.byId = some other) :
    ctx.vouches toLowerCase w.parentMatches item other = false := by
  unfold revokes at hrevokes
  rw [hother] at hrevokes
  simp only [Bool.and_eq_true, Bool.not_eq_true'] at hrevokes
  obtain ⟨hundecided, hdisowns⟩ := hrevokes
  have hnot := h.1 row hrow htouches hundecided other hother
  rw [divided_iff] at hnot
  exact eq_false_of_ne_true fun hvouches => hnot ⟨hvouches, hdisowns⟩

theorem respectHumanDecision_eq (settled : List MediaMatch) (p : MatchProposal) :
    ctx.respectHumanDecision item settled p =
      match decision settled item.id p.remoteItemId with
      | none => p
      | some (strategy, confidence, confirmed) =>
        { p with
          strategy := strategy, confidence := confidence
          applied := ctx.threshold ≤ confidence ∨ confirmed } := by
  unfold respectHumanDecision decision
  cases recorded settled item.id p.remoteItemId with
  | none => rfl
  | some row =>
    rw [Option.bind_some]
    unfold MediaMatch.decision
    cases hdecided : row.decidedByHand with
    | true => simp [hdecided]
    | false => simp [hdecided]

@[simp] theorem strategy_overrule (p : MatchProposal) :
    (ctx.overruleMislabelled item p).strategy = p.strategy := by
  unfold overruleMislabelled
  split <;> rfl

/-- What is proposed of a pair: both items are in the catalogue, the pair is vouched for, and what a
person decided of it is respected. -/
theorem proposals_spec {p : MatchProposal} (hp : p ∈ ctx.proposals toLowerCase w item) :
    ∃ other ∈ ctx.library.catalogue, other.id = p.remoteItemId ∧
      ctx.vouches toLowerCase w.parentMatches item other ∧
        Respects (decision w.settled item.id other.id) p := by
  obtain ⟨other, hother, -, scored, hscore, rfl⟩ := mem_proposals hp
  have hremote : (ctx.overruleMislabelled item (toProposal toLowerCase (ctx.candidate item)
      (ctx.candidate other) scored (ctx.options w.parentMatches))).remoteItemId = other.id := by
    rw [remoteItemId_overrule]
    rfl
  refine ⟨other, mem_candidatesFor hother, ?_, ?_, ?_⟩
  · rw [remoteItemId_respect, hremote]
  · unfold vouches
    rw [hscore]
    rfl
  · rw [respectHumanDecision_eq, hremote]
    cases decision w.settled item.id other.id with
    | none =>
      change MatchProposal.strategy _ ≠ _
      dsimp only
      rw [strategy_overrule]
      exact strategy_ne_manual hscore
    | some decided => exact ⟨rfl, rfl⟩

/-! ### A pair that has been claimed -/

/-- The pair keeps its rows from here on, and the table decides of it what the snapshot decides. -/
structure Claimed (toLowerCase : String → String) (ctx : Context) (w : Walk) (a b : MediaItem) :
    Prop where
  safe : ctx.disowns toLowerCase a b = false ∨
    AllDecided w.settled a.id b.id ∧ AllDecided w.table.rows a.id b.id
  same : decision w.table.rows a.id b.id = decision w.settled a.id b.id

theorem item_of_touches {row : MediaMatch} (hitem : item ∈ ctx.library.catalogue)
    (ha : a ∈ ctx.library.catalogue) (hb : b ∈ ctx.library.catalogue)
    (hjoins : row.joins a.id b.id) (htouches : row.touches item.id) : item = a ∨ item = b := by
  have hid : item.id = a.id ∨ item.id = b.id := by
    simp only [MediaMatch.joins, MediaMatch.isFor, MediaMatch.touches, decide_eq_true_eq] at *
    grind
  exact hid.imp (eq_of_item_id hitem ha) (eq_of_item_id hitem hb)

/-- A visit revokes no row of a pair all of whose rows are decided, or that is not disowned. -/
theorem not_mem_revoked (hctx : ctx.TwoWay) (hitem : item ∈ ctx.library.catalogue)
    (ha : a ∈ ctx.library.catalogue) (hb : b ∈ ctx.library.catalogue) (haligned : Aligned w)
    (hsafe : ctx.disowns toLowerCase a b = false ∨ AllDecided w.settled a.id b.id) :
    (∀ row ∈ pairOf w.settled a.id b.id, row.id ∉ ctx.revoked toLowerCase w item) ∧
      ∀ row ∈ pairOf (ctx.proposedTable toLowerCase w item).rows a.id b.id,
        row.id ∉ ctx.revoked toLowerCase w item := by
  have hspared : ∀ taken ∈ w.settled, taken.joins a.id b.id →
      taken.id ∉ ctx.revoked toLowerCase w item := by
    intro taken htaken hjoins hmem
    obtain ⟨row, hrow, hid⟩ := List.mem_map.mp hmem
    obtain ⟨hrow, hrevokes⟩ := List.mem_filter.mp hrow
    obtain ⟨hrow, htouches⟩ := List.mem_filter.mp hrow
    obtain rfl : row = taken := by
      by_contra hne
      have hsymm : Std.Symm fun a b : MediaMatch => a.id ≠ b.id := ⟨fun _ _ hab => hab.symm⟩
      exact haligned.ids.forall hrow htaken hne hid
    have hkept : row.decidedByHand ∨ ctx.disowns toLowerCase a b = false :=
      hsafe.elim .inr fun hall => .inl (hall row (mem_pairOf.mpr ⟨hrow, hjoins⟩))
    rcases item_of_touches hitem ha hb hjoins htouches with rfl | rfl
    · rw [revokes_of_joins hb hjoins] at hrevokes
      rcases hkept with hdecided | hnot
      · simp [hdecided] at hrevokes
      · simp [hnot] at hrevokes
    · rw [revokes_of_joins ha (joins_comm .. ▸ hjoins), disowns_comm hctx] at hrevokes
      rcases hkept with hdecided | hnot
      · simp [hdecided] at hrevokes
      · simp [hnot] at hrevokes
  refine ⟨fun row hrow => hspared row (mem_pairOf.mp hrow).1 (mem_pairOf.mp hrow).2, ?_⟩
  intro row hrow hmem
  obtain ⟨hrow, hjoins⟩ := mem_pairOf.mp hrow
  obtain ⟨taken, htaken, hid⟩ := List.mem_map.mp hmem
  have hsettled := List.mem_of_mem_filter (List.mem_of_mem_filter htaken)
  rcases mem_foldl_upsertPair hrow with ⟨old, hold, hid', hpair⟩ | ⟨hnew, -⟩
  · -- the identifier is that of a row of the same pair
    obtain ⟨hlocal, hremote⟩ := Prod.mk.inj
      ((haligned.pair taken hsettled old hold (hid.trans hid'.symm)).trans hpair)
    refine hspared taken hsettled ?_ (List.mem_map.mpr ⟨taken, htaken, rfl⟩)
    simpa [MediaMatch.joins, MediaMatch.isFor, hlocal, hremote] using hjoins
  · have := haligned.below taken hsettled
    omega

theorem pairOf_spared {rows : List MediaMatch} {gone : List ℕ} {near far : String}
    (h : ∀ row ∈ pairOf rows near far, row.id ∉ gone) :
    pairOf (rows.filter (·.id ∉ gone)) near far = pairOf rows near far := by
  rw [pairOf_filter]
  exact List.filter_eq_self.mpr fun row hrow => decide_eq_true (h row hrow)

/-- What the proposals of a visit make of a claimed pair. -/
theorem Claimed.propose (h : Claimed toLowerCase ctx w a b)
    (hundivided : ctx.Undivided toLowerCase w item) (hctx : ctx.TwoWay)
    (hitem : item ∈ ctx.library.catalogue) (ha : a ∈ ctx.library.catalogue)
    (hb : b ∈ ctx.library.catalogue) :
    (ctx.disowns toLowerCase a b = false ∨
        AllDecided (ctx.proposedTable toLowerCase w item).rows a.id b.id) ∧
      decision (ctx.proposedTable toLowerCase w item).rows a.id b.id =
        decision w.settled a.id b.id := by
  -- each claim about the pair respects the decision, and stands as one when the pair is disowned
  have hclaims : ∀ p ∈ ctx.proposals toLowerCase w item,
      claims a.id b.id p || claims b.id a.id p →
        Respects (decision w.settled a.id b.id) p ∧
          (ctx.disowns toLowerCase a b → Stands w.table p) := by
    intro p hp hpair
    obtain ⟨other, hother, hid, hvouches, hrespects⟩ := proposals_spec hp
    have hlocal := localItemId_of_mem hp
    have hdivided : ctx.disowns toLowerCase item other → Stands w.table p := by
      intro hdisowns
      refine (hundivided.2 p hp).resolve_right fun hnot => ?_
      exact hnot other (by rw [← hid, byId_eq_some hother]; rfl)
        (divided_iff.mpr ⟨hvouches, hdisowns⟩)
    simp only [claims, Bool.or_eq_true, decide_eq_true_eq] at hpair
    rcases hpair with ⟨hnear, hfar⟩ | ⟨hnear, hfar⟩
    · obtain rfl := eq_of_item_id hitem ha (hlocal.symm.trans hnear)
      obtain rfl := eq_of_item_id hother hb (hid.trans hfar)
      exact ⟨hrespects, hdivided⟩
    · obtain rfl := eq_of_item_id hitem hb (hlocal.symm.trans hnear)
      obtain rfl := eq_of_item_id hother ha (hid.trans hfar)
      rw [decision_comm, disowns_comm hctx]
      exact ⟨hrespects, hdivided⟩
  have hkeeps : ∀ t : MatchTable, (∀ p, Stands w.table p → Stands t p) →
      (ctx.disowns toLowerCase a b = false ∨ AllDecided t.rows a.id b.id) →
      decision t.rows a.id b.id = decision w.settled a.id b.id →
      ∀ ps ⊆ ctx.proposals toLowerCase w item,
        (ctx.disowns toLowerCase a b = false ∨
          AllDecided (ps.foldl MatchTable.upsertPair t).rows a.id b.id) ∧
        decision (ps.foldl MatchTable.upsertPair t).rows a.id b.id =
          decision w.settled a.id b.id := by
    intro t hstands hsafe hsame ps hps
    induction ps generalizing t with
    | nil => exact ⟨hsafe, hsame⟩
    | cons p ps ih =>
      obtain ⟨hp, hps⟩ := List.cons_subset.mp hps
      refine ih (t.upsertPair p) (fun q hq => (hstands q hq).upsertPair) ?_ ?_ hps
      · cases hdisowns : ctx.disowns toLowerCase a b with
        | false => exact .inl rfl
        | true =>
          refine .inr ((hsafe.resolve_left (by simp [hdisowns])).upsertPair fun hpair => ?_)
          exact hstands p ((hclaims p hp hpair).2 hdisowns)
      · cases hpair : claims a.id b.id p || claims b.id a.id p with
        | false => rw [decision_congr (pairOf_upsertPair hpair), hsame]
        | true => rw [decision_upsertPair hpair (hsame ▸ (hclaims p hp hpair).1), hsame]
  exact hkeeps w.table (fun _ hp => hp) (h.safe.imp_right (·.2)) h.same _ (List.Subset.refl _)

/-- **A pair that has been claimed keeps its rows**, and the decision about it. -/
theorem Claimed.correlateItem (h : Claimed toLowerCase ctx w a b) (haligned : Aligned w)
    (hundivided : ctx.Undivided toLowerCase w item) (hctx : ctx.TwoWay)
    (hitem : item ∈ ctx.library.catalogue) (ha : a ∈ ctx.library.catalogue)
    (hb : b ∈ ctx.library.catalogue) :
    Claimed toLowerCase ctx (ctx.correlateItem toLowerCase touch w item) a b ∧
      pairOf (ctx.correlateItem toLowerCase touch w item).settled a.id b.id =
        pairOf w.settled a.id b.id := by
  obtain ⟨hsettledSpared, htableSpared⟩ :=
    not_mem_revoked hctx hitem ha hb haligned (h.safe.imp_right (·.1))
  obtain ⟨hrows, -, hsettled⟩ := @correlateItem_spec toLowerCase ctx w item touch
  have hpairSettled := pairOf_spared hsettledSpared
  have hpairTable := pairOf_spared htableSpared
  rw [← hsettled] at hpairSettled
  rw [← hrows] at hpairTable
  obtain ⟨hall, hsame⟩ := h.propose hundivided hctx hitem ha hb
  refine ⟨⟨?_, ?_⟩, hpairSettled⟩
  · rcases h.safe with hnot | ⟨hdecided, -⟩
    · exact .inl hnot
    · refine hall.imp_right fun hall => ⟨?_, ?_⟩
      · unfold AllDecided
        rw [hpairSettled]
        exact hdecided
      · unfold AllDecided
        rw [hpairTable]
        exact hall
  · rw [decision_congr hpairTable, decision_congr hpairSettled, hsame]

/-! ### A pair that has not -/

/-- Of the pair the table and the snapshot have the same rows, or it has been claimed. -/
def Tracks (toLowerCase : String → String) (ctx : Context) (w : Walk) (a b : MediaItem) : Prop :=
  pairOf w.table.rows a.id b.id = pairOf w.settled a.id b.id ∨ Claimed toLowerCase ctx w a b

theorem Claimed.symm (hctx : ctx.TwoWay) (h : Claimed toLowerCase ctx w a b) :
    Claimed toLowerCase ctx w b a := by
  obtain ⟨hsafe, hsame⟩ := h
  unfold AllDecided at hsafe
  rw [disowns_comm hctx, pairOf_comm w.settled, pairOf_comm w.table.rows] at hsafe
  rw [decision_comm, decision_comm w.settled] at hsame
  exact ⟨hsafe, hsame⟩

theorem Tracks.claimed (h : Tracks toLowerCase ctx w item other)
    (hundivided : ctx.Undivided toLowerCase w item) (hother : other ∈ ctx.library.catalogue)
    (hvouches : ctx.vouches toLowerCase w.parentMatches item other) :
    Claimed toLowerCase ctx w item other := by
  refine h.elim (fun hrows => ⟨?_, decision_congr hrows⟩) id
  cases hdisowns : ctx.disowns toLowerCase item other with
  | false => exact .inl rfl
  | true =>
    -- vouched for and disowned: then every row on record is a person's
    have hall : AllDecided w.settled item.id other.id := by
      intro row hrow
      obtain ⟨hmem, hjoins⟩ := mem_pairOf.mp hrow
      have htouches : row.touches item.id := by
        simp only [MediaMatch.joins, MediaMatch.isFor, MediaMatch.touches, decide_eq_true_eq] at *
        tauto
      by_contra hundecided
      refine hundivided.1 row hmem htouches (eq_false_of_ne_true hundecided) other ?_
        (divided_iff.mpr ⟨hvouches, hdisowns⟩)
      rw [otherSide_of_joins hjoins, Option.bind_some, byId_eq_some hother]
      rfl
    refine .inr ⟨hall, ?_⟩
    unfold AllDecided
    rw [hrows]
    exact hall

theorem Tracks.correlateItem (h : Tracks toLowerCase ctx w a b) (haligned : Aligned w)
    (hundivided : ctx.Undivided toLowerCase w item) (hctx : ctx.TwoWay)
    (hitem : item ∈ ctx.library.catalogue) (ha : a ∈ ctx.library.catalogue)
    (hb : b ∈ ctx.library.catalogue) :
    Tracks toLowerCase ctx (ctx.correlateItem toLowerCase touch w item) a b := by
  by_cases hnone : ∀ p ∈ ctx.proposals toLowerCase w item,
      (claims a.id b.id p || claims b.id a.id p) = false
  · -- nothing is claimed of the pair, and the two lose the same rows
    refine h.elim (fun hrows => .inl ?_) fun hclaimed => .inr
      (hclaimed.correlateItem haligned hundivided hctx hitem ha hb).1
    have hproposed : ∀ ps ⊆ ctx.proposals toLowerCase w item, ∀ t : MatchTable,
        pairOf (ps.foldl MatchTable.upsertPair t).rows a.id b.id = pairOf t.rows a.id b.id := by
      intro ps hps
      induction ps with
      | nil => exact fun _ => rfl
      | cons p ps ih =>
        obtain ⟨hp, hps⟩ := List.cons_subset.mp hps
        exact fun t => (ih hps _).trans (pairOf_upsertPair (hnone p hp))
    obtain ⟨htable, -, hsettled⟩ := @correlateItem_spec toLowerCase ctx w item touch
    rw [htable, hsettled, pairOf_filter, pairOf_filter, ← hrows,
      ← hproposed _ (List.Subset.refl _) w.table]
    rfl
  · push Not at hnone
    obtain ⟨p, hp, hpair⟩ := hnone
    obtain ⟨other, hother, hid, hvouches, -⟩ := proposals_spec hp
    have hlocal := localItemId_of_mem hp
    have hclaimed : Claimed toLowerCase ctx w a b := by
      simp only [claims, Bool.or_eq_true, ne_eq, Bool.not_eq_false, decide_eq_true_eq] at hpair
      rcases hpair with ⟨hnear, hfar⟩ | ⟨hnear, hfar⟩
      · obtain rfl := eq_of_item_id hitem ha (hlocal.symm.trans hnear)
        obtain rfl := eq_of_item_id hother hb (hid.trans hfar)
        exact h.claimed hundivided hother hvouches
      · obtain rfl := eq_of_item_id hitem hb (hlocal.symm.trans hnear)
        obtain rfl := eq_of_item_id hother ha (hid.trans hfar)
        refine (Tracks.claimed ?_ hundivided hother hvouches).symm hctx
        refine h.imp (fun hrows => ?_) (·.symm hctx)
        rw [pairOf_comm, hrows, pairOf_comm]
    exact .inr (hclaimed.correlateItem haligned hundivided hctx hitem ha hb).1

/-! ### Along the visits -/

/-- A row of the table was on record before, or joins two items of the catalogue. -/
def Rooted (ctx : Context) (w : Walk) : Prop :=
  ∀ row ∈ w.table.rows,
    (∃ old ∈ w.settled, old.id = row.id ∧
      (old.localItemId, old.remoteItemId) = (row.localItemId, row.remoteItemId)) ∨
    ∃ near ∈ ctx.library.catalogue, ∃ far ∈ ctx.library.catalogue, row.isFor near.id far.id

theorem Rooted.correlateItem (h : Rooted ctx w) (hitem : item ∈ ctx.library.catalogue) :
    Rooted ctx (ctx.correlateItem toLowerCase touch w item) := by
  obtain ⟨hrows, -, hsettled⟩ := @correlateItem_spec toLowerCase ctx w item touch
  intro row hrow
  rw [hrows] at hrow
  obtain ⟨hmem, hkept⟩ := List.mem_filter.mp hrow
  rcases mem_foldl_upsertPair hmem with ⟨old, hold, hid, hpair⟩ | ⟨-, p, hp, hfor⟩
  · rcases h old hold with ⟨older, holder, hid', hpair'⟩ | ⟨near, hnear, far, hfar, hfor⟩
    · refine .inl ⟨older, ?_, hid'.trans hid, hpair'.trans hpair⟩
      rw [hsettled]
      refine List.mem_filter.mpr ⟨holder, ?_⟩
      rw [hid', hid]
      exact hkept
    · obtain ⟨hlocal, hremote⟩ := Prod.mk.inj hpair
      refine .inr ⟨near, hnear, far, hfar, ?_⟩
      simpa [MediaMatch.isFor, hlocal, hremote] using hfor
  · obtain ⟨other, hother, hid, -, -⟩ := proposals_spec hp
    refine .inr ⟨item, hitem, other, hother, ?_⟩
    rw [hid, ← localItemId_of_mem hp]
    exact hfor

/-- What holds at each point of a pass that meets no divided pair. -/
structure Proper (toLowerCase : String → String) (ctx : Context) (w : Walk) : Prop where
  aligned : Aligned w
  rooted : Rooted ctx w
  tracks : ∀ a ∈ ctx.library.catalogue, ∀ b ∈ ctx.library.catalogue, Tracks toLowerCase ctx w a b

theorem Proper.start (table : MatchTable) : Proper toLowerCase ctx (start ctx table) where
  aligned := .start table
  rooted row hrow := .inl ⟨row, hrow, rfl, rfl⟩
  tracks _ _ _ _ := .inl rfl

/-- The visits are of items of the catalogue and meet no divided pair. -/
def Peaceful (toLowerCase : String → String) (ctx : Context) (w : Walk)
    (vs : List (Bool × MediaItem)) : Prop :=
  ∀ v ∈ ctx.visitsFrom toLowerCase w vs,
    v.2 ∈ ctx.library.catalogue ∧ ctx.Undivided toLowerCase v.1 v.2

theorem peaceful_cons {v : Bool × MediaItem} {vs : List (Bool × MediaItem)} :
    Peaceful toLowerCase ctx w (v :: vs) ↔
      (v.2 ∈ ctx.library.catalogue ∧ ctx.Undivided toLowerCase w v.2) ∧
        Peaceful toLowerCase ctx (ctx.correlateItem toLowerCase v.1 w v.2) vs := by
  unfold Peaceful
  rw [visitsFrom, List.forall_mem_cons]

theorem Peaceful.split {before after : List (Bool × MediaItem)}
    (h : Peaceful toLowerCase ctx w (before ++ after)) :
    Peaceful toLowerCase ctx w before ∧
      Peaceful toLowerCase ctx (ctx.walkAlong toLowerCase w before) after := by
  unfold Peaceful at h ⊢
  rw [visitsFrom_append, List.forall_mem_append] at h
  exact h

theorem Proper.walkAlong {vs : List (Bool × MediaItem)} (hctx : ctx.TwoWay)
    (h : Proper toLowerCase ctx w) (hvs : Peaceful toLowerCase ctx w vs) :
    Proper toLowerCase ctx (ctx.walkAlong toLowerCase w vs) := by
  induction vs generalizing w with
  | nil => exact h
  | cons v vs ih =>
    obtain ⟨⟨hitem, hundivided⟩, hvs⟩ := peaceful_cons.mp hvs
    rw [walkAlong_cons]
    exact ih ⟨h.aligned.correlateItem, h.rooted.correlateItem hitem, fun a ha b hb =>
      (h.tracks a ha b hb).correlateItem h.aligned hundivided hctx hitem ha hb⟩ hvs

theorem Claimed.walkAlong {vs : List (Bool × MediaItem)} (hctx : ctx.TwoWay)
    (ha : a ∈ ctx.library.catalogue) (hb : b ∈ ctx.library.catalogue) (haligned : Aligned w)
    (h : Claimed toLowerCase ctx w a b) (hvs : Peaceful toLowerCase ctx w vs) :
    Claimed toLowerCase ctx (ctx.walkAlong toLowerCase w vs) a b ∧
      pairOf (ctx.walkAlong toLowerCase w vs).settled a.id b.id = pairOf w.settled a.id b.id := by
  induction vs generalizing w with
  | nil => exact ⟨h, rfl⟩
  | cons v vs ih =>
    obtain ⟨⟨hitem, hundivided⟩, hvs⟩ := peaceful_cons.mp hvs
    obtain ⟨hclaimed, hpair⟩ := @Claimed.correlateItem toLowerCase ctx v.2 w v.1 a b h haligned
      hundivided hctx hitem ha hb
    rw [walkAlong_cons]
    obtain ⟨hend, hpair'⟩ := ih haligned.correlateItem hclaimed hvs
    exact ⟨hend, hpair'.trans hpair⟩

theorem settled_walkAlong (vs : List (Bool × MediaItem)) (w : Walk) :
    (ctx.walkAlong toLowerCase w vs).settled ⊆ w.settled := by
  induction vs generalizing w with
  | nil => exact List.Subset.refl _
  | cons v vs ih =>
    rw [walkAlong_cons]
    intro row hrow
    have hmem := ih _ hrow
    obtain ⟨-, -, hsettled⟩ := @correlateItem_spec toLowerCase ctx w v.2 v.1
    rw [hsettled] at hmem
    exact List.mem_of_mem_filter hmem

/-! ### When the pass ends -/

/-- **Nothing is left that a visited item would revoke.** -/
theorem revokes_eq_false_of_end {after : List (Bool × MediaItem)} {row : MediaMatch}
    (hitem : item ∈ ctx.library.catalogue)
    (hend : Proper toLowerCase ctx (ctx.walkAlong toLowerCase w ((touch, item) :: after)))
    (hrow : row ∈ (ctx.walkAlong toLowerCase w ((touch, item) :: after)).table.rows)
    (htouches : row.touches item.id) : ctx.revokes toLowerCase item row = false := by
  -- a row still on record was there when the item was visited, and spared
  have hspared : ∀ old ∈ (ctx.walkAlong toLowerCase w ((touch, item) :: after)).settled,
      old.touches item.id → ctx.revokes toLowerCase item old = false := by
    intro old hold htouches
    rw [walkAlong_cons] at hold
    have hmem := settled_walkAlong _ _ hold
    obtain ⟨-, -, hsettled⟩ := @correlateItem_spec toLowerCase ctx w item touch
    rw [hsettled] at hmem
    obtain ⟨hmem, hkept⟩ := List.mem_filter.mp hmem
    by_contra hrevokes
    refine of_decide_eq_true hkept (List.mem_map.mpr ⟨old, ?_, rfl⟩)
    exact List.mem_filter.mpr ⟨List.mem_filter.mpr ⟨hmem, htouches⟩, eq_true_of_ne_false hrevokes⟩
  obtain ⟨other, hother, hjoins⟩ :
      ∃ other ∈ ctx.library.catalogue, row.joins item.id other.id := by
    rcases hend.rooted row hrow with ⟨old, hold, -, hpair⟩ | ⟨near, hnear, far, hfar, hfor⟩
    · obtain ⟨hlocal, hremote⟩ := Prod.mk.inj hpair
      have htouches' : old.touches item.id := by
        simpa [MediaMatch.touches, hlocal, hremote] using htouches
      have hkept := hspared old hold htouches'
      unfold revokes at hkept
      cases hside : (otherSide item old).bind ctx.byId with
      | none =>
        rw [hside] at hkept
        cases hkept
      | some other =>
        obtain ⟨id, hid, hother⟩ := Option.bind_eq_some_iff.mp hside
        have hother' := List.mem_of_find?_eq_some hother
        refine ⟨other, hother', ?_⟩
        have hotherId : other.id = id := by
          simpa using List.find?_some (p := fun x : MediaItem => decide (x.id = id)) hother
        unfold otherSide at hid
        simp only [MediaMatch.touches, MediaMatch.joins, MediaMatch.isFor, decide_eq_true_eq] at *
        rw [hlocal, hremote] at hid
        split at hid
        · next hnear => exact .inl ⟨hnear, by rw [hotherId]; exact Option.some.inj hid⟩
        · next hnear => exact .inr ⟨by rw [hotherId]; exact hid, htouches.resolve_left hnear⟩
    · simp only [MediaMatch.touches, MediaMatch.isFor, decide_eq_true_eq] at htouches hfor
      obtain ⟨hlocal, hremote⟩ := hfor
      rcases htouches with hnear' | hfar'
      · refine ⟨far, hfar, ?_⟩
        simp [MediaMatch.joins, MediaMatch.isFor, hnear', hremote]
      · refine ⟨near, hnear, ?_⟩
        simp [MediaMatch.joins, MediaMatch.isFor, hfar', hlocal]
  rcases hend.tracks item hitem other hother with hrows | hclaimed
  · refine hspared row ?_ htouches
    exact (mem_pairOf.mp (hrows ▸ mem_pairOf.mpr ⟨hrow, hjoins⟩)).1
  · rw [revokes_of_joins hother hjoins]
    rcases hclaimed.safe with hnot | ⟨-, hall⟩
    · rw [hnot, Bool.and_false]
    · rw [hall row (mem_pairOf.mpr ⟨hrow, hjoins⟩)]
      rfl

end Context

end MediaCenterSync.Correlation
