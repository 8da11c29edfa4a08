import MediaCenterSync.Correlation.Correct.Table
import MediaCenterSync.Lib.LabelledRun

/-!
# What a person decided

A row decided by hand should outlive every pass.  A pass restores a decision onto the proposal for
its pair; but it looks the decision up by the pair, whichever way round it was written, and takes
the first row it finds.  Where that is the row itself, or one with the same decision (`Leads`), the
row outlives every sequence of passes that leaves both its items in the catalogue
(`kept_of_leads`).  Where a row of the other direction comes first, the decision is written over
(`overwritten_byMirror`).
-/

namespace MediaCenterSync.Correlation

open Matching LabelledRun

/-- A pass, with what it reads beside the matches. -/
structure Pass where
  library : Library
  serviceId : String
  threshold : ℚ

def Pass.Remain (pass : Pass) (row : MediaMatch) : Prop :=
  (∃ item ∈ pass.library.catalogue, row.localItemId = some item.id) ∧
    ∃ item ∈ pass.library.catalogue, row.remoteItemId = item.id

namespace MediaMatch

/-- The same row, with what it said of the identity of the two items unchanged. -/
structure SameDecision (a b : MediaMatch) : Prop where
  id : a.id = b.id
  localItemId : a.localItemId = b.localItemId
  remoteItemId : a.remoteItemId = b.remoteItemId
  strategy : a.strategy = b.strategy
  confidence : a.confidence = b.confidence
  confirmedAt : a.confirmedAt = b.confirmedAt

variable {a b c : MediaMatch}

theorem SameDecision.refl (a : MediaMatch) : a.SameDecision a := ⟨rfl, rfl, rfl, rfl, rfl, rfl⟩

theorem SameDecision.trans (h : a.SameDecision b) (h' : b.SameDecision c) : a.SameDecision c :=
  ⟨h.id.trans h'.id, h.localItemId.trans h'.localItemId, h.remoteItemId.trans h'.remoteItemId,
    h.strategy.trans h'.strategy, h.confidence.trans h'.confidence,
    h.confirmedAt.trans h'.confirmedAt⟩

theorem SameDecision.decidedByHand (h : a.SameDecision b) : a.decidedByHand = b.decidedByHand := by
  simp only [MediaMatch.decidedByHand, h.strategy, h.confirmedAt]

theorem SameDecision.isFor (h : a.SameDecision b) (near far : String) :
    a.isFor near far = b.isFor near far := by
  simp only [MediaMatch.isFor, h.localItemId, h.remoteItemId]

theorem sameDecision_rewrite {claim : MatchProposal}
    (h : a.isFor claim.localItemId claim.remoteItemId →
      claim.strategy = a.strategy ∧ claim.confidence = a.confidence) :
    (MatchTable.rewrite claim a).SameDecision a := by
  unfold MatchTable.rewrite
  split
  · next hfor =>
    obtain ⟨hstrategy, hconfidence⟩ := h hfor
    have hpair := MatchTable.pair_assign hfor
    exact ⟨rfl, congrArg Prod.fst hpair, congrArg Prod.snd hpair, hstrategy, hconfidence, rfl⟩
  · exact .refl a

end MediaMatch

namespace MatchTable

variable {t : MatchTable} {row : MediaMatch}

/-- The row is still there, and says what it said. -/
def Kept (row : MediaMatch) (t : MatchTable) : Prop := ∃ row' ∈ t.rows, row'.SameDecision row

theorem kept_upsertPair {claim : MatchProposal} (h : Kept row t)
    (hclaim : row.isFor claim.localItemId claim.remoteItemId →
      claim.strategy = row.strategy ∧ claim.confidence = row.confidence) :
    Kept row (t.upsertPair claim) := by
  obtain ⟨row', hrow', hsame⟩ := h
  refine ⟨rewrite claim row', mem_upsertPair_of_mem hrow', .trans ?_ hsame⟩
  refine MediaMatch.sameDecision_rewrite fun hfor => ?_
  rw [hsame.strategy, hsame.confidence]
  exact hclaim (hsame.isFor .. ▸ hfor)

theorem kept_delete {id : ℕ} (h : Kept row t) (hid : id ≠ row.id) : Kept row (t.delete id) := by
  obtain ⟨row', hrow', hsame⟩ := h
  refine ⟨row', List.mem_filter.mpr ⟨hrow', ?_⟩, hsame⟩
  simpa [hsame.id] using hid.symm

end MatchTable

open Context

variable {toLowerCase : String → String}

theorem recorded_filter {rows : List MediaMatch} {id : ℕ} {a b : String} {first : MediaMatch}
    (h : recorded rows a b = some first) (hid : first.id ≠ id) :
    recorded (rows.filter (·.id ≠ id)) a b = some first := by
  unfold recorded at h ⊢
  rw [List.find?_filter]
  obtain ⟨hjoins, before, after, hrows, hbefore⟩ := List.find?_eq_some_iff_append.mp h
  refine List.find?_eq_some_iff_append.mpr ⟨by simp [hjoins, hid], before, after, hrows, ?_⟩
  intro row hrow
  have := hbefore row hrow
  simp_all

/-- The first row on record for the row's pair is decided by hand too, and decides the same. -/
def Leads (row : MediaMatch) (rows : List MediaMatch) : Prop :=
  ∀ near ∈ row.localItemId, ∀ first ∈ recorded rows near row.remoteItemId,
    first.decidedByHand ∧ first.strategy = row.strategy ∧ first.confidence = row.confidence

/-! ### One pass -/

theorem revokes_eq_false {ctx : Context} {item : MediaItem} {row : MediaMatch}
    (hdecided : row.decidedByHand)
    (hnear : ∃ near ∈ ctx.library.catalogue, row.localItemId = some near.id)
    (hfar : ∃ far ∈ ctx.library.catalogue, row.remoteItemId = far.id) :
    ctx.revokes toLowerCase item row = false := by
  obtain ⟨near, hnear, hlocal⟩ := hnear
  obtain ⟨far, hfar, hremote⟩ := hfar
  have hother : ((otherSide item row).bind ctx.byId).isSome := by
    unfold otherSide
    split
    · rw [hremote]
      exact byId_isSome hfar
    · rw [hlocal]
      exact byId_isSome hnear
  unfold Context.revokes
  cases hby : (otherSide item row).bind ctx.byId with
  | none => rw [hby] at hother; cases hother
  | some other => simp [hdecided]

/-- What the walk of one pass keeps of a decided row: the row, and the decision that leads it, in
the table and in the snapshot. -/
structure Holds (table : MatchTable) (row first : MediaMatch) (near : String) (w : Walk) :
    Prop where
  kept : MatchTable.Kept row w.table
  leading : ∃ leader, recorded w.table.rows near row.remoteItemId = some leader ∧
    leader.SameDecision first
  settled : ∀ other ∈ w.settled, other ∈ table.rows
  recorded : recorded w.settled near row.remoteItemId = some first

section

variable {table : MatchTable} {row first : MediaMatch} {near : String} {ctx : Context}
  {item : MediaItem} {w w' : Walk}

theorem Holds.claim (h : Holds table row first near w) (hdecided : first.decidedByHand)
    {p : MatchProposal} (hp : p ∈ ctx.proposals toLowerCase w item) {other : MediaMatch}
    (hpair : other.joins near row.remoteItemId)
    (hfor : other.isFor p.localItemId p.remoteItemId) :
    p.strategy = first.strategy ∧ p.confidence = first.confidence := by
  have hlocal := localItemId_of_mem hp
  refine respects_of_mem hp ?_ hdecided
  rw [hlocal] at hfor
  simp only [MediaMatch.joins, MediaMatch.isFor, decide_eq_true_eq] at hpair hfor
  rcases hpair with ⟨hnear, hfar⟩ | ⟨hnear, hfar⟩
  · obtain rfl : near = item.id := Option.some.inj (hnear.symm.trans hfor.1)
    rw [← hfor.2, hfar]
    exact h.recorded
  · have hitem : row.remoteItemId = item.id := Option.some.inj (hnear.symm.trans hfor.1)
    rw [← hfor.2, hfar, recorded_comm, ← hitem]
    exact h.recorded

theorem Holds.correlateItem (h : Holds table row first near w) (hrow : row ∈ table.rows)
    (hlocal : row.localItemId = some near) (hdecided : row.decidedByHand)
    (hfirst : first.decidedByHand ∧ first.strategy = row.strategy ∧
      first.confidence = row.confidence)
    (hnear : ∃ item ∈ ctx.library.catalogue, near = item.id)
    (hfar : ∃ item ∈ ctx.library.catalogue, row.remoteItemId = item.id) (touch : Bool) :
    Holds table row first near (ctx.correlateItem toLowerCase touch w item) := by
  have hjoins : row.joins near row.remoteItemId := by
    simp [MediaMatch.joins, MediaMatch.isFor, hlocal]
  have hfirstJoins := joins_of_recorded h.recorded
  refine correlateItem_induction h ?_ ?_ fun _ _ hw' => ⟨hw'.kept, hw'.leading, hw'.settled,
    hw'.recorded⟩
  · -- a claim about the pair, in either direction, says what the leading row says
    intro w' p hw' hp
    have hclaim := fun {other : MediaMatch} => @Holds.claim _ _ _ _ _ _ _ _ h hfirst.1 p hp other
    obtain ⟨leader, hleader, hsame⟩ := hw'.leading
    refine ⟨?_, ⟨_, recorded_upsertPair hleader, .trans ?_ hsame⟩, hw'.settled, hw'.recorded⟩
    · refine MatchTable.kept_upsertPair hw'.kept fun hfor => ?_
      rw [← hfirst.2.1, ← hfirst.2.2]
      exact hclaim hjoins hfor
    · refine MediaMatch.sameDecision_rewrite fun hfor => ?_
      rw [hsame.strategy, hsame.confidence]
      exact hclaim (joins_of_recorded hleader) hfor
  · -- neither the row nor the one that leads it is revoked
    intro w' other hw' hother _ hrevokes
    have hspared : ∀ {spared : MediaMatch}, spared ∈ table.rows → spared.decidedByHand →
        spared.joins near row.remoteItemId → spared.id ≠ other.id := by
      intro spared hmem hspared hpair hid
      obtain rfl := MatchTable.eq_of_id hmem (h.settled other hother) hid
      have hkeeps : ctx.revokes toLowerCase item spared = false := by
        simp only [MediaMatch.joins, MediaMatch.isFor, decide_eq_true_eq] at hpair
        obtain ⟨a, ha, rfl⟩ := hnear
        obtain ⟨b, hb, hremote⟩ := hfar
        rcases hpair with ⟨h1, h2⟩ | ⟨h1, h2⟩
        · exact revokes_eq_false hspared ⟨a, ha, h1⟩ ⟨b, hb, h2.trans hremote⟩
        · exact revokes_eq_false hspared ⟨b, hb, by rw [h1, hremote]⟩ ⟨a, ha, h2⟩
      rw [hkeeps] at hrevokes
      cases hrevokes
    have hfirstMem := h.settled first (List.mem_of_find?_eq_some h.recorded)
    have hfirstId := hspared hfirstMem hfirst.1 hfirstJoins
    obtain ⟨leader, hleader, hsame⟩ := hw'.leading
    refine ⟨?_, ⟨leader, ?_, hsame⟩, ?_, ?_⟩
    · exact MatchTable.kept_delete hw'.kept (hspared hrow hdecided hjoins).symm
    · exact recorded_filter hleader (hsame.id ▸ hfirstId)
    · exact fun r hr => hw'.settled r (List.mem_of_mem_filter hr)
    · exact recorded_filter hw'.recorded hfirstId

end

/-! ### Sequences of passes -/

section

variable (toLowerCase) (arithmetic : Arithmetic)

def pass (table : MatchTable) (p : Pass) : Option MatchTable :=
  some (correlateService toLowerCase arithmetic p.library p.serviceId p.threshold table).1.table

end

variable {arithmetic : Arithmetic} {table table' : MatchTable} {row : MediaMatch}

theorem kept_pass {p : Pass} (hrow : row ∈ table.rows) (hdecided : row.decidedByHand)
    (hleads : Leads row table.rows) (hremain : p.Remain row)
    (hs : pass toLowerCase arithmetic table p = some table') :
    MatchTable.Kept row table' ∧ Leads row table'.rows := by
  cases hs
  obtain ⟨⟨near, hnear, hlocal⟩, ⟨far, hfar, hremote⟩⟩ := hremain
  have hjoins : row.joins near.id row.remoteItemId := by
    simp [MediaMatch.joins, MediaMatch.isFor, hlocal]
  obtain ⟨first, hfirst⟩ : ∃ first, recorded table.rows near.id row.remoteItemId = some first :=
    Option.isSome_iff_exists.mp (List.find?_isSome.mpr ⟨row, hrow, hjoins⟩)
  have hdecision := hleads near.id hlocal first hfirst
  have hstart : Holds table row first near.id
      (start (context toLowerCase arithmetic p.library p.threshold) table) :=
    ⟨⟨row, hrow, .refl row⟩, ⟨first, hfirst, .refl first⟩, fun _ h => h, hfirst⟩
  have hholds := correlateService_induction p.serviceId hstart fun touch w item hw _ =>
    hw.correlateItem hrow hlocal hdecided hdecision ⟨near, hnear, rfl⟩ ⟨far, hfar, hremote⟩ touch
  refine ⟨hholds.kept, ?_⟩
  intro near' hnear' leader hleader
  obtain rfl := Option.some.inj (hlocal.symm.trans hnear')
  obtain ⟨leader', hleader', hsame⟩ := hholds.leading
  obtain rfl := Option.some.inj (hleader'.symm.trans hleader)
  rw [hsame.decidedByHand, hsame.strategy, hsame.confidence]
  exact hdecision

/-- **A decided row outlives every sequence of passes** that leaves both its items in the catalogue,
when the first row on record for its pair is decided too and decides the same. -/
theorem kept_of_leads {passes : List Pass}
    (h : Run (pass toLowerCase arithmetic) (fun _ p => p.Remain row) table passes table')
    (hrow : row ∈ table.rows) (hdecided : row.decidedByHand) (hleads : Leads row table.rows) :
    MatchTable.Kept row table' := by
  refine (h.invariant (I := fun t => MatchTable.Kept row t ∧ Leads row t.rows) ?_
    ⟨⟨row, hrow, .refl row⟩, hleads⟩).1
  rintro t p t' ⟨⟨row', hrow', hsame⟩, hleads⟩ hremain hs
  have hleads' : Leads row' t.rows := by
    intro near hnear first hfirst
    rw [hsame.localItemId] at hnear
    rw [hsame.remoteItemId] at hfirst
    rw [hsame.strategy, hsame.confidence]
    exact hleads near hnear first hfirst
  have hremain' : p.Remain row' := by
    unfold Pass.Remain
    rw [hsame.localItemId, hsame.remoteItemId]
    exact hremain
  obtain ⟨⟨row'', hrow'', hsame'⟩, hleads''⟩ :=
    kept_pass hrow' (hsame.decidedByHand.trans hdecided) hleads' hremain' hs
  refine ⟨⟨row'', hrow'', hsame'.trans hsame⟩, fun near hnear first hfirst => ?_⟩
  rw [← hsame.strategy, ← hsame.confidence]
  exact hleads'' near (hsame.localItemId ▸ hnear) first (hsame.remoteItemId ▸ hfirst)

/-! ### A pair that is on record both ways round -/

def film (id serviceId : String) : MediaItem :=
  { id := id, serviceId := serviceId, parentId := none, kind := .MOVIE, title := "Sintel"
    normalizedTitle := "sintel", year := some 2010, seasonNumber := none, episodeNumber := none
    externalIds := { imdb := some "tt1727587" }, file := none, syncState := .UNKNOWN }

/-- Two services with a copy each, and a pass over the first. -/
def twoCopies : Pass :=
  { library :=
      { catalogue := [film "here" "ours", film "there" "theirs"]
        ids := by decide
        services := [⟨"ours", none, true⟩, ⟨"theirs", some "peer", false⟩]
        landings := [] }
    serviceId := "ours"
    threshold := 8 / 10 }

def inferred (id : ℕ) (near far farService : String) : MediaMatch :=
  { id := id, localItemId := some near, remoteItemId := far, remoteServiceId := farService
    remotePeerId := none, strategy := .EXTERNAL_ID, confidence := 98 / 100, state := .IN_SYNC
    reason := none, confirmedAt := none }

def confirmed (id : ℕ) (near far farService : String) : MediaMatch :=
  { inferred id near far farService with
    strategy := .MANUAL, confidence := 1, confirmedAt := some 0 }

/-- The pair in both directions; the row of the service's own item is the one that was confirmed. -/
def confirmedFirst : MatchTable :=
  { rows := [confirmed 0 "here" "there" "theirs", inferred 1 "there" "here" "ours"]
    next := 2, id_lt := by decide, ids := by decide, pairs := by unfold SeparatePairs; decide }

def confirmedLast : MatchTable :=
  { rows := [inferred 0 "there" "here" "ours", confirmed 1 "here" "there" "theirs"]
    next := 2, id_lt := by decide, ids := by decide, pairs := by unfold SeparatePairs; decide }

theorem kept_of_leads_confirmedFirst :
    MatchTable.Kept (confirmed 0 "here" "there" "theirs")
      (correlateService id .exact twoCopies.library "ours" (8 / 10) confirmedFirst).1.table := by
  have hremain : twoCopies.Remain (confirmed 0 "here" "there" "theirs") :=
    ⟨⟨film "here" "ours", by decide, rfl⟩, ⟨film "there" "theirs", by decide, rfl⟩⟩
  have hrun : Run (pass id .exact) (fun _ p => p.Remain (confirmed 0 "here" "there" "theirs"))
      confirmedFirst [twoCopies] _ := .cons hremain rfl (.nil _)
  refine kept_of_leads hrun List.mem_cons_self (by decide) ?_
  intro near hnear first hfirst
  cases hnear
  obtain rfl : first = confirmed 0 "here" "there" "theirs" := by
    have : recorded confirmedFirst.rows "here" "there" =
      some (confirmed 0 "here" "there" "theirs") := by decide +kernel
    exact Option.some.inj (hfirst.symm.trans this)
  exact ⟨by decide, rfl, rfl⟩

/-- **A decision is written over** where a row of the other direction, which nobody decided, comes
first. -/
theorem overwritten_byMirror :
    ¬ ∀ (toLowerCase : String → String) arithmetic table passes table' row,
      Run (pass toLowerCase arithmetic) (fun _ p => p.Remain row) table passes table' →
        row ∈ table.rows → row.decidedByHand → MatchTable.Kept row table' := by
  intro h
  have hremain : twoCopies.Remain (confirmed 1 "here" "there" "theirs") :=
    ⟨⟨film "here" "ours", by decide, rfl⟩, ⟨film "there" "theirs", by decide, rfl⟩⟩
  obtain ⟨row, hrow, hsame⟩ := h id .exact confirmedLast [twoCopies] _ _
    (.cons hremain rfl (.nil _)) (List.mem_cons_of_mem _ List.mem_cons_self) (by decide)
  have hlost : ∀ row ∈ (correlateService id .exact twoCopies.library "ours" (8 / 10)
      confirmedLast).1.table.rows, row.id = 1 → row.strategy = .EXTERNAL_ID := by decide +kernel
  have hstrategy := (hlost row hrow hsame.id).symm.trans hsame.strategy
  cases hstrategy

end MediaCenterSync.Correlation
