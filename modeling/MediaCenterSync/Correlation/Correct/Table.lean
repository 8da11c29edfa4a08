import Mathlib.Data.List.Pairwise
import MediaCenterSync.Correlation.Correct.Service

/-!
# The match table as a map

The unique index makes the table a map from directed pairs to rows: `entry` looks one up,
`upsertPair` writes at one pair (`entry_upsertPair`).  So what a list of claims does to one pair is
what the claims about that pair do (`view_foldl`), up to the identifiers of the rows they create.
-/

namespace MediaCenterSync.Correlation

open Matching

def claims (near far : String) (claim : MatchProposal) : Bool :=
  claim.localItemId = near ∧ claim.remoteItemId = far

namespace MatchTable

variable {t : MatchTable} {near far : String} {row : MediaMatch} {claim : MatchProposal}

/-- An applied pair joins the two, in one direction or the other. -/
def Joined (t : MatchTable) (threshold : ℚ) (a b : String) : Prop :=
  (a, b) ∈ t.findAppliedPairs threshold ∨ (b, a) ∈ t.findAppliedPairs threshold

instance (t : MatchTable) (threshold : ℚ) (a b : String) : Decidable (t.Joined threshold a b) :=
  inferInstanceAs (Decidable (_ ∨ _))

/-- The row of one pair in one direction. -/
def entry (t : MatchTable) (near far : String) : Option MediaMatch :=
  t.rows.find? (·.isFor near far)

theorem eq_of_id {a b : MediaMatch} (ha : a ∈ t.rows) (hb : b ∈ t.rows) (h : a.id = b.id) :
    a = b := by
  by_contra hne
  have hsymm : Std.Symm fun a b : MediaMatch => a.id ≠ b.id := ⟨fun _ _ hab => hab.symm⟩
  exact t.ids.forall ha hb hne h

theorem eq_of_isFor {a b : MediaMatch} (ha : a ∈ t.rows) (hb : b ∈ t.rows)
    (hfor : a.isFor near far) (hfor' : b.isFor near far) : a = b := by
  by_contra hne
  have hapart : t.rows.Pairwise fun a b => ¬(a.isFor near far ∧ b.isFor near far) := by
    refine t.pairs.imp fun {a b} hseparate => ?_
    simp only [MediaMatch.isFor, decide_eq_true_eq]
    rintro ⟨⟨hlocal, hremote⟩, hlocal', hremote'⟩
    rcases hseparate with hnone | hother
    · rw [hlocal] at hnone
      cases hnone
    · rw [hlocal, hremote, hlocal', hremote'] at hother
      exact hother rfl
  have hsymm : Std.Symm fun a b : MediaMatch => ¬(a.isFor near far ∧ b.isFor near far) :=
    ⟨fun _ _ hab hba => hab hba.symm⟩
  exact hapart.forall ha hb hne ⟨hfor, hfor'⟩

theorem entry_eq_some : t.entry near far = some row ↔ row ∈ t.rows ∧ row.isFor near far := by
  constructor
  · intro h
    exact ⟨List.mem_of_find?_eq_some h,
      List.find?_some (p := fun row : MediaMatch => row.isFor near far) h⟩
  · rintro ⟨hrow, hfor⟩
    obtain ⟨found, hfound⟩ := Option.isSome_iff_exists.mp
      (List.find?_isSome.mpr ⟨row, hrow, hfor⟩ : (t.entry near far).isSome)
    have hfound' : found.isFor near far :=
      List.find?_some (p := fun row : MediaMatch => row.isFor near far) hfound
    rw [eq_of_isFor hrow (List.mem_of_find?_eq_some hfound) hfor hfound']
    exact hfound

/-- What a claim makes of the row of its pair. -/
def write (next : ℕ) (claim : MatchProposal) : Option MediaMatch → MediaMatch
  | some row => row.assign claim
  | none => .create next claim

theorem isFor_rewrite : (rewrite claim row).isFor near far = row.isFor near far := by
  obtain ⟨hlocal, hremote⟩ := Prod.mk.inj (pair_rewrite claim row)
  unfold MediaMatch.isFor
  rw [hlocal, hremote]

theorem isFor_of_claims (h : claims near far claim) :
    row.isFor claim.localItemId claim.remoteItemId = row.isFor near far := by
  simp only [claims, decide_eq_true_eq] at h
  rw [h.1, h.2]

theorem entry_upsertPair : (t.upsertPair claim).entry near far =
    if claims near far claim then some (write t.next claim (t.entry near far))
    else t.entry near far := by
  unfold upsertPair
  split
  · next hnone =>
    change (t.rows ++ [_]).find? _ = _
    rw [List.find?_append]
    split
    · next hclaims =>
      -- A new row, behind all the others: it answers only for its own pair.
      have hrow : t.entry near far = none := by
        refine List.find?_eq_none.mpr fun row hrow => ?_
        rw [← isFor_of_claims hclaims, hnone row hrow]
        exact Bool.false_ne_true
      rw [show t.rows.find? _ = none from hrow, hrow]
      simp only [claims, decide_eq_true_eq] at hclaims
      simp [write, MediaMatch.isFor, MediaMatch.create, hclaims]
    · next hclaims =>
      have hnew : (MediaMatch.create t.next claim).isFor near far = false := by
        simp only [claims, decide_eq_true_eq] at hclaims
        simpa [MediaMatch.isFor, MediaMatch.create] using hclaims
      simp only [List.find?_cons, hnew, List.find?_nil, Option.or_none]
      rfl
  · next hsome =>
    push Not at hsome
    obtain ⟨old, hold, hfor⟩ := hsome
    have hfor : old.isFor claim.localItemId claim.remoteItemId := by simpa using hfor
    change (t.rows.map (rewrite claim)).find? _ = _
    -- A row that is written over answers for the pair it answered for.
    have hsame : ((·.isFor near far) : MediaMatch → Bool) ∘ rewrite claim =
        fun row => row.isFor near far := funext fun row => isFor_rewrite
    rw [List.find?_map, hsame]
    split
    · next hclaims =>
      have hrow : t.entry near far = some old :=
        entry_eq_some.mpr ⟨hold, isFor_of_claims hclaims ▸ hfor⟩
      rw [hrow, show t.rows.find? _ = some old from hrow]
      simp only [Option.map_some, write, rewrite, hfor, if_true]
    · next hclaims =>
      change Option.map _ (t.entry near far) = t.entry near far
      cases hrow : t.entry near far with
      | none => rfl
      | some row =>
        have hother : ¬ row.isFor claim.localItemId claim.remoteItemId := by
          intro hpair
          have := (entry_eq_some.mp hrow).2
          simp only [claims, MediaMatch.isFor, decide_eq_true_eq] at hclaims hpair this
          exact hclaims ⟨Option.some.inj (hpair.1.symm.trans this.1), hpair.2.symm.trans this.2⟩
        simp [rewrite, hother]

theorem next_le_upsertPair : t.next ≤ (t.upsertPair claim).next := by
  unfold upsertPair
  split
  · exact Nat.le_succ _
  · exact le_rfl

theorem next_le_foldl (claimed : List MatchProposal) (t : MatchTable) :
    t.next ≤ (claimed.foldl upsertPair t).next := by
  induction claimed generalizing t with
  | nil => exact le_rfl
  | cons claim claimed ih => exact next_le_upsertPair.trans (ih _)

/-! ### Up to the identifiers given out since -/

/-- The row, with an identifier given out since `bound` forgotten. -/
def settle (bound : ℕ) (row : MediaMatch) : MediaMatch := { row with id := min row.id bound }

/-- The row of one pair, up to an identifier given out since `bound`. -/
def view (bound : ℕ) (t : MatchTable) (near far : String) : Option MediaMatch :=
  (t.entry near far).map (settle bound)

theorem settle_write {bound next : ℕ} (h : bound ≤ next) (row : Option MediaMatch) :
    settle bound (write next claim row) = write bound claim (row.map (settle bound)) := by
  cases row with
  | none => simp [settle, write, MediaMatch.create, h]
  | some row => rfl

theorem view_foldl {bound : ℕ} (claimed : List MatchProposal) (h : bound ≤ t.next) :
    view bound (claimed.foldl upsertPair t) near far =
      (claimed.filter (claims near far)).foldl (fun row claim => some (write bound claim row))
        (view bound t near far) := by
  induction claimed generalizing t with
  | nil => rfl
  | cons claim claimed ih =>
    rw [List.foldl_cons, ih (h.trans next_le_upsertPair), List.filter_cons]
    unfold view
    rw [entry_upsertPair]
    split
    · rw [List.foldl_cons, Option.map_some, settle_write h]
    · rfl

end MatchTable

/-! ### The row on record -/

open Context

theorem joins_comm (row : MediaMatch) (a b : String) : row.joins a b = row.joins b a := by
  simp only [MediaMatch.joins, or_comm]

theorem recorded_comm (rows : List MediaMatch) (a b : String) :
    recorded rows a b = recorded rows b a := by
  unfold recorded
  exact congrArg (rows.find? ·) (funext fun row => joins_comm row a b)

theorem joins_of_recorded {rows : List MediaMatch} {a b : String} {row : MediaMatch}
    (h : recorded rows a b = some row) : row.joins a b := by
  exact List.find?_some (p := fun row : MediaMatch => row.joins a b) h

theorem joins_rewrite (claim : MatchProposal) (row : MediaMatch) (a b : String) :
    (MatchTable.rewrite claim row).joins a b = row.joins a b := by
  have hpair := MatchTable.pair_rewrite claim row
  obtain ⟨hlocal, hremote⟩ := Prod.mk.inj hpair
  rw [Bool.eq_iff_iff]
  simp [MediaMatch.joins, MediaMatch.isFor, hlocal, hremote]

theorem recorded_upsertPair {t : MatchTable} {claim : MatchProposal} {a b : String}
    {first : MediaMatch} (h : recorded t.rows a b = some first) :
    recorded (t.upsertPair claim).rows a b = some (MatchTable.rewrite claim first) := by
  unfold MatchTable.upsertPair
  split
  · next hnone =>
    have hsame : MatchTable.rewrite claim first = first := by
      unfold MatchTable.rewrite
      rw [if_neg (by rw [hnone first (List.mem_of_find?_eq_some h)]; exact Bool.false_ne_true)]
    change (t.rows ++ [_]).find? _ = _
    rw [List.find?_append, show t.rows.find? _ = some first from h, hsame]
    rfl
  · change (t.rows.map _).find? _ = _
    rw [List.find?_map]
    have hjoins : ((·.joins a b) : MediaMatch → Bool) ∘ MatchTable.rewrite claim =
        fun row => row.joins a b := funext fun row => joins_rewrite claim row a b
    rw [hjoins, show t.rows.find? _ = some first from h]
    rfl

/-! ### What is decided of a pair -/

/-- The strategy and the confidence a person gave the pair, and whether they confirmed it. -/
abbrev Decision := MatchStrategy × ℚ × Bool

def MediaMatch.decision (row : MediaMatch) : Option Decision :=
  if row.decidedByHand then some (row.strategy, row.confidence, row.confirmedAt.isSome) else none

/-- What the row on record for the pair decides. -/
def decision (rows : List MediaMatch) (a b : String) : Option Decision :=
  (recorded rows a b).bind (·.decision)

/-- The claim says what was decided; where nothing was, it is none of a person's. -/
def Respects (decided : Option Decision) (claim : MatchProposal) : Prop :=
  match decided with
  | some (strategy, confidence, _) => claim.strategy = strategy ∧ claim.confidence = confidence
  | none => claim.strategy ≠ .MANUAL

def pairOf (rows : List MediaMatch) (a b : String) : List MediaMatch := rows.filter (·.joins a b)

variable {t : MatchTable} {claim : MatchProposal} {a b : String} {row : MediaMatch}

theorem mem_pairOf {rows : List MediaMatch} :
    row ∈ pairOf rows a b ↔ row ∈ rows ∧ row.joins a b := List.mem_filter

theorem pairOf_filter (rows : List MediaMatch) (kept : MediaMatch → Bool) (a b : String) :
    pairOf (rows.filter kept) a b = (pairOf rows a b).filter kept := List.filter_comm ..

theorem pairOf_comm (rows : List MediaMatch) (a b : String) :
    pairOf rows a b = pairOf rows b a := by
  unfold pairOf
  exact congrArg (rows.filter ·) (funext fun row => joins_comm row a b)

theorem decision_comm (rows : List MediaMatch) (a b : String) :
    decision rows a b = decision rows b a := by
  unfold decision
  rw [recorded_comm]

theorem decision_congr {rows rows' : List MediaMatch} (h : pairOf rows a b = pairOf rows' a b) :
    decision rows a b = decision rows' a b := by
  unfold decision recorded
  rw [← List.head?_filter, ← List.head?_filter]
  exact congrArg (fun rows : List MediaMatch => rows.head?.bind (·.decision)) h

theorem joins_of_claims (h : claims a b claim || claims b a claim)
    (hfor : row.isFor claim.localItemId claim.remoteItemId) : row.joins a b := by
  simp only [claims, Bool.or_eq_true, decide_eq_true_eq, MediaMatch.joins, MediaMatch.isFor] at *
  rcases h with ⟨hlocal, hremote⟩ | ⟨hlocal, hremote⟩
  · exact .inl (by rw [← hlocal, ← hremote]; exact hfor)
  · exact .inr (by rw [← hlocal, ← hremote]; exact hfor)

theorem claims_of_joins (hjoins : row.joins a b)
    (hfor : row.isFor claim.localItemId claim.remoteItemId) :
    claims a b claim || claims b a claim := by
  simp only [claims, Bool.or_eq_true, decide_eq_true_eq, MediaMatch.joins, MediaMatch.isFor] at *
  obtain ⟨hlocal, hremote⟩ := hfor
  rw [hlocal, hremote, Option.some.injEq, Option.some.injEq] at hjoins
  exact hjoins

theorem isFor_create (next : ℕ) (claim : MatchProposal) :
    (MediaMatch.create next claim).isFor claim.localItemId claim.remoteItemId := by
  simp [MediaMatch.isFor, MediaMatch.create]

theorem pairOf_upsertPair (h : (claims a b claim || claims b a claim) = false) :
    pairOf (t.upsertPair claim).rows a b = pairOf t.rows a b := by
  have hnot : ∀ row : MediaMatch, row.joins a b →
      row.isFor claim.localItemId claim.remoteItemId = false := by
    intro row hjoins
    by_contra hfor
    rw [claims_of_joins hjoins (eq_true_of_ne_false hfor)] at h
    cases h
  unfold MatchTable.upsertPair pairOf
  split
  · rw [List.filter_append, List.filter_singleton]
    have hnew : (MediaMatch.create t.next claim).joins a b = false := by
      by_contra hjoins
      have := hnot _ (eq_true_of_ne_false hjoins)
      rw [isFor_create] at this
      cases this
    rw [hnew]
    exact List.append_nil _
  · rw [List.filter_map]
    have hsame : ((·.joins a b) : MediaMatch → Bool) ∘ MatchTable.rewrite claim =
        fun row => row.joins a b := funext fun row => joins_rewrite claim row a b
    rw [hsame]
    refine (List.map_congr_left fun row hrow => ?_).trans (List.map_id _)
    unfold MatchTable.rewrite
    rw [if_neg (by rw [hnot row (List.mem_filter.mp hrow).2]; exact Bool.false_ne_true)]
    rfl

theorem decision_upsertPair (h : claims a b claim || claims b a claim)
    (hrespects : Respects (decision t.rows a b) claim) :
    decision (t.upsertPair claim).rows a b = decision t.rows a b := by
  cases hfirst : recorded t.rows a b with
  | some first =>
    unfold decision at hrespects ⊢
    rw [recorded_upsertPair hfirst]
    rw [hfirst] at hrespects ⊢
    unfold MatchTable.rewrite
    split
    · simp only [Option.bind_some, MediaMatch.decision] at hrespects ⊢
      cases hdecided : first.decidedByHand with
      | true =>
        rw [hdecided, if_pos rfl] at hrespects
        obtain ⟨hstrategy, hconfidence⟩ := hrespects
        have : (first.assign claim).decidedByHand := by
          simpa [MediaMatch.decidedByHand, MediaMatch.assign, hstrategy] using hdecided
        rw [this]
        simp [MediaMatch.assign, hstrategy, hconfidence]
      | false =>
        rw [hdecided, if_neg Bool.false_ne_true] at hrespects
        have : (first.assign claim).decidedByHand = false := by
          simp only [MediaMatch.decidedByHand, decide_eq_false_iff_not, not_or] at hdecided ⊢
          exact ⟨hrespects, hdecided.2⟩
        rw [this, if_neg Bool.false_ne_true, if_neg Bool.false_ne_true]
    · rfl
  | none =>
    have hnone : ∀ row ∈ t.rows, row.isFor claim.localItemId claim.remoteItemId = false := by
      intro row hrow
      by_contra hfor
      exact List.find?_eq_none.mp hfirst row hrow (joins_of_claims h (eq_true_of_ne_false hfor))
    unfold decision at hrespects ⊢
    rw [hfirst] at hrespects ⊢
    have hnew : recorded (t.upsertPair claim).rows a b = some (.create t.next claim) := by
      unfold MatchTable.upsertPair recorded
      rw [dif_pos hnone, List.find?_append, show t.rows.find? _ = none from hfirst, Option.none_or,
        List.find?_singleton, if_pos (joins_of_claims h (isFor_create ..))]
    rw [hnew, Option.bind_some, Option.bind_none]
    have hstrategy : claim.strategy ≠ .MANUAL := hrespects
    simp [MediaMatch.decision, MediaMatch.decidedByHand, MediaMatch.create, hstrategy]

def AllDecided (rows : List MediaMatch) (a b : String) : Prop :=
  ∀ row ∈ pairOf rows a b, row.decidedByHand

/-- What the claim is written as is decided by hand. -/
def Stands (t : MatchTable) (claim : MatchProposal) : Prop :=
  claim.strategy = .MANUAL ∨
    ∃ row ∈ t.rows, row.isFor claim.localItemId claim.remoteItemId ∧ row.confirmedAt.isSome

instance : Decidable (Stands t claim) := inferInstanceAs (Decidable (_ ∨ _))

theorem confirmedAt_rewrite : (MatchTable.rewrite claim row).confirmedAt = row.confirmedAt := by
  unfold MatchTable.rewrite
  split <;> rfl

theorem mem_upsertPair_cases (h : row ∈ (t.upsertPair claim).rows) :
    (∃ old ∈ t.rows, row = MatchTable.rewrite claim old) ∨
      row = .create t.next claim ∧
        ∀ old ∈ t.rows, old.isFor claim.localItemId claim.remoteItemId = false := by
  unfold MatchTable.upsertPair at h
  split at h
  · next hnone =>
    rcases List.mem_append.mp h with hold | hnew
    · refine .inl ⟨row, hold, ?_⟩
      unfold MatchTable.rewrite
      rw [if_neg (by rw [hnone row hold]; exact Bool.false_ne_true)]
    · exact .inr ⟨List.mem_singleton.mp hnew, hnone⟩
  · obtain ⟨old, hold, rfl⟩ := List.mem_map.mp h
    exact .inl ⟨old, hold, rfl⟩

theorem mem_upsertPair_of_mem (h : row ∈ t.rows) :
    MatchTable.rewrite claim row ∈ (t.upsertPair claim).rows := by
  unfold MatchTable.upsertPair
  split
  · next hnone =>
    have hsame : MatchTable.rewrite claim row = row := by
      unfold MatchTable.rewrite
      rw [if_neg (by rw [hnone row h]; exact Bool.false_ne_true)]
    rw [hsame]
    exact List.mem_append_left _ h
  · exact List.mem_map_of_mem h

theorem Stands.upsertPair {other : MatchProposal} (h : Stands t claim) :
    Stands (t.upsertPair other) claim := by
  rcases h with hmanual | ⟨row, hrow, hfor, hconfirmed⟩
  · exact .inl hmanual
  · refine .inr ⟨_, mem_upsertPair_of_mem hrow, ?_, ?_⟩
    · rw [MatchTable.isFor_rewrite]
      exact hfor
    · rw [confirmedAt_rewrite]
      exact hconfirmed

theorem AllDecided.upsertPair (h : AllDecided t.rows a b)
    (hstands : claims a b claim || claims b a claim → Stands t claim) :
    AllDecided (t.upsertPair claim).rows a b := by
  intro row hrow
  obtain ⟨hmem, hjoins⟩ := mem_pairOf.mp hrow
  rcases mem_upsertPair_cases hmem with ⟨old, hold, rfl⟩ | ⟨rfl, hnone⟩
  · rw [joins_rewrite] at hjoins
    have hdecided := h old (mem_pairOf.mpr ⟨hold, hjoins⟩)
    unfold MatchTable.rewrite
    split
    · next hfor =>
      rcases hstands (claims_of_joins hjoins hfor) with hmanual | ⟨row, hrow, hfor', hconfirmed⟩
      · simp [MediaMatch.decidedByHand, MediaMatch.assign, hmanual]
      · rw [MatchTable.eq_of_isFor hold hrow hfor hfor']
        simp [MediaMatch.decidedByHand, MediaMatch.assign, hconfirmed]
    · exact hdecided
  · rcases hstands (claims_of_joins hjoins (isFor_create ..)) with hmanual | ⟨row, hrow, hfor, -⟩
    · simp [MediaMatch.decidedByHand, MediaMatch.create, hmanual]
    · rw [hnone row hrow] at hfor
      cases hfor

/-- A row of the table after some claims is one it had, or one of the claims created it. -/
theorem mem_foldl_upsertPair {claimed : List MatchProposal}
    (h : row ∈ (claimed.foldl MatchTable.upsertPair t).rows) :
    (∃ old ∈ t.rows, old.id = row.id ∧
      (old.localItemId, old.remoteItemId) = (row.localItemId, row.remoteItemId)) ∨
        t.next ≤ row.id ∧ ∃ p ∈ claimed, row.isFor p.localItemId p.remoteItemId := by
  induction claimed generalizing t with
  | nil => exact .inl ⟨row, h, rfl, rfl⟩
  | cons claim claimed ih =>
    rcases ih h with ⟨old, hold, hid, hpair⟩ | ⟨hnew, p, hp, hfor⟩
    · rcases mem_upsertPair_cases hold with ⟨older, holder, rfl⟩ | ⟨rfl, -⟩
      · exact .inl ⟨older, holder, (MatchTable.id_rewrite ..).symm.trans hid,
          (MatchTable.pair_rewrite ..).symm.trans hpair⟩
      · refine .inr ⟨hid.le, claim, List.mem_cons_self, ?_⟩
        obtain ⟨hlocal, hremote⟩ := Prod.mk.inj hpair
        simp [MediaMatch.isFor, ← hlocal, ← hremote, MediaMatch.create]
    · exact .inr ⟨MatchTable.next_le_upsertPair.trans hnew, p, List.mem_cons_of_mem _ hp, hfor⟩

end MediaCenterSync.Correlation
