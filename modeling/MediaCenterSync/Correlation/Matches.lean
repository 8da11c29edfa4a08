import MediaCenterSync.Matching.Service

/-!
# The match table

The claims that two items are the same media, one row each, in the order they were written.  A row
has an identifier of its own; and a pair whose near side nobody detached has at most one row in each
direction, which the table's unique index sees to.  Identifiers are numbers here, given out in turn.
-/

namespace MediaCenterSync.Correlation

open Matching

/-- The claim that two items are the same media. -/
structure MediaMatch where
  id : ℕ
  /-- The item the pass happened to be walking; `none` when a person detached it. -/
  localItemId : Option String
  remoteItemId : String
  remoteServiceId : String
  remotePeerId : Option String
  strategy : MatchStrategy
  confidence : ℚ
  state : SyncState
  reason : Option String
  /-- Set when a person accepted the match. -/
  confirmedAt : Option ℕ
deriving DecidableEq

namespace MediaMatch

/-- `Object.assign(match, claim)`, which leaves what a person said alone. -/
def assign (row : MediaMatch) (claim : MatchProposal) : MediaMatch :=
  { row with
    localItemId := some claim.localItemId
    remoteItemId := claim.remoteItemId
    remoteServiceId := claim.remoteServiceId
    remotePeerId := claim.remotePeerId
    strategy := claim.strategy
    confidence := claim.confidence
    state := claim.state
    reason := claim.reason }

/-- `create(claim)` -/
def create (id : ℕ) (claim : MatchProposal) : MediaMatch :=
  { id := id
    localItemId := some claim.localItemId
    remoteItemId := claim.remoteItemId
    remoteServiceId := claim.remoteServiceId
    remotePeerId := claim.remotePeerId
    strategy := claim.strategy
    confidence := claim.confidence
    state := claim.state
    reason := claim.reason
    confirmedAt := none }

/-- The row of this pair in this direction. -/
def isFor (row : MediaMatch) (near far : String) : Bool :=
  row.localItemId = some near ∧ row.remoteItemId = far

/-- The row joins the two items, in whichever direction it was written. -/
def joins (row : MediaMatch) (a b : String) : Bool := row.isFor a b ∨ row.isFor b a

def touches (row : MediaMatch) (item : String) : Bool :=
  row.localItemId = some item ∨ row.remoteItemId = item

def decidedByHand (row : MediaMatch) : Bool := row.strategy = .MANUAL ∨ row.confirmedAt.isSome

end MediaMatch

/-- The unique index: no two rows for one pair in one direction. -/
def SeparatePairs (a b : MediaMatch) : Prop :=
  a.localItemId = none ∨ (a.localItemId, a.remoteItemId) ≠ (b.localItemId, b.remoteItemId)

structure MatchTable where
  rows : List MediaMatch
  next : ℕ
  id_lt : ∀ row ∈ rows, row.id < next
  ids : rows.Pairwise fun a b => a.id ≠ b.id
  pairs : rows.Pairwise SeparatePairs

namespace MatchTable

theorem pair_assign {row : MediaMatch} {claim : MatchProposal}
    (h : row.isFor claim.localItemId claim.remoteItemId) :
    ((row.assign claim).localItemId, (row.assign claim).remoteItemId) =
      (row.localItemId, row.remoteItemId) := by
  simp only [MediaMatch.isFor, decide_eq_true_eq] at h
  simp [MediaMatch.assign, h]

theorem pairwise_assign {rows : List MediaMatch} {R : MediaMatch → MediaMatch → Prop}
    {f : MediaMatch → MediaMatch} (hf : ∀ a b, R a b → R (f a) (f b)) (h : rows.Pairwise R) :
    (rows.map f).Pairwise R :=
  List.pairwise_map.mpr (h.imp fun {a b} => hf a b)

/-- What `upsertPair` makes of one row. -/
def rewrite (claim : MatchProposal) (row : MediaMatch) : MediaMatch :=
  if row.isFor claim.localItemId claim.remoteItemId then row.assign claim else row

theorem id_rewrite (claim : MatchProposal) (row : MediaMatch) :
    (rewrite claim row).id = row.id := by
  unfold rewrite
  split <;> rfl

theorem pair_rewrite (claim : MatchProposal) (row : MediaMatch) :
    ((rewrite claim row).localItemId, (rewrite claim row).remoteItemId) =
      (row.localItemId, row.remoteItemId) := by
  unfold rewrite
  split
  · next h => exact pair_assign h
  · rfl

theorem separate_rewrite (claim : MatchProposal) {a b : MediaMatch} (h : SeparatePairs a b) :
    SeparatePairs (rewrite claim a) (rewrite claim b) := by
  have hlocal : (rewrite claim a).localItemId = a.localItemId :=
    congrArg Prod.fst (pair_rewrite claim a)
  unfold SeparatePairs
  rw [pair_rewrite, pair_rewrite, hlocal]
  exact h

/-- `upsertPair`: writes the claim about one pair, replacing whatever was claimed before. -/
def upsertPair (t : MatchTable) (claim : MatchProposal) : MatchTable :=
  if h : ∀ row ∈ t.rows, row.isFor claim.localItemId claim.remoteItemId = false then
    { rows := t.rows ++ [.create t.next claim]
      next := t.next + 1
      id_lt := by
        intro row hrow
        rcases List.mem_append.mp hrow with hold | hnew
        · exact (t.id_lt row hold).trans (Nat.lt_succ_self _)
        · rw [List.mem_singleton.mp hnew]
          exact Nat.lt_succ_self _
      ids := by
        refine List.pairwise_append.mpr ⟨t.ids, List.pairwise_singleton .., ?_⟩
        intro a ha b hb
        rw [List.mem_singleton.mp hb]
        exact (t.id_lt a ha).ne
      pairs := by
        refine List.pairwise_append.mpr ⟨t.pairs, List.pairwise_singleton .., ?_⟩
        intro a ha b hb
        obtain rfl := List.mem_singleton.mp hb
        refine .inr fun heq => ?_
        have hnot := h a ha
        simp only [MediaMatch.create, Prod.mk.injEq] at heq
        simp [MediaMatch.isFor, heq] at hnot }
  else
    { rows := t.rows.map (rewrite claim)
      next := t.next
      id_lt := by
        intro row hrow
        obtain ⟨old, hold, rfl⟩ := List.mem_map.mp hrow
        rw [id_rewrite]
        exact t.id_lt old hold
      ids := pairwise_assign (fun a b hab => by rwa [id_rewrite, id_rewrite]) t.ids
      pairs := pairwise_assign (fun a b hab => separate_rewrite claim hab) t.pairs }

/-- `delete({ id })` -/
def delete (t : MatchTable) (id : ℕ) : MatchTable where
  rows := t.rows.filter (·.id ≠ id)
  next := t.next
  id_lt row hrow := t.id_lt row (List.mem_of_mem_filter hrow)
  ids := t.ids.filter _
  pairs := t.pairs.filter _

def VOUCHING_STRATEGIES : List MatchStrategy := [.EXTERNAL_ID, .SEASON_EPISODE, .MANUAL]

def findAppliedPairs (t : MatchTable) (threshold : ℚ) : List (String × String) :=
  t.rows.filterMap fun row => do
    let near ← row.localItemId
    if (row.state ≠ .CONFLICT ∨ row.strategy ∈ VOUCHING_STRATEGIES) ∧
        (threshold ≤ row.confidence ∨ row.confirmedAt.isSome) then
      some (near, row.remoteItemId)
    else none

end MatchTable

end MediaCenterSync.Correlation
