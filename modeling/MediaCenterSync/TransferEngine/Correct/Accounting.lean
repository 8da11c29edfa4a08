import Mathlib.Algebra.Order.BigOperators.Group.List
import MediaCenterSync.Lib.Lists
import MediaCenterSync.TransferEngine.Correct.RoundTrip
import MediaCenterSync.TransferEngine.Correct.Run

/-!
# What the counter of a plan stands for

The bytes of the chunks that are done, and those that are in flight: `Balanced`, of a plan and the
fetches that have a chunk of it.  A plan that is balanced counts no more than there is
(`Balanced.le`), and it stays balanced when a chunk is taken (`Balanced.mark`, `Balanced.add`), when
bytes of it are counted (`Balanced.writes`), and when it is done (`Balanced.finishes`,
`Balanced.finishesAll`) or given up (`Balanced.drop`).
-/

namespace MediaCenterSync.TransferEngine

variable {plan plan' : ChunkPlan} {fetches fetches' rest : List Fetch} {f f' : Fetch}
variable {chunk : PlannedChunk} {wholeFile : Bool} {position i n : ℕ}

/-! ### Bytes -/

def ChunkPlan.doneBytes (plan : ChunkPlan) : ℕ :=
  ((plan.chunks.filter (·.state = .DONE)).map (·.size)).sum

/-- The sum of the sizes of all of them. -/
def ChunkPlan.allBytes (plan : ChunkPlan) : ℕ := (plan.chunks.map (·.size)).sum

def ChunkPlan.startOf (plan : ChunkPlan) (i : ℕ) : ℕ := ((plan.chunks[i]?).map (·.start)).getD 0

/-- The bytes of a fetch that were counted while it is under way. -/
def Fetch.counted (plan : ChunkPlan) (f : Fetch) : ℕ :=
  match f.stage with
  | .streaming _ position | .paying _ position _ => position - plan.startOf f.chunk
  | .asked | .saving _ _ => 0

/-- A fetch is under way until how it ended is recorded. -/
def Fetch.streams (f : Fetch) : List Fetch :=
  match f.stage with
  | .saving _ _ => []
  | .asked | .streaming _ _ | .paying _ _ _ => [f]

def PlannedChunk.doneBytes (chunk : PlannedChunk) : ℕ :=
  if chunk.state = .DONE then chunk.size else 0

def PlannedChunk.openBytes (chunk : PlannedChunk) : ℕ :=
  if chunk.state = .DONE then 0 else chunk.size

theorem doneBytes_eq (plan : ChunkPlan) : plan.doneBytes = (plan.chunks.map (·.doneBytes)).sum := by
  unfold ChunkPlan.doneBytes
  induction plan.chunks with
  | nil => rfl
  | cons chunk chunks ih =>
    rw [List.map_cons, List.sum_cons, ← ih, List.filter_cons]
    by_cases hdone : chunk.state = .DONE <;> simp [hdone, PlannedChunk.doneBytes]

theorem done_add_open (plan : ChunkPlan) :
    plan.doneBytes + (plan.chunks.map (·.openBytes)).sum = plan.allBytes := by
  rw [doneBytes_eq, ChunkPlan.allBytes]
  induction plan.chunks with
  | nil => rfl
  | cons chunk chunks ih =>
    have hchunk : chunk.doneBytes + chunk.openBytes = chunk.size := by
      unfold PlannedChunk.doneBytes PlannedChunk.openBytes
      split <;> omega
    simp only [List.map_cons, List.sum_cons]
    omega

theorem doneBytes_le (plan : ChunkPlan) : plan.doneBytes ≤ plan.allBytes := by
  rw [← done_add_open]
  exact Nat.le_add_right _ _

theorem startOf_of_chunk (h : plan.chunks[i]? = some chunk) : plan.startOf i = chunk.start := by
  rw [ChunkPlan.startOf, h]
  rfl

theorem counted_at (h : f.stage.At wholeFile position) :
    f.counted plan = position - plan.startOf f.chunk := by
  obtain ⟨i, source, stage⟩ := f
  cases h <;> rfl

theorem counted_asked (h : f.stage = .asked) : f.counted plan = 0 := by
  rw [Fetch.counted, h]

theorem exists_at (h : 0 < f.counted plan) :
    ∃ wholeFile position, f.stage.At wholeFile position := by
  obtain ⟨i, source, stage⟩ := f
  cases stage with
  | asked | saving => exact absurd h (Nat.lt_irrefl 0)
  | streaming wholeFile position => exact ⟨wholeFile, position, .streaming⟩
  | paying wholeFile position => exact ⟨wholeFile, position, .paying⟩

theorem streams_at (h : f.stage.At wholeFile position) : f.streams = [f] := by
  obtain ⟨i, source, stage⟩ := f
  cases h <;> rfl

/-! ### The balance -/

/-- A fetch has its chunk, and of a range no more than the chunk. -/
structure Fetch.Within (f : Fetch) (chunk : PlannedChunk) : Prop where
  taken : chunk.state ≠ .PENDING
  range : ∀ position, f.stage.At false position → chunk.start ≤ position ∧
    position ≤ chunk.start + chunk.size ∧ (chunk.start < position → chunk.state ≠ .DONE)

/-- The counter of a plan is the bytes that are done and those of the fetches under way. -/
structure Balanced (plan : ChunkPlan) (fetches : List Fetch) : Prop where
  size_le : plan.allBytes ≤ plan.bytesTotal
  inside : ∀ chunk ∈ plan.chunks, chunk.last + 1 ≤ chunk.start + chunk.size
  balance : plan.bytesDone = plan.doneBytes + (fetches.map (·.counted plan)).sum
  distinct : (fetches.map (·.chunk)).Nodup
  within : ∀ f ∈ fetches, ∃ chunk, plan.chunks[f.chunk]? = some chunk ∧ f.Within chunk
  /-- Nothing else is counted once a stream of the whole file is. -/
  whole : ∀ f ∈ fetches, ∀ position, f.stage.At true position → plan.startOf f.chunk = 0 ∧
    (0 < position → plan.bytesDone = position ∧ position ≤ plan.bytesTotal)

theorem Balanced.perm (h : Balanced plan fetches) (hperm : fetches.Perm fetches') :
    Balanced plan fetches' where
  size_le := h.size_le
  inside := h.inside
  balance := by rw [h.balance, (hperm.map _).sum_eq]
  distinct := (hperm.map _).nodup_iff.mp h.distinct
  within f hf := h.within f (hperm.mem_iff.mpr hf)
  whole f hf := h.whole f (hperm.mem_iff.mpr hf)

/-- **No more is counted than there is.** -/
theorem Balanced.le (h : Balanced plan fetches) : plan.bytesDone ≤ plan.bytesTotal := by
  by_cases hwhole : ∃ f ∈ fetches, ∃ position, f.stage.At true position ∧ 0 < position
  · obtain ⟨f, hf, position, hat, hpos⟩ := hwhole
    obtain ⟨heq, hle⟩ := (h.whole f hf position hat).2 hpos
    rwa [heq]
  · -- Every fetch has counted no more than its chunk, and none of a chunk that is done.
    have hopen : (fetches.map (·.counted plan)).sum ≤ (plan.chunks.map (·.openBytes)).sum := by
      refine Tally.sum_map_le h.distinct fun f hf => ?_
      obtain ⟨chunk, hchunk, hwithin⟩ := h.within f hf
      refine ⟨chunk.openBytes, by rw [List.getElem?_map, hchunk, Option.map_some], ?_⟩
      rcases Nat.eq_zero_or_pos (f.counted plan) with hzero | hpos
      · omega
      · obtain ⟨wholeFile, position, hat⟩ := exists_at hpos
        rw [counted_at hat, startOf_of_chunk hchunk] at hpos ⊢
        cases wholeFile with
        | true => exact absurd ⟨f, hf, position, hat, by omega⟩ hwhole
        | false =>
          obtain ⟨_, hle, hopen⟩ := hwithin.range position hat
          rw [PlannedChunk.openBytes, if_neg (hopen (by omega))]
          omega
    have hsplit := done_add_open plan
    have hsize := h.size_le
    rw [h.balance]
    omega

/-! ### Where the chunks are stays -/

section

variable (hranges : plan'.chunks.map (·.range) = plan.chunks.map (·.range))
include hranges

theorem startOf_congr (i : ℕ) : plan'.startOf i = plan.startOf i := by
  have hstarts := congrArg (fun ranges => (ranges[i]?).map Prod.fst) hranges
  simp only [List.getElem?_map, Option.map_map] at hstarts
  exact congrArg (·.getD 0) hstarts

theorem counted_congr (f : Fetch) : f.counted plan' = f.counted plan := by
  unfold Fetch.counted
  rw [startOf_congr hranges]

theorem sum_counted_congr (fetches : List Fetch) :
    (fetches.map (·.counted plan')).sum = (fetches.map (·.counted plan)).sum :=
  congrArg List.sum (List.map_congr_left fun f _ => counted_congr hranges f)

theorem allBytes_congr : plan'.allBytes = plan.allBytes := by
  have hsizes := congrArg (List.map fun range => range.2.2) hranges
  simp only [List.map_map] at hsizes
  exact congrArg List.sum hsizes

theorem inside_congr (h : ∀ chunk ∈ plan.chunks, chunk.last + 1 ≤ chunk.start + chunk.size) :
    ∀ chunk ∈ plan'.chunks, chunk.last + 1 ≤ chunk.start + chunk.size := by
  intro chunk hchunk
  have hmem := List.mem_map_of_mem (f := PlannedChunk.range) hchunk
  rw [hranges] at hmem
  obtain ⟨old, hold, heq⟩ := List.mem_map.mp hmem
  have hin := h old hold
  simp only [PlannedChunk.range, Prod.mk.injEq] at heq
  obtain ⟨hstart, hlast, hsize⟩ := heq
  omega

end

/-! ### Chunks -/

theorem Balanced.mark (h : Balanced plan fetches) (hchunk : plan.chunks[i]? = some chunk)
    {g : PlannedChunk → PlannedChunk} (hrange : ∀ c, (g c).range = c.range)
    (hopen : chunk.state ≠ .DONE) (hstays : (g chunk).state ≠ .DONE)
    (hnone : ∀ f ∈ fetches, f.chunk ≠ i) :
    Balanced { plan with chunks := plan.chunks.modify i g } fetches := by
  have hranges : (plan.chunks.modify i g).map (·.range) = plan.chunks.map (·.range) :=
    map_modify_eq _ _ hrange
  have hdone : ChunkPlan.doneBytes { plan with chunks := plan.chunks.modify i g } =
      plan.doneBytes := by
    have hsum := Tally.sum_map_modify hchunk g (·.doneBytes)
    rw [doneBytes_eq, doneBytes_eq]
    simp only [PlannedChunk.doneBytes, if_neg hopen, if_neg hstays] at hsum
    exact hsum
  refine ⟨?_, inside_congr hranges h.inside, ?_, h.distinct, fun f hf => ?_, fun f hf => ?_⟩
  · rw [allBytes_congr hranges]
    exact h.size_le
  · rw [hdone, sum_counted_congr hranges]
    exact h.balance
  · obtain ⟨c, hc, hwithin⟩ := h.within f hf
    exact ⟨c, by simp [(hnone f hf).symm, hc], hwithin⟩
  · rw [startOf_congr hranges]
    exact h.whole f hf

/-! ### Fetches -/

theorem Balanced.add (h : Balanced plan fetches) (hasked : f.stage = .asked)
    (hchunk : plan.chunks[f.chunk]? = some chunk) (htaken : chunk.state ≠ .PENDING)
    (hnone : ∀ g ∈ fetches, g.chunk ≠ f.chunk) : Balanced plan (f :: fetches) := by
  have hnot : ∀ {wholeFile position}, ¬ f.stage.At wholeFile position := fun hat => by
    rw [hasked] at hat
    cases hat
  refine ⟨h.size_le, h.inside, ?_, ?_, ?_, ?_⟩
  · rw [List.map_cons, List.sum_cons, counted_asked hasked, Nat.zero_add]
    exact h.balance
  · rw [List.map_cons, List.nodup_cons, List.mem_map]
    exact ⟨fun ⟨g, hg, heq⟩ => hnone g hg heq, h.distinct⟩
  · rintro g hg
    rcases List.mem_cons.mp hg with rfl | hg
    · exact ⟨chunk, hchunk, htaken, fun _ hat => absurd hat hnot⟩
    · exact h.within g hg
  · rintro g hg position hat
    rcases List.mem_cons.mp hg with rfl | hg
    · exact absurd hat hnot
    · exact h.whole g hg position hat

/-- A fetch none of whose bytes were counted is given up. -/
theorem Balanced.drop (h : Balanced plan (f :: rest)) (hzero : f.counted plan = 0) :
    Balanced plan rest where
  size_le := h.size_le
  inside := h.inside
  balance := by
    have hbalance := h.balance
    rwa [List.map_cons, List.sum_cons, hzero, Nat.zero_add] at hbalance
  distinct := (List.nodup_cons.mp h.distinct).2
  within g hg := h.within g (List.mem_cons_of_mem f hg)
  whole g hg := h.whole g (List.mem_cons_of_mem f hg)

theorem Balanced.ne_of_mem (h : Balanced plan (f :: rest)) : ∀ g ∈ rest, g.chunk ≠ f.chunk := by
  intro g hg heq
  exact (List.nodup_cons.mp h.distinct).1 (List.mem_map.mpr ⟨g, hg, heq⟩)

theorem Balanced.moves (h : Balanced plan (f :: rest)) (hchunk : f'.chunk = f.chunk)
    (hcounted : f'.counted plan = f.counted plan)
    (hat : ∀ wholeFile position, f'.stage.At wholeFile position →
      f.stage.At wholeFile position ∨
        position = plan.startOf f.chunk ∧ (wholeFile = true → plan.startOf f.chunk = 0)) :
    Balanced plan (f' :: rest) := by
  refine ⟨h.size_le, h.inside, ?_, ?_, ?_, ?_⟩
  · rw [List.map_cons, hcounted, ← List.map_cons (f := fun f : Fetch => f.counted plan)]
    exact h.balance
  · rw [List.map_cons, hchunk]
    exact h.distinct
  · rintro g hg
    rcases List.mem_cons.mp hg with rfl | hg
    · obtain ⟨chunk, hc, hwithin⟩ := h.within f List.mem_cons_self
      refine ⟨chunk, hchunk ▸ hc, hwithin.taken, fun position hposition => ?_⟩
      rcases hat false position hposition with hold | ⟨rfl, _⟩
      · exact hwithin.range position hold
      · rw [startOf_of_chunk hc]
        exact ⟨Nat.le_refl _, Nat.le_add_right _ _, fun hlt => absurd hlt (Nat.lt_irrefl _)⟩
    · exact h.within g (List.mem_cons_of_mem f hg)
  · rintro g hg position hposition
    rcases List.mem_cons.mp hg with rfl | hg
    · rw [hchunk]
      rcases hat true position hposition with hold | ⟨rfl, hzero⟩
      · exact h.whole f List.mem_cons_self position hold
      · exact ⟨hzero rfl, fun hpos => absurd (hzero rfl) (Nat.ne_of_gt hpos)⟩
    · exact h.whole g (List.mem_cons_of_mem f hg) position hposition

theorem Balanced.counted (h : Balanced plan (f :: rest)) (hat : f.stage.At wholeFile position)
    (hchunk : plan.chunks[f.chunk]? = some chunk) :
    chunk.start ≤ position ∧ f.counted plan = position - chunk.start := by
  rw [counted_at hat, startOf_of_chunk hchunk]
  refine ⟨?_, rfl⟩
  cases wholeFile with
  | true =>
    have hzero := (h.whole f List.mem_cons_self position hat).1
    rw [startOf_of_chunk hchunk] at hzero
    omega
  | false =>
    obtain ⟨c, hc, hwithin⟩ := h.within f List.mem_cons_self
    obtain rfl := Option.some.inj (hchunk.symm.trans hc)
    exact (hwithin.range position hat).1

theorem Balanced.writes (h : Balanced plan (f :: rest)) (hat : f.stage.At wholeFile position)
    (hstage : f'.stage = .streaming wholeFile (position + n)) (hsame : f'.chunk = f.chunk)
    (hchunk : plan.chunks[f.chunk]? = some chunk)
    (hrange : wholeFile = false → position + n ≤ chunk.last + 1 ∧ chunk.state ≠ .DONE ∧
      ∀ g ∈ rest, ∀ other, g.stage.At true other → other = 0)
    (hwhole : wholeFile = true → position + n ≤ plan.bytesTotal ∧ plan.doneBytes = 0 ∧
      ∀ g ∈ rest, g.counted plan = 0) :
    Balanced { plan with bytesDone := plan.bytesDone + n } (f' :: rest) := by
  obtain ⟨hstart, hcounted⟩ := h.counted hat hchunk
  have hat' : f'.stage.At wholeFile (position + n) := by
    rw [hstage]
    exact .streaming
  have hcounted' : f'.counted plan = f.counted plan + n := by
    rw [counted_at hat', hsame, startOf_of_chunk hchunk, hcounted]
    omega
  have hbalance := h.balance
  rw [List.map_cons, List.sum_cons] at hbalance
  have honly : ∀ {other position'}, f'.stage.At other position' →
      other = wholeFile ∧ position' = position + n := fun hother => by
    rw [hstage] at hother
    cases hother
    exact ⟨rfl, rfl⟩
  refine ⟨h.size_le, h.inside, ?_, ?_, ?_, ?_⟩
  · change plan.bytesDone + n = plan.doneBytes + ((f' :: rest).map (·.counted plan)).sum
    rw [List.map_cons, List.sum_cons, hcounted']
    omega
  · rw [List.map_cons, hsame]
    exact h.distinct
  · rintro g hg
    rcases List.mem_cons.mp hg with rfl | hg
    · obtain ⟨c, hc, hwithin⟩ := h.within f List.mem_cons_self
      obtain rfl := Option.some.inj (hchunk.symm.trans hc)
      refine ⟨chunk, hsame ▸ hchunk, hwithin.taken, fun position' hother => ?_⟩
      obtain ⟨rfl, rfl⟩ := honly hother
      obtain ⟨hlast, hopen, _⟩ := hrange rfl
      have hin := h.inside chunk (List.mem_of_getElem? hchunk)
      exact ⟨by omega, by omega, fun _ => hopen⟩
    · exact h.within g (List.mem_cons_of_mem f hg)
  · rintro g hg position' hother
    rcases List.mem_cons.mp hg with rfl | hg
    · obtain ⟨rfl, rfl⟩ := honly hother
      obtain ⟨hzero, _⟩ := h.whole f List.mem_cons_self position hat
      obtain ⟨htotal, hdone, hrest⟩ := hwhole rfl
      have hnone : (rest.map (·.counted plan)).sum = 0 := by
        refine List.sum_eq_zero fun m hm => ?_
        obtain ⟨g, hg, rfl⟩ := List.mem_map.mp hm
        exact hrest g hg
      rw [startOf_of_chunk hchunk] at hzero
      refine ⟨hsame ▸ (startOf_of_chunk hchunk).trans hzero, fun _ => ⟨?_, htotal⟩⟩
      dsimp only
      omega
    · obtain ⟨hzero, _⟩ := h.whole g (List.mem_cons_of_mem f hg) position' hother
      refine ⟨hzero, fun hpos => ?_⟩
      -- No other stream of the whole file has bytes.
      exfalso
      cases wholeFile with
      | false => exact absurd ((hrange rfl).2.2 g hg position' hother) (Nat.ne_of_gt hpos)
      | true =>
        have hnone := (hwhole rfl).2.2 g hg
        rw [counted_at hother, hzero] at hnone
        omega

/-- It is done: what was counted of it are the bytes of its chunk. -/
theorem Balanced.finishes (h : Balanced plan (f :: rest)) (hat : f.stage.At false position)
    (hchunk : plan.chunks[f.chunk]? = some chunk) (hopen : chunk.state ≠ .DONE)
    (hsize : chunk.size ≤ position - chunk.start) {g : PlannedChunk → PlannedChunk}
    (hrange : ∀ c, (g c).range = c.range) (hdone : (g chunk).state = .DONE) :
    Balanced { plan with chunks := plan.chunks.modify f.chunk g } rest := by
  have hranges : (plan.chunks.modify f.chunk g).map (·.range) = plan.chunks.map (·.range) :=
    map_modify_eq _ _ hrange
  obtain ⟨hstart, hcounted⟩ := h.counted hat hchunk
  have hle : position ≤ chunk.start + chunk.size := by
    obtain ⟨c, hc, hwithin⟩ := h.within f List.mem_cons_self
    obtain rfl := Option.some.inj (hchunk.symm.trans hc)
    exact (hwithin.range position hat).2.1
  have hsum : ChunkPlan.doneBytes { plan with chunks := plan.chunks.modify f.chunk g } =
      plan.doneBytes + chunk.size := by
    have hmodify := Tally.sum_map_modify hchunk g (·.doneBytes)
    have hsame : (g chunk).size = chunk.size := congrArg (·.2.2) (hrange chunk)
    rw [doneBytes_eq, doneBytes_eq]
    simp only [PlannedChunk.doneBytes, if_neg hopen, if_pos hdone, hsame] at hmodify
    exact hmodify
  have hbalance := h.balance
  rw [List.map_cons, List.sum_cons, hcounted] at hbalance
  refine ⟨?_, inside_congr hranges h.inside, ?_, (List.nodup_cons.mp h.distinct).2,
    fun other hother => ?_, fun other hother => ?_⟩
  · rw [allBytes_congr hranges]
    exact h.size_le
  · rw [hsum, sum_counted_congr hranges]
    dsimp only
    omega
  · obtain ⟨c, hc, hwithin⟩ := h.within other (List.mem_cons_of_mem f hother)
    have hne := (h.ne_of_mem other hother).symm
    exact ⟨c, by simp [hne, hc], hwithin⟩
  · rw [startOf_congr hranges]
    exact h.whole other (List.mem_cons_of_mem f hother)

theorem Balanced.finishesAll (h : Balanced plan (f :: rest)) (hat : f.stage.At true position)
    (hchunk : plan.chunks[f.chunk]? = some chunk) (hsize : position = plan.allBytes)
    (hranges : plan'.chunks.map (·.range) = plan.chunks.map (·.range))
    (hall : ∀ c ∈ plan'.chunks, c.state = .DONE) (htotal : plan'.bytesTotal = plan.bytesTotal)
    (hbytes : plan'.bytesDone = plan.bytesDone) : Balanced plan' rest := by
  obtain ⟨hstart, hcounted⟩ := h.counted hat hchunk
  obtain ⟨hzero, halone⟩ := h.whole f List.mem_cons_self position hat
  rw [startOf_of_chunk hchunk] at hzero
  have hdone' : plan'.doneBytes = plan.allBytes := by
    have hsplit := done_add_open plan'
    have hnone : (plan'.chunks.map (·.openBytes)).sum = 0 := by
      refine List.sum_eq_zero fun m hm => ?_
      obtain ⟨c, hc, rfl⟩ := List.mem_map.mp hm
      exact if_pos (hall c hc)
    rw [allBytes_congr hranges] at hsplit
    omega
  have hbalance := h.balance
  rw [List.map_cons, List.sum_cons, hcounted] at hbalance
  have hle := doneBytes_le plan
  -- Either the stream carried everything that is counted, or there is nothing to carry.
  have hcases : plan.allBytes = 0 ∨
      plan.doneBytes = 0 ∧ (rest.map (·.counted plan)).sum = 0 := by
    rcases Nat.eq_zero_or_pos position with hempty | hpos
    · exact .inl (hsize ▸ hempty)
    · have heq := (halone hpos).1
      exact .inr ⟨by omega, by omega⟩
  refine ⟨?_, inside_congr hranges h.inside, ?_, (List.nodup_cons.mp h.distinct).2,
    fun other hother => ?_, fun other hother => ?_⟩
  · rw [allBytes_congr hranges, htotal]
    exact h.size_le
  · rw [hdone', hbytes, sum_counted_congr hranges]
    omega
  · obtain ⟨c, hc, hwithin⟩ := h.within other (List.mem_cons_of_mem f hother)
    have hget := congrArg (·[other.chunk]?) hranges
    simp only [List.getElem?_map, hc, Option.map_some] at hget
    obtain ⟨c', hc', heq⟩ := Option.map_eq_some_iff.mp hget
    simp only [PlannedChunk.range, Prod.mk.injEq] at heq
    have htaken : c'.state ≠ .PENDING := by
      rw [hall c' (List.mem_of_getElem? hc')]
      decide
    refine ⟨c', hc', htaken, fun position' hposition => ?_⟩
    obtain ⟨hlower, hupper, _⟩ := hwithin.range position' hposition
    refine ⟨by omega, by omega, fun hlt => ?_⟩
    exfalso
    rcases hcases with hempty | ⟨_, hnone⟩
    · have hsmall : c.size ≤ plan.allBytes :=
        List.le_sum_of_mem (List.mem_map_of_mem (List.mem_of_getElem? hc))
      omega
    · have hsmall : other.counted plan ≤ (rest.map (·.counted plan)).sum :=
        List.le_sum_of_mem (List.mem_map_of_mem hother)
      rw [counted_at hposition, startOf_of_chunk hc] at hsmall
      omega
  · rw [startOf_congr hranges, htotal, hbytes]
    exact h.whole other (List.mem_cons_of_mem f hother)

end MediaCenterSync.TransferEngine
