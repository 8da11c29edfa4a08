import MediaCenterSync.TransferEngine.Correct.ChunkPlanner

/-!
# A plan and the rows it is continued from

A new plan cuts its file at the multiples of its chunk size (`chunks_new`), so its chunks are
numbered as they come, cover every offset once, and are whole but for the last (`laidOut_new`).

Its rows, in whatever order and with whatever states, give the plan back, with what was recorded as
done, except for the chunk size: that is read off the first row.  So it is the plan's own exactly
when the first chunk is a whole one (`continues_iff`).
-/

namespace MediaCenterSync.TransferEngine

/-! ### What is asked of a plan -/

def ExistingChunk.place (row : ExistingChunk) : ℕ × ℕ × ℕ := (row.index, row.start, row.last)

def PlannedChunk.place (chunk : PlannedChunk) : ℕ × ℕ × ℕ := (chunk.index, chunk.start, chunk.last)

structure LaidOut (totalBytes : ℕ) (plan : ChunkPlan) : Prop where
  indexes : plan.chunks.map (·.index) = List.range plan.chunks.length
  chunksTotal : plan.chunksTotal = plan.chunks.length
  atMost : plan.chunks.length ≤ MAX_CHUNKS
  inside : ∀ chunk ∈ plan.chunks, Inside chunk totalBytes
  covers : ∀ i < totalBytes, ∃! chunk, chunk ∈ plan.chunks ∧ chunk.start ≤ i ∧ i ≤ chunk.last
  whole : ∀ chunk ∈ plan.chunks.dropLast, chunk.size = plan.chunkSize

/-- The rows of a plan, in any order, with anything recorded of them. -/
def Stores (rows : List ExistingChunk) (plan : ChunkPlan) : Prop :=
  (rows.map (·.place)).Perm (plan.chunks.map (·.place))

/-- A plan is continued: its geometry is the same, and what is done is what the rows say. -/
structure Continues (plan : ChunkPlan) (rows : List ExistingChunk) (plan' : ChunkPlan) : Prop where
  places : plan'.chunks.map (·.place) = plan.chunks.map (·.place)
  sizes : plan'.chunks.map (·.size) = plan.chunks.map (·.size)
  chunkSize : plan'.chunkSize = plan.chunkSize
  chunksTotal : plan'.chunksTotal = plan.chunksTotal
  done : ∀ chunk ∈ plan'.chunks, ∀ row ∈ rows, row.index = chunk.index →
    (chunk.state = .DONE ↔ row.state = .DONE)
  rest : ∀ chunk ∈ plan'.chunks, chunk.state ≠ .DONE → chunk.state = .PENDING ∧ chunk.bytesDone = 0
  bytesDone : plan'.bytesDone =
    ((plan'.chunks.filter (·.state = .DONE)).map (·.size)).sum

/-! ### A new plan -/

theorem lt_ceilDiv_iff {a b i : ℕ} (h : 0 < b) : i < ceilDiv a b ↔ i * b < a := by
  unfold ceilDiv
  rw [Nat.lt_iff_add_one_le, Nat.le_div_iff_mul_le h, Nat.add_mul, Nat.one_mul]
  omega

theorem ceilDiv_le_iff {a b n : ℕ} (h : 0 < b) : ceilDiv a b ≤ n ↔ a ≤ n * b := by
  rw [← Nat.not_lt, lt_ceilDiv_iff h, Nat.not_lt]

/-- The chunk at place `i`. -/
def piece (size chunkSize i : ℕ) : PlannedChunk :=
  let last := min (i * chunkSize + chunkSize) size - 1
  { index := i, start := i * chunkSize, last, size := last - i * chunkSize + 1, state := .PENDING
    bytesDone := 0, sourceServiceId := none, attempts := 0, checksum := none }

theorem layOut_eq {size chunkSize : ℕ} (hpos : 0 < chunkSize) :
    ∀ (fuel index : ℕ), size ≤ index * chunkSize + fuel →
      layOut size chunkSize fuel (index * chunkSize) index =
        (List.range' index (ceilDiv size chunkSize - index)).map (piece size chunkSize)
  | 0, index => by
    intro hfuel
    have hnone : ceilDiv size chunkSize ≤ index := (ceilDiv_le_iff hpos).mpr hfuel
    rw [layOut, Nat.sub_eq_zero_of_le hnone]
    rfl
  | fuel + 1, index => by
    intro hfuel
    rw [layOut]
    split
    · next hstart =>
      have hmore : index < ceilDiv size chunkSize := (lt_ceilDiv_iff hpos).mpr hstart
      have hnext : index * chunkSize + chunkSize = (index + 1) * chunkSize := by
        rw [Nat.add_mul, Nat.one_mul]
      have hrest : layOut size chunkSize fuel ((index + 1) * chunkSize) (index + 1) = _ :=
        layOut_eq hpos fuel (index + 1) (by omega)
      obtain ⟨n, hn⟩ : ∃ n, ceilDiv size chunkSize - index = n + 1 :=
        ⟨ceilDiv size chunkSize - index - 1, by omega⟩
      rw [hn, List.range'_succ, List.map_cons]
      have hn' : ceilDiv size chunkSize - (index + 1) = n := by omega
      rw [hn'] at hrest
      dsimp only
      rw [← hrest, ← hnext]
      rfl
    · next hend =>
      have hnone : ceilDiv size chunkSize ≤ index :=
        (ceilDiv_le_iff hpos).mpr (Nat.not_lt.mp hend)
      rw [Nat.sub_eq_zero_of_le hnone]
      rfl

/-- **A new plan cuts its file at the multiples of its chunk size.** -/
theorem chunks_new (totalBytes configured : ℕ) :
    (planChunks totalBytes configured []).chunks =
      (List.range (ceilDiv totalBytes (resolveChunkSize totalBytes configured))).map
        (piece totalBytes (resolveChunkSize totalBytes configured)) := by
  have heq : layOut totalBytes (resolveChunkSize totalBytes configured) totalBytes
      (0 * resolveChunkSize totalBytes configured) 0 = _ :=
    layOut_eq (resolveChunkSize_pos totalBytes configured) totalBytes 0 (by omega)
  rw [Nat.zero_mul, Nat.sub_zero, ← List.range_eq_range'] at heq
  exact heq

/-- A plan has as many chunks as a transfer is allowed to be cut into, at most. -/
theorem ceilDiv_resolveChunkSize_le (totalBytes configured : ℕ) :
    ceilDiv totalBytes (resolveChunkSize totalBytes configured) ≤ MAX_CHUNKS := by
  have hpos := resolveChunkSize_pos totalBytes configured
  rw [ceilDiv_le_iff hpos]
  unfold resolveChunkSize at hpos ⊢
  dsimp only at hpos ⊢
  split
  · next hsmall =>
    have hmax : 1 ≤ MAX_CHUNKS := by decide
    exact hsmall.trans (Nat.le_mul_of_pos_left _ hmax)
  split
  · next hlarge hfew =>
    rw [if_neg hlarge, if_pos hfew] at hpos
    exact (ceilDiv_le_iff hpos).mp hfew
  · -- The raised size is as large as it has to be, and rounded up.
    have hneeded : totalBytes ≤ ceilDiv totalBytes MAX_CHUNKS * MAX_CHUNKS :=
      (ceilDiv_le_iff (by decide)).mp (Nat.le_refl _)
    have hraised : ceilDiv totalBytes MAX_CHUNKS ≤
        ceilDiv (ceilDiv totalBytes MAX_CHUNKS) MEBIBYTE * MEBIBYTE :=
      (ceilDiv_le_iff (by decide)).mp (Nat.le_refl _)
    calc totalBytes ≤ ceilDiv totalBytes MAX_CHUNKS * MAX_CHUNKS := hneeded
      _ = MAX_CHUNKS * ceilDiv totalBytes MAX_CHUNKS := Nat.mul_comm _ _
      _ ≤ _ := Nat.mul_le_mul_left _ hraised

section

variable {size chunkSize i : ℕ}

/-- Where the chunk at place `i` is, when it is in the file. -/
theorem piece_inside (hpos : 0 < chunkSize) (hi : i * chunkSize < size) :
    Inside (piece size chunkSize i) size := by
  refine ⟨?_, ?_, ?_⟩
  · change i * chunkSize ≤ min (i * chunkSize + chunkSize) size - 1
    omega
  · change min (i * chunkSize + chunkSize) size - 1 < size
    omega
  · change min (i * chunkSize + chunkSize) size - 1 - i * chunkSize + 1 =
      min (i * chunkSize + chunkSize) size - 1 + 1 - i * chunkSize
    omega

theorem piece_whole (hpos : 0 < chunkSize) (hi : (i + 1) * chunkSize ≤ size) :
    (piece size chunkSize i).size = chunkSize := by
  rw [Nat.add_mul, Nat.one_mul] at hi
  change min (i * chunkSize + chunkSize) size - 1 - i * chunkSize + 1 = chunkSize
  omega

theorem mem_piece_iff (hpos : 0 < chunkSize) {offset : ℕ} (hoffset : offset < size) :
    (piece size chunkSize i).start ≤ offset ∧ offset ≤ (piece size chunkSize i).last ↔
      i = offset / chunkSize := by
  have hplace : i = offset / chunkSize ↔ i * chunkSize ≤ offset ∧ offset < (i + 1) * chunkSize := by
    rw [eq_comm, Nat.div_eq_iff hpos, Nat.add_mul, Nat.one_mul]
    omega
  rw [hplace, Nat.add_mul, Nat.one_mul]
  change i * chunkSize ≤ offset ∧ offset ≤ min (i * chunkSize + chunkSize) size - 1 ↔ _
  omega

end

/-- **The chunks of a new plan partition its file**, and are whole but for the last. -/
theorem laidOut_new (totalBytes configured : ℕ) :
    LaidOut totalBytes (planChunks totalBytes configured []) := by
  have hpos := resolveChunkSize_pos totalBytes configured
  have hchunks := chunks_new totalBytes configured
  have hmem : ∀ {chunk}, chunk ∈ (planChunks totalBytes configured []).chunks →
      ∃ i, i * resolveChunkSize totalBytes configured < totalBytes ∧
        chunk = piece totalBytes (resolveChunkSize totalBytes configured) i := by
    intro chunk h
    rw [hchunks] at h
    obtain ⟨i, hi, rfl⟩ := List.mem_map.mp h
    exact ⟨i, (lt_ceilDiv_iff hpos).mp (List.mem_range.mp hi), rfl⟩
  refine ⟨?_, rfl, ?_, ?_, ?_, ?_⟩
  · rw [hchunks, List.map_map, List.length_map, List.length_range]
    exact List.map_id _
  · rw [hchunks, List.length_map, List.length_range]
    exact ceilDiv_resolveChunkSize_le totalBytes configured
  · intro chunk h
    obtain ⟨i, hi, rfl⟩ := hmem h
    exact piece_inside hpos hi
  · intro offset hoffset
    have hin := (mem_piece_iff (i := offset / resolveChunkSize totalBytes configured) hpos
      hoffset).mpr rfl
    refine ⟨_, ⟨?_, hin⟩, fun other hother => ?_⟩
    · rw [hchunks]
      refine List.mem_map_of_mem (List.mem_range.mpr ((lt_ceilDiv_iff hpos).mpr ?_))
      exact Nat.lt_of_le_of_lt hin.1 hoffset
    · obtain ⟨hmember, hcontains⟩ := hother
      obtain ⟨i, -, rfl⟩ := hmem hmember
      rw [(mem_piece_iff hpos hoffset).mp hcontains]
  · intro chunk h
    rw [hchunks, ← List.map_dropLast] at h
    obtain ⟨i, hi, rfl⟩ := List.mem_map.mp h
    have hnext : i + 1 < ceilDiv totalBytes (resolveChunkSize totalBytes configured) := by
      cases hcount : ceilDiv totalBytes (resolveChunkSize totalBytes configured) with
      | zero =>
        rw [hcount] at hi
        cases hi
      | succ n =>
        rw [hcount, List.range_succ, List.dropLast_concat] at hi
        exact Nat.succ_lt_succ (List.mem_range.mp hi)
    exact piece_whole hpos (Nat.le_of_lt ((lt_ceilDiv_iff hpos).mp hnext))

/-! ### A plan that is continued -/

section

variable {totalBytes : ℕ} {plan : ChunkPlan} {rows : List ExistingChunk}

theorem ordered_places (h : Stores rows plan)
    (hindexes : plan.chunks.map (·.index) = List.range plan.chunks.length) :
    (rows.insertionSort fun left right => left.index ≤ right.index).map (·.place) =
      plan.chunks.map (·.place) := by
  have hsame : ((rows.insertionSort fun left right => left.index ≤ right.index).map (·.place)).Perm
      (plan.chunks.map (·.place)) := ((List.perm_insertionSort ..).map _).trans h
  have hplan : (plan.chunks.map (·.place)).Pairwise fun left right => left.1 < right.1 := by
    have hrange : (plan.chunks.map (·.index)).Pairwise (· < ·) := hindexes ▸ List.pairwise_lt_range
    rw [List.pairwise_map] at hrange ⊢
    exact hrange
  have hweak : (plan.chunks.map (·.place)).Pairwise fun left right => left.1 ≤ right.1 :=
    hplan.imp Nat.le_of_lt
  refine List.Perm.eq_of_pairwise (fun a b ha hb hab hba => ?_) ?_ hweak hsame
  · -- An index is in the plan once.
    have hnodup : ((plan.chunks.map (·.place)).map Prod.fst).Nodup := by
      rw [List.map_map]
      exact hindexes ▸ List.nodup_range
    exact List.inj_on_of_nodup_map hnodup (hsame.mem_iff.mp ha) hb (Nat.le_antisymm hab hba)
  · rw [List.pairwise_map]
    exact List.pairwise_insertionSort _ rows

theorem nodup_rows (h : Stores rows plan)
    (hindexes : plan.chunks.map (·.index) = List.range plan.chunks.length) :
    (rows.map (·.index)).Nodup := by
  have hsame : (rows.map (·.index)).Perm (plan.chunks.map (·.index)) := by
    have hfirst := h.map Prod.fst
    rwa [List.map_map, List.map_map] at hfirst
  rw [hsame.nodup_iff, hindexes]
  exact List.nodup_range

theorem sum_bytesDone (chunks : List PlannedChunk)
    (h : ∀ chunk ∈ chunks, chunk.bytesDone = if chunk.state = .DONE then chunk.size else 0) :
    (chunks.map (·.bytesDone)).sum =
      ((chunks.filter (·.state = .DONE)).map (·.size)).sum := by
  induction chunks with
  | nil => rfl
  | cons chunk chunks ih =>
    have hrest := ih fun other hother => h other (List.mem_cons_of_mem _ hother)
    rw [List.map_cons, List.sum_cons, hrest, h chunk List.mem_cons_self, List.filter_cons]
    by_cases hdone : chunk.state = .DONE <;> simp [hdone]

/-- **Rows give their plan back**, when the size of its first chunk is its chunk size. -/
theorem continues_resumePlan (h : Stores rows plan) (hlaid : LaidOut totalBytes plan) :
    Continues plan rows (resumePlan totalBytes rows) ↔
      (plan.chunks.head?.map (·.size)).getD 0 = plan.chunkSize := by
  -- The rows, put in order, are the places of the plan they were written from.
  have hplaces : (resumePlan totalBytes rows).chunks.map (·.place) = plan.chunks.map (·.place) := by
    rw [← ordered_places h hlaid.indexes]
    unfold resumePlan
    dsimp only
    rw [List.map_map]
    rfl
  have hof : ∀ {chunk}, chunk ∈ (resumePlan totalBytes rows).chunks → ∃ row ∈ rows,
      row.place = chunk.place ∧ chunk.size = chunk.last + 1 - chunk.start ∧
        chunk.state = (if row.state = .DONE then .DONE else .PENDING) ∧
        chunk.bytesDone = if row.state = .DONE then chunk.size else 0 := by
    intro chunk hchunk
    obtain ⟨row, hrow, rfl⟩ := List.mem_map.mp hchunk
    exact ⟨row, (List.mem_insertionSort _).mp hrow, rfl, rfl, rfl, rfl⟩
  have hsizes : (resumePlan totalBytes rows).chunks.map (·.size) = plan.chunks.map (·.size) := by
    have hleft : (resumePlan totalBytes rows).chunks.map (·.size) =
        ((resumePlan totalBytes rows).chunks.map (·.place)).map fun p => p.2.2 + 1 - p.2.1 := by
      rw [List.map_map]
      exact List.map_congr_left fun chunk hchunk => (hof hchunk).choose_spec.2.2.1
    have hright : plan.chunks.map (·.size) =
        (plan.chunks.map (·.place)).map fun p => p.2.2 + 1 - p.2.1 := by
      rw [List.map_map]
      exact List.map_congr_left fun chunk hchunk => (hlaid.inside chunk hchunk).size_eq
    rw [hleft, hplaces, ← hright]
  -- The size of a chunk is read off the first row.
  have hhead : (resumePlan totalBytes rows).chunkSize =
      (plan.chunks.head?.map (·.size)).getD 0 := by
    rw [← List.head?_map, ← hsizes, List.head?_map]
    rfl
  have hdone : ∀ chunk ∈ (resumePlan totalBytes rows).chunks,
      chunk.bytesDone = if chunk.state = .DONE then chunk.size else 0 := by
    intro chunk hchunk
    obtain ⟨row, -, -, -, hstate, hbytes⟩ := hof hchunk
    rw [hbytes, hstate]
    by_cases hrow : row.state = .DONE <;> simp [hrow]
  constructor
  · intro hcontinues
    exact hhead ▸ hcontinues.chunkSize
  · intro hfirst
    refine ⟨hplaces, hsizes, hhead.trans hfirst, ?_, fun chunk hchunk row hrow hindex => ?_,
      fun chunk hchunk hstate => ?_, sum_bytesDone _ hdone⟩
    · have hlength := congrArg List.length hplaces
      rw [List.length_map, List.length_map] at hlength
      exact hlength.trans hlaid.chunksTotal.symm
    · obtain ⟨other, hother, hplace, -, hstate, -⟩ := hof hchunk
      obtain rfl : other = row := List.inj_on_of_nodup_map (nodup_rows h hlaid.indexes) hother hrow
        ((congrArg Prod.fst hplace).trans hindex.symm)
      rw [hstate]
      by_cases hrow' : other.state = .DONE <;> simp [hrow']
    · obtain ⟨row, -, -, -, hrow, hbytes⟩ := hof hchunk
      by_cases hrow' : row.state = .DONE
      · rw [hrow, if_pos hrow'] at hstate
        exact absurd rfl hstate
      · rw [if_neg hrow'] at hrow hbytes
        exact ⟨hrow, hbytes⟩

end

/-- The first chunk of a new plan is a whole one, when the file is as large. -/
theorem head_size_new (configured : ℕ) {totalBytes : ℕ} (htotal : 0 < totalBytes) :
    ((planChunks totalBytes configured []).chunks.head?.map (·.size)).getD 0 =
      min (resolveChunkSize totalBytes configured) totalBytes := by
  have hpos := resolveChunkSize_pos totalBytes configured
  have hsome : 0 < ceilDiv totalBytes (resolveChunkSize totalBytes configured) :=
    (lt_ceilDiv_iff hpos).mpr (by omega)
  rw [chunks_new]
  obtain ⟨n, hn⟩ := Nat.exists_eq_add_one_of_ne_zero (Nat.ne_of_gt hsome)
  rw [hn, List.range_succ_eq_map, List.map_cons, List.head?_cons, Option.map_some, Option.getD_some]
  change min (0 * _ + resolveChunkSize totalBytes configured) totalBytes - 1 - 0 * _ + 1 = _
  omega

/-- **A new plan partitions its file, and is continued from its rows** with its own chunk size
exactly when the file is as large as one chunk; where there is no chunk there is no row, and a new
plan takes the chunk size it is given. -/
theorem continues_iff (totalBytes configured : ℕ) :
    LaidOut totalBytes (planChunks totalBytes configured []) ∧
      ∀ (configured' : ℕ) (rows : List ExistingChunk),
        Stores rows (planChunks totalBytes configured []) →
          (Continues (planChunks totalBytes configured []) rows
              (planChunks totalBytes configured' rows) ↔
            if totalBytes = 0 then resolveChunkSize 0 configured' = resolveChunkSize 0 configured
            else resolveChunkSize totalBytes configured ≤ totalBytes) := by
  have hlaid := laidOut_new totalBytes configured
  refine ⟨hlaid, fun configured' rows hrows => ?_⟩
  have hlength : rows.length = (planChunks totalBytes configured []).chunks.length := by
    have hperm := hrows.length_eq
    rwa [List.length_map, List.length_map] at hperm
  split
  · next hzero =>
    subst hzero
    obtain rfl : rows = [] := List.eq_nil_of_length_eq_zero (hlength.trans rfl)
    constructor
    · exact fun hcontinues => hcontinues.chunkSize
    · intro hsize
      exact ⟨rfl, rfl, hsize, rfl, nofun, nofun, rfl⟩
  · next hzero =>
    have htotal : 0 < totalBytes := Nat.pos_of_ne_zero hzero
    have hhead := head_size_new configured htotal
    have hpos := resolveChunkSize_pos totalBytes configured
    have hne : rows ≠ [] := by
      rintro rfl
      have hnil := List.eq_nil_of_length_eq_zero hlength.symm
      rw [hnil, List.head?_nil] at hhead
      change 0 = _ at hhead
      omega
    have hresume : planChunks totalBytes configured' rows = resumePlan totalBytes rows := if_pos hne
    rw [hresume, continues_resumePlan hrows hlaid, hhead]
    change min (resolveChunkSize totalBytes configured) totalBytes =
      resolveChunkSize totalBytes configured ↔ _
    omega

/-- **A file smaller than one chunk is continued with another chunk size**: its own. -/
theorem not_continues_small : ¬ ∀ totalBytes configured : ℕ,
    LaidOut totalBytes (planChunks totalBytes configured []) ∧
      ∀ (configured' : ℕ) (rows : List ExistingChunk),
        Stores rows (planChunks totalBytes configured []) →
          Continues (planChunks totalBytes configured []) rows
            (planChunks totalBytes configured' rows) := by
  intro h
  have hcontinues := (h 12 0).2 0 [⟨0, 0, 11, .PENDING, none, 0, none⟩] (.refl _)
  exact absurd hcontinues.chunkSize (by decide)

end MediaCenterSync.TransferEngine
