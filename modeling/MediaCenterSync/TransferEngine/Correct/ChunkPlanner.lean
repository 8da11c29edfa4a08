import MediaCenterSync.TransferEngine.ChunkPlanner

/-!
# A plan covers its file

The chunks of a new plan leave out no offset below the size and reach none above it
(`layOut_covers`, `layOut_inside`).  A continued plan is as good as the stored chunks.
-/

namespace MediaCenterSync.TransferEngine

/-- Every offset of the file is in a chunk. -/
def Covers (chunks : List PlannedChunk) (size : ℕ) : Prop :=
  ∀ i < size, ∃ chunk ∈ chunks, chunk.start ≤ i ∧ i ≤ chunk.last

structure Inside (chunk : PlannedChunk) (size : ℕ) : Prop where
  start_le : chunk.start ≤ chunk.last
  last_lt : chunk.last < size
  size_eq : chunk.size = chunk.last + 1 - chunk.start

instance (chunks : List PlannedChunk) (size : ℕ) : Decidable (Covers chunks size) :=
  inferInstanceAs (Decidable (∀ i < size, _))

theorem resolveChunkSize_pos (totalBytes configured : ℕ) :
    0 < resolveChunkSize totalBytes configured := by
  unfold resolveChunkSize
  have hmin : 0 < max MIN_CHUNK_SIZE configured := by
    have : 0 < MIN_CHUNK_SIZE := by decide
    omega
  simp only
  split
  · exact hmin
  · rename_i hlarge
    split
    · exact hmin
    · -- The raised size is a positive number of mebibytes, the file being larger than one chunk.
      have hneeded : 0 < ceilDiv totalBytes MAX_CHUNKS := by
        have : 1 ≤ MAX_CHUNKS := by decide
        exact Nat.div_pos (by omega) (by omega)
      have hraised : 0 < ceilDiv (ceilDiv totalBytes MAX_CHUNKS) MEBIBYTE := by
        have : 1 ≤ MEBIBYTE := by decide
        exact Nat.div_pos (by omega) (by omega)
      exact Nat.mul_pos hraised (by decide)

theorem layOut_covers {size chunkSize : ℕ} (hpos : 0 < chunkSize) :
    ∀ (fuel start index : ℕ), size ≤ start + fuel → ∀ i, start ≤ i → i < size →
      ∃ chunk ∈ layOut size chunkSize fuel start index, chunk.start ≤ i ∧ i ≤ chunk.last
  | 0, start, index => by
    intro hfuel i hi hsize
    omega
  | fuel + 1, start, index => by
    intro hfuel i hi hsize
    rw [layOut, if_pos (by omega)]
    by_cases hchunk : i < start + chunkSize
    · exact ⟨_, List.mem_cons_self, hi, by simp only; omega⟩
    · obtain ⟨chunk, hmem, hin⟩ := layOut_covers hpos fuel (start + chunkSize) (index + 1)
        (by omega) i (by omega) hsize
      exact ⟨chunk, List.mem_cons_of_mem _ hmem, hin⟩

theorem layOut_inside {size chunkSize : ℕ} (hpos : 0 < chunkSize) :
    ∀ (fuel start index : ℕ), ∀ chunk ∈ layOut size chunkSize fuel start index,
      Inside chunk size ∧ chunk.state = .PENDING
  | 0, start, index => by simp [layOut]
  | fuel + 1, start, index => by
    intro chunk hmem
    rw [layOut] at hmem
    split at hmem
    · rename_i hstart
      obtain rfl | hmem := List.mem_cons.mp hmem
      · exact ⟨⟨by simp only; omega, by simp only; omega, by simp only; omega⟩, rfl⟩
      · exact layOut_inside hpos fuel (start + chunkSize) (index + 1) chunk hmem
    · cases hmem

theorem mem_resumePlan {totalBytes : ℕ} {existing : List ExistingChunk} {chunk : PlannedChunk} :
    chunk ∈ (resumePlan totalBytes existing).chunks → ∃ stored ∈ existing,
      chunk.index = stored.index ∧ chunk.start = stored.start ∧ chunk.last = stored.last ∧
        chunk.size = stored.last + 1 - stored.start ∧
        chunk.state = (if stored.state = .DONE then .DONE else .PENDING) := by
  intro hmem
  obtain ⟨stored, hstored, rfl⟩ := List.mem_map.mp hmem
  exact ⟨stored, (List.mem_insertionSort _).mp hstored, rfl, rfl, rfl, rfl, rfl⟩

theorem planChunks_new (totalBytes configuredChunkSize : ℕ) :
    Covers (planChunks totalBytes configuredChunkSize []).chunks totalBytes ∧
      ∀ chunk ∈ (planChunks totalBytes configuredChunkSize []).chunks,
        Inside chunk totalBytes ∧ chunk.state = .PENDING := by
  have hpos := resolveChunkSize_pos totalBytes configuredChunkSize
  constructor
  · intro i hi
    exact layOut_covers hpos totalBytes 0 0 (by omega) i (by omega) hi
  · exact layOut_inside hpos totalBytes 0 0

theorem planChunks_bytesTotal (n configuredChunkSize : ℕ) (existing : List ExistingChunk) :
    (planChunks n configuredChunkSize existing).bytesTotal = n := by
  unfold planChunks
  split <;> rfl

theorem planChunks_state {totalBytes configuredChunkSize : ℕ} {existing : List ExistingChunk}
    {chunk : PlannedChunk}
    (h : chunk ∈ (planChunks totalBytes configuredChunkSize existing).chunks) :
    chunk.state = .PENDING ∨ chunk.state = .DONE := by
  unfold planChunks at h
  split at h
  · obtain ⟨stored, _, _, _, _, _, hstate⟩ := mem_resumePlan h
    rw [hstate]
    split
    · exact .inr rfl
    · exact .inl rfl
  · have hpos := resolveChunkSize_pos totalBytes configuredChunkSize
    exact .inl (layOut_inside hpos totalBytes 0 0 chunk h).2

end MediaCenterSync.TransferEngine
