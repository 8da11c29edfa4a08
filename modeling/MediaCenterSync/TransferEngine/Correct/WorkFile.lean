import MediaCenterSync.TransferEngine.Correct.Download

/-!
# What the working file of a run holds

The chunks of a run are written into one file in any order, so its length says nothing about its
holes.  Here `c` is the file every source has.  A fetch holds the bytes from where its chunk starts
to where its stream is (`FetchStage.Sound`, `Fetch.Step.sound`), so what it records as done is held
(`Fetch.Step.done`).

This asks two things of a fetch (`Fetch.Lands`): a stream of the whole file is taken as complete at
its end only, and a chunk is recorded in a row of its own range while the working file is the one it
was written to.
-/

namespace MediaCenterSync.TransferEngine

open SparseFile (Holds)

/-! ### Files -/

/-- A working file has the bytes of `c` from `a` up to `b`. -/
def Store.Held (c : List UInt8) (s : Store) (inode a b : ℕ) : Prop :=
  ∃ file, s.inodes[inode]? = some file ∧ Holds c file a b

/-- No working file loses what it has of `c`. -/
def Store.Grows (c : List UInt8) (s s' : Store) : Prop :=
  ∀ (inode : ℕ) (file : SparseFile UInt8), s.inodes[inode]? = some file →
    ∃ file', s'.inodes[inode]? = some file' ∧ ∀ a b, Holds c file a b → Holds c file' a b

section

variable {c : List UInt8} {s s' : Store} {inode a b : ℕ}

theorem Store.Held.mono (h : s.Held c inode a b) (hs : s.Grows c s') : s'.Held c inode a b := by
  obtain ⟨file, hfile, hholds⟩ := h
  obtain ⟨file', hfile', hkeeps⟩ := hs inode file hfile
  exact ⟨file', hfile', hkeeps a b hholds⟩

theorem Store.Held.part {a' b' : ℕ} (h : s.Held c inode a b) (ha : a ≤ a') (hb : b' ≤ b) :
    s.Held c inode a' b' := by
  obtain ⟨file, hfile, hholds⟩ := h
  exact ⟨file, hfile, hholds.mono ha hb⟩

theorem Store.grows_of_inodes (h : s'.inodes = s.inodes) : s.Grows c s' := by
  intro inode file hfile
  exact ⟨file, by rw [h]; exact hfile, fun _ _ => id⟩

/-- Bytes of `c` are written where they belong. -/
theorem Store.grows_write (s : Store) (inode position n : ℕ) :
    s.Grows c
      { s with inodes := s.inodes.modify inode fun file =>
          file.write position ((c.drop position).take n) } := by
  intro i file hfile
  by_cases hi : inode = i
  · exact ⟨_, by simp [hfile, hi], fun _ _ h => h.write position n⟩
  · exact ⟨file, by simp [hfile, hi], fun _ _ => id⟩

theorem Store.Held.written {position n : ℕ} (h : s.Held c inode a position)
    (hn : position + n ≤ c.length) :
    Store.Held c
      { s with inodes := s.inodes.modify inode fun file =>
          file.write position ((c.drop position).take n) } inode a (position + n) := by
  obtain ⟨file, hfile, hholds⟩ := h
  exact ⟨_, by simp [hfile], hholds.written hn⟩

end

theorem held_of_covers {c : List UInt8} {s : Store} {inode n : ℕ} {chunks : List PlannedChunk}
    (hfile : ∃ file, s.inodes[inode]? = some file) (hcovers : Covers chunks n)
    (hdone : ∀ chunk ∈ chunks, s.Held c inode chunk.start (chunk.last + 1)) :
    s.Held c inode 0 n := by
  obtain ⟨file, hfile⟩ := hfile
  refine ⟨file, hfile, fun i _ hi => ?_⟩
  obtain ⟨chunk, hchunk, hstart, hlast⟩ := hcovers i hi
  obtain ⟨file', hfile', hholds⟩ := hdone chunk hchunk
  obtain rfl := Option.some.inj (hfile.symm.trans hfile')
  exact hholds i hstart (by omega)

/-- A file that passes has the right size, and no more is known of it without hashes. -/
theorem length_of_verify {hash : List UInt8 → String} {file : Option (SparseFile UInt8)}
    {chunks : List VerifiableChunk} {n : ℕ}
    (h : (verify hash file chunks (some n) none).ok = true) :
    ∃ f, file = some f ∧ f.length = n := by
  cases file with
  | none => simp [verify, VerificationReport.ok] at h
  | some f =>
    refine ⟨f, rfl, ?_⟩
    by_contra hlength
    have hsize : some n ≠ some f.length := fun heq => hlength (Option.some.inj heq).symm
    simp [verify, VerificationReport.ok, hsize] at h

/-! ### Fetches -/

/-- A stream of the whole file is taken as complete before its end. -/
def Fetch.stopsShort (r : Run) (f : Fetch) : FetchAct → Bool
  | .ended =>
    match f.stage with
    | .streaming true position => position < r.plan.bytesTotal
    | _ => false
  | .piece _ =>
    match f.stage with
    | .streaming true position => (r.cancelling || r.pausing) && position < r.plan.bytesTotal
    | _ => false
  | _ => false

/-- The fetch is about to record that its chunk is done. -/
def FetchStage.records : FetchStage → Bool
  | .saving patch _ => patch.state = .DONE
  | _ => false

/-- What a fetch delivers is what it records: a stream of the whole file is taken as complete at its
end only, and a chunk is recorded in a row of its range, while the working file is the one it was
written to. -/
def Fetch.Lands (s : Store) (r : Run) (f : Fetch) (a : FetchAct) : Prop :=
  f.stopsShort r a = false ∧ (a = .save → f.stage.records = true →
    (∀ chunk ∈ r.plan.chunks[f.chunk]?, ∀ row ∈ s.chunkRows, row.index = chunk.index →
      row.start = chunk.start ∧ row.last = chunk.last) ∧
    ∀ handle ∈ r.handle, ∀ inode ∈ s.work, inode = handle.inode)

instance (s : Store) (r : Run) (f : Fetch) (a : FetchAct) : Decidable (f.Lands s r a) :=
  inferInstanceAs (Decidable (_ ∧ _))

/-- What a fetch of the bytes from `start` to `last` has got to, in the file it writes to. -/
def FetchStage.Sound (c : List UInt8) (s : Store) (inode start last : ℕ) : FetchStage → Prop
  | .asked => True
  | .streaming wholeFile position => start ≤ position ∧ (wholeFile = true → start = 0) ∧
      s.Held c inode start position
  | .paying wholeFile position length => (start ≤ position ∧ (wholeFile = true → start = 0) ∧
      s.Held c inode start position) ∧ 0 < length ∧ position + length ≤ c.length
  | .saving patch _ => patch.state = .DONE → s.Held c inode start (last + 1)

theorem FetchStage.Sound.mono {c : List UInt8} {s s' : Store} {inode start last : ℕ}
    {stage : FetchStage} (h : stage.Sound c s inode start last) (hs : s.Grows c s') :
    stage.Sound c s' inode start last := by
  cases stage with
  | asked => trivial
  | streaming => exact ⟨h.1, h.2.1, h.2.2.mono hs⟩
  | paying => exact ⟨⟨h.1.1, h.1.2.1, h.1.2.2.mono hs⟩, h.2⟩
  | saving => exact fun hdone => (h hdone).mono hs

theorem FetchStage.At.held {c : List UInt8} {s : Store} {inode start last position : ℕ}
    {wholeFile : Bool} {stage : FetchStage} (hat : stage.At wholeFile position)
    (h : stage.Sound c s inode start last) :
    start ≤ position ∧ (wholeFile = true → start = 0) ∧ s.Held c inode start position := by
  cases hat with
  | streaming => exact h
  | paying => exact h.1

section

variable {c : List UInt8} {content : ServiceId → List UInt8} {s s' : Store} {r r' : Run} {f : Fetch}
  {chunk : PlannedChunk} {source : RuntimeSource} {a : FetchAct} {result : FetchResult} {inode : ℕ}

theorem Fetch.Step.grows (h : Step content s r f chunk source a s' r' result)
    (hc : content source.serviceId = c) : s.Grows c s' := by
  cases h with
  | write =>
    subst hc
    exact s.grows_write _ _ _
  | _ => exact Store.grows_of_inodes rfl

/-- A stream of the whole file that may be taken as complete has brought everything. -/
theorem Fetch.Concludes.complete {position : ℕ} (h : f.Concludes r chunk true position a)
    (hsound : f.stage.Sound c s inode chunk.start chunk.last) (hshort : f.stopsShort r a = false) :
    r.plan.bytesTotal ≤ position := by
  cases a with
  | ended =>
    have hstage : f.stage = .streaming true position := h
    simpa [Fetch.stopsShort, hstage] using hshort
  | piece =>
    obtain ⟨hstage, hflag⟩ := h
    have hflag : (r.cancelling || r.pausing) = true := by simpa using hflag
    simpa [Fetch.stopsShort, hstage, hflag] using hshort
  | write =>
    -- A buffer is not empty, so there was no room for it.
    obtain ⟨length, hstage, hfull⟩ := h
    rw [hstage] at hsound
    have hlength := hsound.2.1
    simp only [Run.fetchEnd, if_true] at hfull
    omega
  | answer | error | save => exact h.elim

theorem Fetch.Concludes.held {wholeFile : Bool} {position : ℕ}
    (h : f.Concludes r chunk wholeFile position a)
    (hsound : f.stage.Sound c s inode chunk.start chunk.last) (hshort : f.stopsShort r a = false)
    (hsize : wholeFile = false → chunk.size ≤ position - chunk.start)
    (hrange : chunk.last < r.plan.bytesTotal ∧ chunk.last + 1 ≤ chunk.start + chunk.size) :
    s.Held c inode chunk.start (chunk.last + 1) ∧
      (wholeFile = true → s.Held c inode 0 r.plan.bytesTotal) := by
  obtain ⟨hstart, hzero, hheld⟩ := h.at.held hsound
  cases wholeFile with
  | false =>
    have hsize := hsize rfl
    exact ⟨hheld.part le_rfl (by omega), nofun⟩
  | true =>
    have hend := h.complete hsound hshort
    have hzero := hzero rfl
    exact ⟨hheld.part le_rfl (by omega), fun _ => hheld.part (by omega) hend⟩

/-- **Stream**: a fetch has written what is before its position. -/
theorem Fetch.Step.sound (h : Step content s r f chunk source a s' r' result)
    (hc : content source.serviceId = c) (hsound : f.stage.Sound c s inode chunk.start chunk.last)
    (hshort : f.stopsShort r a = false)
    (hrange : chunk.last < r.plan.bytesTotal ∧ chunk.last + 1 ≤ chunk.start + chunk.size)
    (hinode : inode < s.inodes.length) (hhandle : ∀ handle ∈ r.handle, handle.inode = inode)
    (hopen : ∃ handle ∈ r.handle, handle.state ≠ .dropped) {stage : FetchStage}
    (hresult : result = .goes stage) : stage.Sound c s' inode chunk.start chunk.last := by
  subst hc
  cases h with
  | answer _ hwhole =>
    cases hresult
    exact ⟨le_rfl, hwhole, _, List.getElem?_eq_getElem hinode, SparseFile.holds_of_le le_rfl⟩
  | piece hstage hlength hroom =>
    cases hresult
    rw [hstage] at hsound
    exact ⟨hsound, hlength, hroom⟩
  | @write wholeFile position length writable _ _ hstage hwritable _ hopened =>
    cases hresult
    rw [hstage] at hsound
    obtain ⟨⟨hstart, hwhole, hheld⟩, _, hroom⟩ := hsound
    obtain rfl := hhandle _ hopened
    exact ⟨by omega, hwhole, hheld.written (by omega)⟩
  | writeNowhere _ _ _ hdropped =>
    obtain ⟨handle, hmem, hstate⟩ := hopen
    exact absurd (hdropped handle hmem) hstate
  | fails =>
    cases hresult
    intro hdone
    simp only [PlannedChunk.patch] at hdone
    split at hdone <;> cases hdone
  | succeeds hconcludes hsize =>
    cases hresult
    exact fun _ => (hconcludes.held hsound hshort hsize hrange).1
  | save => split at hresult <;> cases hresult

/-- **Plan**: a chunk that is done after a step of a fetch was so before, or is held. -/
theorem Fetch.Step.done (h : Step content s r f chunk source a s' r' result)
    (hsound : f.stage.Sound c s inode chunk.start chunk.last) (hshort : f.stopsShort r a = false)
    (hchunk : r.plan.chunks[f.chunk]? = some chunk)
    (hranges : ∀ chunk ∈ r.plan.chunks,
      chunk.last < r.plan.bytesTotal ∧ chunk.last + 1 ≤ chunk.start + chunk.size)
    {j : ℕ} {done : PlannedChunk} (hj : r'.plan.chunks[j]? = some done)
    (hstate : done.state = .DONE) :
    (∃ old, r.plan.chunks[j]? = some old ∧ old.range = done.range ∧ old.state = .DONE) ∨
      s.Held c inode done.start (done.last + 1) := by
  cases h with
  | answer | piece | save => exact .inl ⟨done, hj, rfl, hstate⟩
  | write | writeNowhere =>
    rw [Run.account_chunks] at hj
    exact .inl ⟨done, hj, rfl, hstate⟩
  | fails =>
    obtain ⟨old, hold, ⟨rfl, rfl⟩ | ⟨hne, rfl⟩⟩ := Run.getElem?_modifyChunk hj
    · simp only at hstate
      split at hstate <;> cases hstate
    · exact .inl ⟨_, hold, rfl, hstate⟩
  | @succeeds _ wholeFile _ hconcludes hsize =>
    have hheld := hconcludes.held hsound hshort hsize (hranges chunk (List.mem_of_getElem? hchunk))
    cases wholeFile with
    | true =>
      -- Every chunk is marked, and the whole file is there.
      simp only [Run.succeedFetch, Run.modifySource, if_true, List.getElem?_map] at hj
      obtain ⟨mid, hmid, rfl⟩ := Option.map_eq_some_iff.mp hj
      obtain ⟨old, hold, hcase⟩ := Run.getElem?_modifyChunk hmid
      have hlast := (hranges old (List.mem_of_getElem? hold)).1
      have hsame : mid.start = old.start ∧ mid.last = old.last := by
        obtain ⟨_, rfl⟩ | ⟨_, rfl⟩ := hcase <;> exact ⟨rfl, rfl⟩
      refine .inr ((hheld.2 rfl).part (Nat.zero_le _) ?_)
      simp only [hsame.2]
      omega
    | false =>
      obtain ⟨old, hold, ⟨rfl, rfl⟩ | ⟨hne, rfl⟩⟩ := Run.getElem?_modifyChunk hj
      · obtain rfl := Option.some.inj (hchunk.symm.trans hold)
        exact .inr hheld.1
      · exact .inl ⟨_, hold, rfl, hstate⟩

end

end MediaCenterSync.TransferEngine
