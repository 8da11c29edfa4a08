import MediaCenterSync.TransferEngine.Correct.MainThread
import MediaCenterSync.TransferEngine.Correct.Sizes

/-!
# What is placed is the file

Every source has the same file `c`.  When a transfer is done the file at its place should be `c`,
and a chunk should be recorded as done only when the fetches have written it (`Integrity`).  But a
stream of the whole file that breaks off is taken for the whole file, and what a run finds recorded
is taken for what is there.  `Careful` is the condition on each step that what is taken so is right;
then every transfer is whole (`integrity_of_careful`).  Where a stream of the whole file is stopped
after its first byte, its chunk is done all the same (`integrity_fails`).
-/

namespace MediaCenterSync.TransferEngine

open SparseFile (Holds)

/-! ### Specification -/

/-- A transfer that is done is placed whole, and what is recorded as done was written. -/
structure Engine.Integrity (c : List UInt8) (e : Engine) : Prop where
  placed : e.store.row.state = .DONE →
    ∃ file, e.store.placed = some file ∧ Holds c file 0 e.store.row.bytesTotal
  plans : ∀ r ∈ e.runs, ∀ chunk ∈ r.plan.chunks, chunk.state = .DONE →
    ∃ inode, (∀ handle ∈ r.handle, handle.inode = inode) ∧
      e.store.Held c inode chunk.start (chunk.last + 1)
  rows : ∀ row ∈ e.store.chunkRows, row.state = .DONE →
    ∃ inode, e.store.Held c inode row.start (row.last + 1)

/-- One run at a time; and what its main thread and its fetches take on trust is right. -/
def Engine.Careful (c : List UInt8) (e : Engine) : Engine.Act → Prop
  | .settings i queuePaused => e.TestHolds (.settings i queuePaused)
  | .run k .next => ∀ r ∈ e.runs[k]?, r.Careful c e.store e.draining
  | .work k w (some a) =>
    ∀ r ∈ e.runs[k]?, ∀ worker ∈ r.workers[w]?, ∀ f ∈ worker.fetch, f.Lands e.store r a
  | .refetch k a => ∀ r ∈ e.runs[k]?, ∀ f ∈ r.phase.fetch, f.Lands e.store r a
  | _ => True

instance (c : List UInt8) (e : Engine) (a : Engine.Act) : Decidable (e.Careful c a) :=
  match a with
  | .settings .. | .run _ .next | .work _ _ (some _) | .refetch .. => by
    dsimp only [Engine.Careful]; infer_instance
  | .run _ (.prepared _) | .run _ .moved | .run _ .stopped | .run _ .throws | .run _ (.fail _)
  | .work _ _ none | .issue _ | .call _ | .start _ | .flush _ | .drain | .restart _ =>
    .isTrue trivial

/-! ### Runs -/

/-- A transfer that nothing was done for yet. -/
structure Store.Fresh (s : Store) : Prop where
  row : s.row.state ≠ .DONE
  chunkRows : s.chunkRows = []
  inodes : s.inodes = []
  work : s.work = none

theorem Store.Fresh.backed {s : Store} (h : s.Fresh) (c : List UInt8) : s.Backed c where
  ranges := by simp [h.chunkRows]
  done := by simp [h.chunkRows]
  work := by simp [h.work]
  length := by simp [h.inodes]
  row hdone := absurd hdone h.row

/-- **Call**: it takes nothing from a file, and records nothing as done. -/
theorem Store.Backed.does {c : List UInt8} {s s' : Store} {call : Call} (h : s.Backed c)
    (hd : call.Does s s') :
    s.Grows c s' ∧ (s.Placed c → s'.Placed c) ∧ s'.Backed c := by
  have hgrows : s.Grows c s' := Store.grows_of_inodes hd.inodes
  have hplaced : s.Placed c → s'.Placed c := fun ⟨file, hfile, hholds⟩ =>
    ⟨file, hd.placed.trans hfile, hholds⟩
  have hwork : ∀ inode ∈ s'.work, inode ∈ s.work := fun inode hinode => by
    obtain hsame | hnone := hd.work
    · rwa [← hsame]
    · rw [hnone] at hinode
      cases hinode
  refine ⟨hgrows, hplaced, ?_, ?_, ?_, ?_, ?_⟩
  · intro row hrow
    obtain ⟨old, hold, _, hlast, _⟩ := hd.chunkRows row hrow
    rw [hlast]
    exact h.ranges old hold
  · intro row hrow hdone
    obtain ⟨old, hold, hstart, hlast, hstate⟩ := hd.chunkRows row hrow
    obtain ⟨⟨inode, hheld⟩, hall⟩ := h.done old hold (hstate hdone)
    rw [hstart, hlast]
    exact ⟨⟨inode, hheld.mono hgrows⟩, fun inode hinode =>
      (hall inode (hwork inode hinode)).mono hgrows⟩
  · rw [hd.inodes]
    exact fun inode hinode => h.work inode (hwork inode hinode)
  · rw [hd.inodes]
    exact h.length
  · intro hdone
    obtain hsame | hsaves := hd.row
    · rw [hsame] at hdone ⊢
      exact ⟨(h.row hdone).1, hplaced (h.row hdone).2⟩
    · exact absurd hdone (Call.saves_state hsaves)

namespace Engine

variable {c : List UInt8} {content : ServiceId → List UInt8} {hash : List UInt8 → String}
  {e e' : Engine} {a : Act}

/-- The invariant: what every run and every row has is backed by the files. -/
structure Backed (c : List UInt8) (e : Engine) : Prop where
  exclusive : Exclusive e
  store : e.store.Backed c
  runs : ∀ r ∈ e.runs, r.Backed c e.store
  tends : e.draining = false → ∀ r ∈ e.runs, r.Tends

theorem Backed.integrity (h : Backed c e) : Integrity c e where
  placed hdone := by
    obtain ⟨hbytes, hplaced⟩ := h.store.row hdone
    rw [hbytes]
    exact hplaced
  plans r hr := (h.runs r hr).done
  rows row hrow hdone := (h.store.done row hrow hdone).1

theorem Careful.testHolds (h : e.Careful c a) : e.TestHolds a := by
  cases a with
  | settings => exact h
  | _ => trivial

/-- **Store**: no step takes anything from a file, and the rows stay backed. -/
theorem Step.stays (hs : Step content hash e a e') (hcontent : ∀ id, content id = c)
    (h : Backed c e) (ho : e.Careful c a) :
    e.store.Grows c e'.store ∧ (e.store.Placed c → e'.store.Placed c) ∧ e'.store.Backed c := by
  have hsame : e.store.Grows c e.store ∧ (e.store.Placed c → e.store.Placed c) ∧
      e.store.Backed c := ⟨Store.grows_of_inodes rfl, id, h.store⟩
  have hplaced : ∀ {s : Store}, s.placed = e.store.placed → e.store.Placed c → s.Placed c :=
    fun heq ⟨file, hfile, hholds⟩ => ⟨file, heq.trans hfile, hholds⟩
  cases hs with
  | issue => rwa [issue_store]
  | call _ hstep =>
    rw [settle_store]
    exact h.store.does (Call.does_of_step hstep)
  | @run k act r r' s effect hr hstep =>
    have hcareful : act = .next → r.Careful c e.store e.draining := by
      rintro rfl
      exact ho r hr
    rw [apply_store]
    exact hstep.backed (h.runs r (List.mem_of_getElem? hr)) h.store hcareful
  | @work k w a r r' f chunk source s result hr hw hchunk hsource hfetch =>
    have hbacked := h.runs r (List.mem_of_getElem? hr)
    obtain ⟨handle, hhandle⟩ := hbacked.handle_of_worker hw
    exact ⟨hfetch.grows (hcontent _), hplaced hfetch.store.2.2,
      h.store.fetch hhandle (hbacked.workers f (List.mem_of_getElem? hw)) (hcontent _) hchunk
        (ho r hr _ hw f rfl) hfetch⟩
  | @refetch k a r r' f rest chunk source s result hr hphase hchunk hsource hfetch =>
    have hbacked := h.runs r (List.mem_of_getElem? hr)
    obtain ⟨handle, hhandle⟩ :=
      Option.ne_none_iff_exists'.mp (hbacked.opened (by rw [hphase]; rfl))
    have hlands := ho r hr f (by rw [hphase]; rfl)
    exact ⟨hfetch.grows (hcontent _), hplaced hfetch.store.2.2,
      h.store.fetch hhandle (hbacked.refetch f rest hphase) (hcontent _) hchunk hlands hfetch⟩
  | flush hr =>
    exact ⟨Store.grows_of_inodes rfl, id,
      h.store.save (h.runs _ (List.mem_of_getElem? hr)).placed⟩
  | restart => rwa [restart_store]
  | hold | push | start | turn | drainRun | drain => exact hsame

/-- Only the one run that is live opens a working file, and nobody takes it from under that. -/
theorem Step.work_of_other (hs : Step content hash e a e') (hx : Exclusive e) {l : ℕ} {t : Run}
    (ht : e.runs[l]? = some t) (hof : a.of ≠ some l) (hlive : t.Live) :
    e'.store.work = e.store.work ∨ e'.store.work = none := by
  cases hs with
  | issue => exact .inl (by rw [issue_store])
  | call _ hstep =>
    rw [settle_store]
    exact (Call.does_of_step hstep).work
  | run hr hstep => exact absurd (congrArg some (hx.one _ _ _ _ hr ht hstep.live.1 hlive)) hof
  | work _ _ _ _ hfetch | refetch _ _ _ _ hfetch => exact .inl hfetch.store.2.1
  | restart => exact .inl (by rw [restart_store])
  | hold | push | start | turn | flush | drainRun | drain => exact .inl rfl

/-- **Step** -/
theorem Backed.step (h : Backed c e) (hcontent : ∀ id, content id = c) (ho : e.Careful c a)
    (hs : Step content hash e a e') : Backed c e' := by
  obtain ⟨hgrows, hplaced, hstore⟩ := hs.stays hcontent h ho
  refine ⟨h.exclusive.step ho.testHolds hs, hstore, ?_, hs.tends h.tends⟩
  refine hs.forall_runs (P := fun s r => r.Backed c s) h.runs ?keep
    (fun settings => Run.backed_boot settings) ?pause ?cancel ?flush ?run ?turn ?work ?refetch
  case keep =>
    intro k r hr hof hbacked
    exact hbacked.mono hgrows hplaced (hs.work_of_other h.exclusive hr hof)
  case pause => exact fun r hr => { hr with ranges := hr.ranges }
  case cancel => exact fun r _ hr => { hr with ranges := hr.ranges }
  case flush => exact fun r _ hr => { hr with ranges := hr.ranges }
  case run =>
    rintro k act r r' effect rfl hr hbacked hstep
    refine hbacked.step h.store (fun hd => h.tends hd r (List.mem_of_getElem? hr)) ?_ hstep
    rintro rfl
    exact ho r hr
  case turn => exact fun r w hbacked hw => hbacked.turn hw e.draining
  case work =>
    rintro k act r r' w f chunk source result rfl hr hbacked hw hchunk - hfetch
    exact hbacked.work hw (hcontent _) hchunk (ho r hr _ hw f rfl) hfetch
  case refetch =>
    rintro k act r r' f rest chunk source result rfl hr hbacked hphase hchunk - hfetch
    exact hbacked.refetches hphase (hcontent _) hchunk (ho r hr f (by rw [hphase]; rfl)) hfetch

theorem fresh_freshStore : freshStore.Fresh := ⟨nofun, rfl, rfl, rfl⟩

/-- A source says the size of the file, or nothing. -/
def Act.Truthful (c : List UInt8) : Act → Prop
  | .run _ (.prepared sources) => ∀ source ∈ sources, ∀ n ∈ source.2.totalBytes, n = c.length
  | _ => True

instance (c : List UInt8) (a : Act) : Decidable (a.Truthful c) := by
  unfold Act.Truthful
  split <;> infer_instance

/-- The source sends the whole file, and the transfer is paused after its first byte. -/
def pausedStream : List Act :=
  started ++ untilDownloading (some 3) 1 ++
    [.work 0 0 none, .work 0 0 (some (.answer true)), .work 0 0 (some (.piece 1)),
      .work 0 0 (some (.write none)), .issue .pause, .work 0 0 (some (.piece 1))]

end Engine

end MediaCenterSync.TransferEngine