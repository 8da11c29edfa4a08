import MediaCenterSync.TransferEngine.Correct.Backed

/-!
# From the plan to the place

The main thread takes several things on trust: the size it plans with, that the chunks that are
recorded as done are in the working file it opens, that a download that is over has every chunk,
that the plan it continues covers the file.  Where what it takes next is right (`Run.Careful`), a
step keeps what the run and the rows have (`Run.Backed.step`, `Run.Step.backed`), and what it moves
into place is the whole file (`Run.Backed.placed_of_moved`).
-/

namespace MediaCenterSync.TransferEngine

open SparseFile (Holds)

/-- What the main thread takes on trust next is right: the size it plans with, that no chunk is done
while there is no working file, that a download that ends with the process has every chunk, that a
plan covers a file of the right size. -/
def Run.Careful (c : List UInt8) (s : Store) (draining : Bool) (r : Run) : Prop :=
  match r.phase with
  | .planning => totalBytes r.transfer r.sources = c.length
  | .opening => s.work = none →
    (∀ chunk ∈ r.plan.chunks, chunk.state ≠ .DONE) ∧ ∀ row ∈ s.chunkRows, row.state ≠ .DONE
  | .downloading => draining = true → r.cancelling = false → r.pausing = false →
    ∀ chunk ∈ r.plan.chunks, chunk.state = .DONE
  | .verifying => Covers r.plan.chunks r.plan.bytesTotal ∨
    ∀ file ∈ s.workFile, file.length ≠ r.plan.bytesTotal
  | _ => True

instance (c : List UInt8) (s : Store) (draining : Bool) (r : Run) :
    Decidable (r.Careful c s draining) := by
  dsimp only [Run.Careful]
  exact match r.phase with
    | .planning | .opening | .downloading | .verifying => inferInstance
    | .load | .setState .. | .preparing | .persisting | .inserting _ | .cancelling .. | .repairing _
    | .refetching .. | .failing | .placing | .moving | .finishing | .catching _ | .closing | .ended =>
      .isTrue trivial

/-- What the rows have is backed by the files. -/
structure Store.Backed (c : List UInt8) (s : Store) : Prop where
  ranges : ∀ row ∈ s.chunkRows, row.last < c.length
  done : ∀ row ∈ s.chunkRows, row.state = .DONE →
    (∃ inode, s.Held c inode row.start (row.last + 1)) ∧
      ∀ inode ∈ s.work, s.Held c inode row.start (row.last + 1)
  work : ∀ inode ∈ s.work, inode < s.inodes.length
  length : ∀ file ∈ s.inodes, file.length ≤ c.length
  row : s.row.state = .DONE → s.row.bytesTotal = c.length ∧ s.Placed c

section

variable {c : List UInt8} {s s' : Store} {r r' : Run}

/-! ### The store -/

theorem Store.Backed.save (h : s.Backed c) {row : Row}
    (hrow : row.state = .DONE → row.bytesTotal = c.length ∧ s.Placed c) :
    Store.Backed c { s with row := row } := { h with row := hrow }

theorem Store.Backed.remove (h : s.Backed c) : Store.Backed c { s with work := none } :=
  { h with done := fun row hrow hdone => ⟨(h.done row hrow hdone).1, nofun⟩, work := nofun }

/-- A working file that is there is opened as it is: no file is longer than `c`. -/
theorem Store.Backed.openWorkFile_some (h : s.Backed c) {inode : ℕ} (hwork : s.work = some inode) :
    s.openWorkFile c.length = (s, inode) := by
  have hsame : (s.inodes.modify inode fun file =>
      if c.length < file.length ∧ 0 < c.length then file.take c.length else file) = s.inodes := by
    apply List.ext_getElem?
    intro i
    rw [List.getElem?_modify]
    cases hfile : s.inodes[i]? with
    | none => rfl
    | some file =>
      have hlength := h.length file (List.mem_of_getElem? hfile)
      have hkeep : ¬ (c.length < file.length ∧ 0 < c.length) := by omega
      simp [hkeep]
  simp only [Store.openWorkFile, hwork, hsame]
  rw [← hwork]

theorem Store.grows_create (s : Store) :
    s.Grows c { s with inodes := s.inodes ++ [[]], work := some s.inodes.length } := by
  intro inode file hfile
  refine ⟨file, ?_, fun _ _ => id⟩
  rw [List.getElem?_append_left (List.getElem?_eq_some_iff.mp hfile).1]
  exact hfile

theorem Store.Backed.create (h : s.Backed c)
    (hnone : ∀ row ∈ s.chunkRows, row.state ≠ .DONE) :
    Store.Backed c { s with inodes := s.inodes ++ [[]], work := some s.inodes.length } where
  ranges := h.ranges
  done row hrow hdone := absurd hdone (hnone row hrow)
  work inode hinode := by
    cases hinode
    simp
  length file hfile := by
    obtain hfile | hfile := List.mem_append.mp hfile
    · exact h.length file hfile
    · rw [List.mem_singleton.mp hfile]
      exact Nat.zero_le _
  row := h.row

variable {content : ServiceId → List UInt8} {f : Fetch} {chunk : PlannedChunk}
  {source : RuntimeSource} {a : FetchAct} {result : FetchResult}

/-- A fetch records only what is held, and writes no file beyond the end of `c`. -/
theorem Store.Backed.fetch (h : s.Backed c) {handle : Handle}
    (hhandle : r.handle = some handle) (hf : r.Fetches c s f) (hc : content source.serviceId = c)
    (hchunk : r.plan.chunks[f.chunk]? = some chunk) (hlands : f.Lands s r a)
    (hs : Fetch.Step content s r f chunk source a s' r' result) : s'.Backed c := by
  have hsound := hf handle hhandle chunk hchunk
  cases hs with
  | @write wholeFile position length writable inode rate hstage hwritable =>
    have hgrows : s.Grows c
        { s with inodes := s.inodes.modify inode fun file =>
            file.write position ((c.drop position).take writable) } := s.grows_write _ _ _
    rw [hstage] at hsound
    have hroom := hsound.2.2
    rw [hc]
    exact {
      ranges := h.ranges
      done := fun row hrow hdone => by
        obtain ⟨⟨inode, hheld⟩, hwork⟩ := h.done row hrow hdone
        exact ⟨⟨inode, hheld.mono hgrows⟩, fun inode hinode => (hwork inode hinode).mono hgrows⟩
      work := fun inode hinode => by
        rw [List.length_modify]
        exact h.work inode hinode
      length := fun file hfile => by
        obtain ⟨i, hi⟩ := List.mem_iff_getElem?.mp hfile
        obtain ⟨old, hold, ⟨_, rfl⟩ | ⟨_, rfl⟩⟩ := Engine.getElem?_modify_cases hi
        · have hlength := h.length old (List.mem_of_getElem? hold)
          rw [SparseFile.length_write, List.length_take, List.length_drop]
          omega
        · exact h.length _ (List.mem_of_getElem? hold)
      row := h.row }
  | @save patch threw hstage =>
    refine { h with ranges := fun row hrow => ?_, done := fun row hrow hdone => ?_ }
    · obtain ⟨old, hold, rfl⟩ := List.mem_map.mp hrow
      have := h.ranges old hold
      split <;> exact this
    · obtain ⟨old, hold, rfl⟩ := List.mem_map.mp hrow
      split at hdone
      · rename_i hindex
        -- It is recorded in the row of its range, beside the file it was written to.
        rw [if_pos hindex]
        have hrecords : f.stage.records = true := by
          rw [hstage]
          exact decide_eq_true hdone
        obtain ⟨hrows, hinode⟩ := hlands.2 rfl hrecords
        obtain ⟨hstart, hlast⟩ := hrows chunk hchunk old hold hindex
        rw [hstage] at hsound
        have hheld := hsound hdone
        simp only [hstart, hlast]
        refine ⟨⟨_, hheld⟩, fun inode hwork => ?_⟩
        rw [hinode handle hhandle inode hwork]
        exact hheld
      · rename_i hindex
        rw [if_neg hindex]
        exact h.done old hold hdone
  | _ => exact h

/-! ### The main thread -/

variable {hash : List UInt8 → String} {act : RunAct} {effect : Effect} {draining : Bool}

theorem Run.Backed.transfer (h : r.Backed c s) {t : Row}
    (hsize : r.phase.stage = .planned ∨ r.handle ≠ none → t.bytesTotal = r.transfer.bytesTotal)
    (hstate : t.state = .DONE → t.bytesTotal = c.length ∧ s.Placed c) :
    Run.Backed c s { r with transfer := t } :=
  { h with
    size := fun hs => ⟨(h.size hs).1, (hsize hs).trans (h.size hs).2⟩
    placed := hstate }

theorem Run.Backed.handles (h : r.Backed c s) {g : Handle → Handle}
    (hinode : ∀ handle, (g handle).inode = handle.inode)
    (hdropped : ∀ handle ∈ r.handle, (g handle).state = .dropped → handle.state ≠ .dropped →
      (r.phase.stage = .moving ∨ r.phase.stage = .leaving) ∧
        ∀ worker ∈ r.workers, worker = .returned) :
    Run.Backed c s { r with handle := r.handle.map g } := by
  have hof : ∀ {P : ℕ → Prop}, (∀ handle ∈ r.handle, P handle.inode) →
      ∀ handle ∈ r.handle.map g, P handle.inode := fun hP handle hmem => by
    obtain ⟨old, hold, rfl⟩ := Option.map_eq_some_iff.mp hmem
    rw [hinode]
    exact hP old hold
  have hfetches : ∀ f, r.Fetches c s f →
      Run.Fetches c s { r with handle := r.handle.map g } f := fun f hf =>
    hof (P := fun inode => ∀ chunk ∈ r.plan.chunks[f.chunk]?,
      f.stage.Sound c s inode chunk.start chunk.last) hf
  exact {
    h with
    early := fun hearly => by rw [h.early hearly]; rfl
    idle := fun hnone => h.idle (Option.map_eq_none_iff.mp hnone)
    opened := fun hopens hnone => h.opened hopens (Option.map_eq_none_iff.mp hnone)
    size := fun hs => h.size (hs.imp_right fun hsome hnone => hsome (by rw [hnone]; rfl))
    inode := fun handle hmem => by
      obtain ⟨old, hold, rfl⟩ := Option.map_eq_some_iff.mp hmem
      rw [hinode]
      exact h.inode old hold
    dropped := fun handle hmem hdrop => by
      obtain ⟨old, hold, rfl⟩ := Option.map_eq_some_iff.mp hmem
      by_cases hstate : old.state = .dropped
      · exact h.dropped old hold hstate
      · exact hdropped old hold hdrop hstate
    unopened := fun hlive hnone => h.unopened hlive (Option.map_eq_none_iff.mp hnone)
    done := fun chunk hchunk hdone => by
      obtain ⟨inode, hown, hheld⟩ := h.done chunk hchunk hdone
      exact ⟨inode, hof (P := (· = inode)) hown, hheld⟩
    workers := fun f hf => hfetches f (h.workers f hf)
    refetch := fun f rest hphase => hfetches f (h.refetch f rest hphase)
    fetched := fun hlate => ⟨(h.fetched hlate).1,
      hof (P := fun inode => ∀ chunk ∈ r.plan.chunks,
        s.Held c inode chunk.start (chunk.last + 1)) (h.fetched hlate).2⟩
    whole := fun hchecked =>
      hof (P := fun inode => s.Held c inode 0 c.length) (h.whole hchecked) }

theorem Run.Backed.advances (h : r.Backed c s) {p : RunPhase}
    (hopens : r.phase.stage.opens = true) (hstay : r.phase.stage ≠ .moving) (hlive : r.Live)
    (hp : p.stage.late = true) (hsetting : p.setsDone = false)
    (hrefetch : ∀ f rest, p ≠ .refetching f rest)
    (hfetched : (∀ worker ∈ r.workers, worker = .returned) ∧
      ∀ handle ∈ r.handle, ∀ chunk ∈ r.plan.chunks,
        s.Held c handle.inode chunk.start (chunk.last + 1))
    (hwhole : p.stage.checked = true → ∀ handle ∈ r.handle, s.Held c handle.inode 0 c.length) :
    Run.Backed c s { r with phase := p } :=
  { h with
    inserting := fun rest hinserting => by
      cases (show p = _ from hinserting)
      cases hp
    setting := hsetting
    early := fun hearly => by
      cases hstage : p.stage <;> simp [hstage, RunStage.early, RunStage.late] at hearly hp
    opened := fun _ => h.opened hopens
    size := fun _ => h.size (.inr (h.opened hopens))
    inode := fun handle hhandle => ⟨(h.inode handle hhandle).1, fun _ =>
      (h.inode handle hhandle).2 hlive⟩
    dropped := fun handle hhandle hdropped => by
      obtain hmoving | hleaving := (h.dropped handle hhandle hdropped).1
      · exact absurd hmoving hstay
      · rw [hleaving] at hopens
        cases hopens
    unopened := fun _ => h.unopened hlive
    refetch := fun f rest hphase => absurd hphase (hrefetch f rest)
    fetched := fun _ => hfetched
    whole := hwhole }

/-- What a plan is made of: ranges of the file, done where their rows are. -/
theorem mem_plans (hs : s.Backed c) (hsize : totalBytes r.transfer r.sources = c.length)
    {chunk : PlannedChunk} (h : chunk ∈ (r.plans s).plan.chunks) :
    (chunk.last < c.length ∧ chunk.last + 1 ≤ chunk.start + chunk.size) ∧
      (chunk.state = .DONE → ∃ row ∈ s.chunkRows,
        row.state = .DONE ∧ row.start = chunk.start ∧ row.last = chunk.last) := by
  obtain ⟨planned, hplanned, hrange, hstate⟩ := mem_adoptPieceChecksums h
  simp only [PlannedChunk.range, Prod.mk.injEq] at hrange
  obtain ⟨hstart, hlast, hlength⟩ := hrange
  rw [hsize] at hplanned
  by_cases hrows : s.chunkRows = []
  · rw [hrows] at hplanned
    obtain ⟨⟨hle, hlt, heq⟩, hpending⟩ := (planChunks_new ..).2 planned hplanned
    refine ⟨⟨by omega, by omega⟩, fun hchunk => ?_⟩
    rw [← hstate, hpending] at hchunk
    cases hchunk
  · rw [planChunks, if_pos hrows] at hplanned
    obtain ⟨row, hrow, _, hstart', hlast', hlength', hdone⟩ := mem_resumePlan hplanned
    have hinside := hs.ranges row hrow
    refine ⟨⟨by omega, by omega⟩, fun hchunk => ⟨row, hrow, ?_, by omega, by omega⟩⟩
    rw [← hstate, hdone] at hchunk
    split at hchunk
    · assumption
    · cases hchunk

/-- **Plan** -/
theorem Run.Backed.plans (h : r.Backed c s) (hs : s.Backed c) (hphase : r.phase = .planning)
    (hsize : totalBytes r.transfer r.sources = c.length) : (r.plans s).Backed c s := by
  have hhandle : r.handle = none := h.early (by rw [hphase]; rfl)
  have hworkers : r.workers = [] := h.idle hhandle
  have htotal : (r.plans s).plan.bytesTotal = c.length :=
    (adoptPieceChecksums_same ..).1.trans ((planChunks_bytesTotal ..).trans hsize)
  have hnone : (r.plans s).handle = none := hhandle
  exact {
    ranges := fun chunk hchunk => (mem_plans hs hsize hchunk).1
    inserting := nofun
    setting := rfl
    early := fun _ => hhandle
    idle := fun _ => hworkers
    opened := nofun
    size := fun _ => ⟨htotal, htotal⟩
    inode := by rw [hnone]; nofun
    dropped := by rw [hnone]; nofun
    unopened := fun _ _ chunk hchunk hdone => by
      obtain ⟨row, hrow, hstate, hstart, hlast⟩ := (mem_plans hs hsize hchunk).2 hdone
      rw [← hstart, ← hlast]
      exact (hs.done row hrow hstate).2
    done := fun chunk hchunk hdone => by
      obtain ⟨row, hrow, hstate, hstart, hlast⟩ := (mem_plans hs hsize hchunk).2 hdone
      obtain ⟨inode, hheld⟩ := (hs.done row hrow hstate).1
      rw [← hstart, ← hlast, hnone]
      exact ⟨inode, nofun, hheld⟩
    workers := by
      rw [show (r.plans s).workers = [] from hworkers]
      nofun
    refetch := nofun
    fetched := nofun
    whole := nofun
    placed := fun hdone => ⟨htotal, (h.placed hdone).2⟩ }

/-- **Open**: what was done is in the working file, or nothing was. -/
theorem Run.Backed.opens (h : r.Backed c s) (hs : s.Backed c) (hphase : r.phase = .opening)
    (hcareful : r.Careful c s draining) :
    s.Grows c (s.openWorkFile r.plan.bytesTotal).1 ∧
      Store.Backed c (s.openWorkFile r.plan.bytesTotal).1 ∧
      Run.Backed c (s.openWorkFile r.plan.bytesTotal).1 { r with
        phase := .setState .DOWNLOADING none
        handle := some ⟨(s.openWorkFile r.plan.bytesTotal).2, .opened⟩ } := by
  have hhandle : r.handle = none := h.early (by rw [hphase]; rfl)
  have hworkers : r.workers = [] := h.idle hhandle
  have hsize := h.size (.inl (by rw [hphase]; rfl))
  have hlive : r.Live := by rw [Run.Live, hphase]; simp
  -- The run goes on alike with the file that was there and with a new one.
  have hopened : ∀ {s' : Store} {inode : ℕ}, inode < s'.inodes.length → s'.work = some inode →
      (s.Placed c → s'.Placed c) →
      (∀ chunk ∈ r.plan.chunks, chunk.state = .DONE →
        s'.Held c inode chunk.start (chunk.last + 1)) →
      Run.Backed c s' { r with
        phase := .setState .DOWNLOADING none, handle := some ⟨inode, .opened⟩ } := by
    intro s' inode hlt hwork hplaced hdone
    exact {
      ranges := h.ranges
      inserting := by simp
      setting := rfl
      early := by intros; contradiction
      idle := by simp
      opened := by simp
      size := fun _ => hsize
      inode := by
        rintro _ ⟨⟩
        refine ⟨hlt, fun _ i hi => ?_⟩
        exact Option.some.inj (hi.symm.trans hwork)
      dropped := by rintro _ ⟨⟩ ⟨⟩
      unopened := by simp
      done := fun chunk hchunk hstate => ⟨inode, by rintro _ ⟨⟩; rfl, hdone chunk hchunk hstate⟩
      workers := by
        simp only [hworkers]
        simp
      refetch := by simp
      fetched := by intros; contradiction
      whole := by intros; contradiction
      placed := fun hstate => ⟨(h.placed hstate).1, hplaced (h.placed hstate).2⟩ }
  rw [hsize.1]
  cases hwork : s.work with
  | some inode =>
    rw [hs.openWorkFile_some hwork]
    refine ⟨Store.grows_of_inodes rfl, hs, hopened (hs.work inode hwork) hwork id ?_⟩
    exact fun chunk hchunk hdone => h.unopened hlive hhandle chunk hchunk hdone inode hwork
  | none =>
    obtain ⟨hplan, hrows⟩ := (by simpa [Run.Careful, hphase] using hcareful : s.work = none →
      (∀ chunk ∈ r.plan.chunks, chunk.state ≠ .DONE) ∧
        ∀ row ∈ s.chunkRows, row.state ≠ .DONE) hwork
    have hcreate : s.openWorkFile c.length =
        ({ s with inodes := s.inodes ++ [[]], work := some s.inodes.length }, s.inodes.length) := by
      simp only [Store.openWorkFile, hwork]
    rw [hcreate]
    refine ⟨s.grows_create, hs.create hrows, hopened (by simp) rfl id ?_⟩
    exact fun chunk hchunk hdone => absurd hdone (hplan chunk hchunk)

theorem Run.Backed.verified (h : r.Backed c s) (hphase : r.phase = .verifying)
    (hcareful : r.Careful c s draining)
    (hok : (verify hash s.workFile (r.plan.chunks.map (·.verifiable)) (some r.plan.bytesTotal)
      none).ok = true) :
    ∀ handle ∈ r.handle, s.Held c handle.inode 0 c.length := by
  intro handle hhandle
  obtain ⟨file, hfile, hlength⟩ := length_of_verify hok
  have hcovers : Covers r.plan.chunks r.plan.bytesTotal := by
    obtain hcovers | hsize : Covers r.plan.chunks r.plan.bytesTotal ∨
        ∀ file ∈ s.workFile, file.length ≠ r.plan.bytesTotal := by
      simpa [Run.Careful, hphase] using hcareful
    · exact hcovers
    · exact absurd hlength (hsize file hfile)
  rw [← (h.size (.inr (by rw [hhandle]; nofun))).1]
  exact held_of_covers ⟨_, List.getElem?_eq_getElem (h.inode handle hhandle).1⟩ hcovers
    ((h.fetched (by rw [hphase]; rfl)).2 handle hhandle)

theorem Run.Backed.downloaded (h : r.Backed c s) (htends : draining = false → r.Tends)
    (hcareful : r.Careful c s draining) (hphase : r.phase = .downloading)
    (hreturned : ∀ worker ∈ r.workers, worker = .returned) (hcancelling : r.cancelling = false)
    (hpausing : r.pausing = false) :
    ∀ handle ∈ r.handle, ∀ chunk ∈ r.plan.chunks,
      s.Held c handle.inode chunk.start (chunk.last + 1) := by
  intro handle hhandle chunk hchunk
  have hdone : chunk.state = .DONE := by
    cases hdraining : draining with
    | false =>
      have hall := (htends hdraining).done_of_returned hphase hcancelling hpausing hreturned
      exact hall chunk hchunk
    | true =>
      have hall : draining = true → r.cancelling = false → r.pausing = false →
          ∀ chunk ∈ r.plan.chunks, chunk.state = .DONE := by
        simpa [Run.Careful, hphase] using hcareful
      exact hall hdraining hcancelling hpausing chunk hchunk
  obtain ⟨inode, hinode, hheld⟩ := h.done chunk hchunk hdone
  rw [hinode handle hhandle]
  exact hheld

theorem Run.Backed.placed_of_moved (h : r.Backed c s) (hphase : r.phase = .moving) {inode : ℕ}
    {file : SparseFile UInt8} (hwork : s.work = some inode) (hfile : s.inodes[inode]? = some file) :
    Holds c file 0 c.length := by
  have hstage : r.phase.stage = .moving := by rw [hphase]; rfl
  obtain ⟨handle, hhandle⟩ := Option.ne_none_iff_exists'.mp (h.opened (by rw [hstage]; rfl))
  obtain rfl := (h.inode handle hhandle).2 (by rw [Run.Live, hphase]; simp) inode hwork
  obtain ⟨file', hfile', hholds⟩ := h.whole (by rw [hstage]; rfl) handle hhandle
  obtain rfl := Option.some.inj (hfile.symm.trans hfile')
  exact hholds

/-- **Main thread, beside the store**: it takes nothing from a file, and a move places the whole. -/
theorem Run.Step.backed (hstep : Run.Step hash s r act s' r' effect) (h : r.Backed c s)
    (hs : s.Backed c) (hcareful : act = .next → r.Careful c s draining) :
    s.Grows c s' ∧ (s.Placed c → s'.Placed c) ∧ s'.Backed c := by
  have hsave : ∀ {row : Row}, (row.state = .DONE → row.bytesTotal = c.length ∧ s.Placed c) →
      s.Grows c { s with row := row } ∧ (s.Placed c → Store.Placed c { s with row := row }) ∧
        Store.Backed c { s with row := row } := fun hrow =>
    ⟨Store.grows_of_inodes rfl, id, hs.save hrow⟩
  cases hstep with
  | @setSave state copy hphase =>
    have hsetting : (RunPhase.setState state (some copy)).setsDone = false := hphase ▸ h.setting
    exact hsave fun hdone => absurd hdone (of_decide_eq_false hsetting)
  | persist | fails | finish => exact hsave h.placed
  | cancelSave | fail => exact hsave nofun
  | cancelRemove => exact ⟨Store.grows_of_inodes rfl, id, hs.remove⟩
  | @insert rest hphase =>
    refine ⟨Store.grows_of_inodes rfl, id, { hs with ranges := ?_, done := ?_ }⟩
    · intro row hrow
      obtain hrow | hrow := List.mem_append.mp hrow
      · exact hs.ranges row hrow
      · obtain ⟨chunk, hchunk, rfl⟩ := List.mem_map.mp hrow
        exact h.inserting rest hphase chunk (List.mem_of_mem_take hchunk)
    · -- A row that is new is not done.
      intro row hrow hdone
      obtain hrow | hrow := List.mem_append.mp hrow
      · exact hs.done row hrow hdone
      · obtain ⟨chunk, _, rfl⟩ := List.mem_map.mp hrow
        cases hdone
  | «open» hphase =>
    obtain ⟨hgrows, hbacked, _⟩ := h.opens hs hphase (hcareful rfl)
    refine ⟨hgrows, ?_, hbacked⟩
    unfold Store.openWorkFile
    split <;> exact id
  | @moved inode file hphase hwork hfile =>
    have hholds := h.placed_of_moved hphase hwork hfile
    exact ⟨Store.grows_of_inodes rfl, fun _ => ⟨file, rfl, hholds⟩,
      { hs.remove with row := fun hdone => ⟨(hs.row hdone).1, file, rfl, hholds⟩ }⟩
  | _ => exact ⟨Store.grows_of_inodes rfl, id, hs⟩

/-- What the loop of a repair leaves of the plan, and the fetch it may begin. -/
theorem Run.assign_cases (r : Run) (rest : List RepairAssignment) :
    (∀ f rest', (r.assign rest).phase = .refetching f rest' → f.stage = .asked) ∧
    ∀ (j : ℕ) (done : PlannedChunk), (r.assign rest).plan.chunks[j]? = some done →
      done.state = .DONE →
      ∃ old, r.plan.chunks[j]? = some old ∧ old.range = done.range ∧ old.state = .DONE := by
  have hmarked : ∀ {i : ℕ} {g : PlannedChunk → PlannedChunk}, (∀ c, (g c).state = .CORRUPT) →
      ∀ (j : ℕ) (done : PlannedChunk), (r.plan.chunks.modify i g)[j]? = some done →
      done.state = .DONE →
      ∃ old, r.plan.chunks[j]? = some old ∧ old.range = done.range ∧ old.state = .DONE := by
    intro i g hg j done hj hdone
    obtain ⟨old, hold, ⟨_, rfl⟩ | ⟨_, rfl⟩⟩ := Engine.getElem?_modify_cases hj
    · rw [hg] at hdone
      cases hdone
    · exact ⟨_, hold, rfl, hdone⟩
  unfold assign
  split
  · exact ⟨nofun, fun j done hj hdone => ⟨done, hj, rfl, hdone⟩⟩
  · split
    · exact ⟨nofun, fun j done hj hdone => ⟨done, hj, rfl, hdone⟩⟩
    · rename_i chunk _
      simp only
      split
      · exact ⟨nofun, hmarked fun _ => rfl⟩
      · refine ⟨by rintro f rest' ⟨⟩; rfl, fun j done hj hdone => ?_⟩
        obtain ⟨mid, hmid, hcase⟩ := Run.getElem?_modifyChunk hj
        obtain ⟨_, rfl⟩ | ⟨_, rfl⟩ := hcase
        · obtain ⟨old, hold, hrange, hstate⟩ := hmarked (fun _ => rfl) j mid hmid hdone
          exact ⟨old, hold, hrange, hstate⟩
        · exact hmarked (fun _ => rfl) j _ hmid hdone

/-- **State**: what follows a change of state is at the same stage. -/
theorem Run.Backed.after (h : r.Backed c s) {state : TransferState} {copy : Option Row}
    (hphase : r.phase = .setState state copy) : (r.after state).Backed c s := by
  have hlive : r.Live := by rw [Run.Live, hphase]; simp
  have hstage : (r.after state).phase.stage = r.phase.stage := by
    rw [hphase, r.stage_after state copy]
  obtain ⟨hinserting, hsetting, hrefetch⟩ := r.after_plain state
  have hnext : Run.Backed c s { r with phase := (r.after state).phase } :=
    h.goes hlive (.inl hstage) (fun rest hp => absurd hp (hinserting rest)) hsetting hrefetch
  by_cases hdown : state = .DOWNLOADING
  · -- Its workers are new, and have nothing in hand.
    subst hdown
    have hopen := hnext.opened rfl
    exact { hnext with
      idle := fun hnone => absurd hnone hopen
      dropped := fun handle hhandle hdropped => by
        obtain hp | hp := (hnext.dropped handle hhandle hdropped).1 <;> cases hp
      workers := fun f hf => by cases List.eq_of_mem_replicate hf
      fetched := by intros; contradiction }
  · rw [r.after_eq hdown]
    exact hnext

/-- **Repair**: a chunk that is assigned is not done any more. -/
theorem Run.Backed.assign (h : r.Backed c s) {rest : List RepairAssignment}
    (hphase : r.phase = .repairing rest) : (r.assign rest).Backed c s := by
  have hstage : r.phase.stage = .fetched := by rw [hphase]; rfl
  obtain ⟨handle, hhandle⟩ := Option.ne_none_iff_exists'.mp (h.opened (by rw [hstage]; rfl))
  obtain ⟨hasked, hdone⟩ := r.assign_cases rest
  have hsame := r.alike_assign rest
  have hworkers : (r.assign rest).workers = r.workers := hsame.workers
  refine h.alike hhandle { hsame with workers := rfl } (.inr (.inr ⟨?_, ?_, ?_⟩))
    (fun _ => by rw [Run.Live, hphase]; simp) ?_ ?_
    fun j done hj hstate => .inl (hdone j done hj hstate)
  · rw [hstage, r.stage_assign]
  · obtain hp | ⟨_, hp⟩ | ⟨_, _, hp⟩ := r.phase_assign rest <;> rw [hp] <;> simp
  · obtain hp | ⟨_, hp⟩ | ⟨_, _, hp⟩ := r.phase_assign rest <;> rw [hp] <;> rfl
  · rw [hworkers]
    exact id
  · rintro f (hf | ⟨rest', hp⟩)
    · rw [hworkers] at hf
      exact h.workers f hf
    · intro _ _ _ _
      rw [hasked f rest' hp]
      trivial

/-- **Stop**: an aborted move is left. -/
theorem Run.Backed.stop (h : r.Backed c s) (hlive : r.Live) (reason : AbortReason) :
    (r.stop reason).1.Backed c s := by
  cases reason with
  | stop => exact h.leaves hlive rfl rfl
  | cancel => exact h.leaves hlive rfl rfl

/-- **Close**: the handle is closed for the move, which may be stopped at once. -/
theorem Run.Backed.placeStops (h : r.Backed c s) (hphase : r.phase = .placing)
    (reason : AbortReason) :
    ({ r with handle := r.handle.map .drop }.stop reason).1.Backed c s := by
  have hreturned := (h.fetched (by rw [hphase]; rfl)).1
  have hstop := h.stop (by rw [Run.Live, hphase]; simp) reason
  have hdrop := hstop.handles (g := Handle.drop) (fun _ => rfl) fun handle _ _ _ => by
    cases reason <;> exact ⟨.inr rfl, hreturned⟩
  cases reason <;> exact hdrop

theorem Run.Backed.place (h : r.Backed c s) (hphase : r.phase = .placing) :
    Run.Backed c s { r with handle := r.handle.map .drop, phase := .moving } := by
  have hfetched := h.fetched (by rw [hphase]; rfl)
  have hmoving : Run.Backed c s { r with phase := .moving } :=
    h.advances (by rw [hphase]; rfl) (by rw [hphase]; decide) (by rw [Run.Live, hphase]; simp) rfl
      rfl (by simp) hfetched fun _ => h.whole (by rw [hphase]; rfl)
  exact hmoving.handles (g := Handle.drop) (fun _ => rfl) fun _ _ _ _ => ⟨.inl rfl, hfetched.1⟩

theorem Run.Backed.close (h : r.Backed c s) (hphase : r.phase = .closing) :
    Run.Backed c s { r with phase := .ended, handle := r.handle.map .close } := by
  have hended : Run.Backed c s { r with phase := .ended } :=
    h.leaves (by rw [Run.Live, hphase]; simp) rfl rfl
  refine hended.handles (g := Handle.close) (fun _ => rfl) fun handle _ hdropped hstate => ?_
  simp only [Handle.close] at hdropped
  split at hdropped
  · cases hdropped
  · exact absurd hdropped hstate

/-- **Main thread** -/
theorem Run.Backed.step (h : r.Backed c s) (hs : s.Backed c) (htends : draining = false → r.Tends)
    (hcareful : act = .next → r.Careful c s draining)
    (hstep : Run.Step hash s r act s' r' effect) : r'.Backed c s' := by
  have hlive := hstep.live.1
  obtain ⟨hgrows, hplaced, _⟩ := hstep.backed h hs hcareful
  have hlater : s'.work = s.work ∨ s'.work = none → r.Backed c s' := fun hwork =>
    h.mono hgrows hplaced fun _ => hwork
  cases hstep with
  -- These end the run or throw: nothing is promised of what the plan says.
  | loadEnded | insertFails | cancelLoad | cancelSave | fails | finish | catchLoad | throws
  | downloadedCancel | downloadedPause | fail => exact (hlater (.inl rfl)).leaves hlive rfl rfl
  | cancelRemove => exact (hlater (.inr rfl)).leaves hlive rfl rfl
  | @stops reason => exact h.stop hlive reason
  -- The row replaces the entity, before there is a handle.
  | load hphase _ hdone =>
    have hentity := h.transfer (t := s.row) (by
      rw [h.early (by rw [hphase]; rfl), hphase]
      simp [RunPhase.stage]) fun hstate => absurd hstate hdone
    exact hentity.goes hlive (.inl (by rw [hphase]; rfl)) (by simp) rfl (by simp)
  | @setLoad state hphase =>
    have hsetting : (RunPhase.setState state none).setsDone = false := hphase ▸ h.setting
    exact h.goes hlive (.inl (by rw [hphase]; rfl)) (by simp) hsetting (by simp)
  | setSave hphase => exact (hlater (.inl rfl)).after hphase
  -- The plan is for the whole content, or `Careful` would not hold.
  | plan hphase =>
    have hsize : totalBytes r.transfer r.sources = c.length := by
      simpa [Run.Careful, hphase] using hcareful rfl
    exact h.plans hs hphase hsize
  | persist hphase =>
    refine (hlater (.inl rfl)).goes hlive (.inl ?_) ?_ ?_ ?_
    · rw [hphase]
      split <;> rfl
    · intro rest hrest chunk hchunk
      split at hrest
      · cases hrest
      · cases hrest
        exact (h.ranges chunk hchunk).1
    · split <;> rfl
    · split <;> simp
  | inserted hphase =>
    exact h.goes hlive (.inl (by rw [hphase]; rfl)) (by simp) rfl (by simp)
  | @insert rest hphase =>
    refine (hlater (.inl rfl)).goes hlive (.inl (by rw [hphase]; rfl)) ?_ rfl (by simp)
    rintro _ ⟨⟩ chunk hchunk
    exact h.inserting rest hphase chunk (List.mem_of_mem_drop hchunk)
  | «open» hphase => exact (h.opens hs hphase (hcareful rfl)).2.2
  | downloaded hphase hreturned hcancelling hpausing =>
    exact h.advances (by rw [hphase]; rfl) (by rw [hphase]; decide) hlive rfl rfl (by simp)
      ⟨hreturned, h.downloaded htends (hcareful rfl) hphase hreturned hcancelling hpausing⟩
      (by intros; contradiction)
  | verified hphase hok =>
    exact h.advances (by rw [hphase]; rfl) (by rw [hphase]; decide) hlive rfl rfl (by simp)
      (h.fetched (by rw [hphase]; rfl)) fun _ => h.verified hphase (hcareful rfl) hok
  | repair hphase =>
    have hnext := h.goes (p := .setState .REPAIRING none) hlive (.inl (by rw [hphase]; rfl)) (by simp)
      rfl (by simp)
    exact { hnext with ranges := hnext.ranges }
  | giveUp hphase =>
    have hentity := h.transfer
      (t := { r.transfer with state := .FAILED, errorKind := some .CHECKSUM_MISMATCH })
      (fun _ => rfl) (by simp)
    exact hentity.leaves hlive rfl rfl
  | noSource hphase =>
    have hentity := h.transfer
      (t := { r.transfer with state := .FAILED, errorKind := some .SOURCE_GONE })
      (fun _ => rfl) (by simp)
    exact hentity.leaves hlive rfl rfl
  | prepared hphase =>
    have hnext := h.goes (p := .planning) hlive (.inl (by rw [hphase]; rfl)) (by simp) rfl (by simp)
    exact { hnext with ranges := hnext.ranges }
  | assign hphase => exact h.assign hphase
  | @placeStops reason hphase => exact h.placeStops hphase reason
  | place hphase => exact h.place hphase
  | close hphase => exact h.close hphase
  -- The file that was verified is the one that is placed.
  | @moved inode file hphase hwork hfile =>
    have hsize := (h.size (.inr (h.opened (by rw [hphase]; rfl)))).2
    have hentity := (hlater (.inr rfl)).transfer
      (t := { r.transfer with state := .DONE, errorKind := none }) (fun _ => rfl)
      fun _ => ⟨hsize, file, rfl, h.placed_of_moved hphase hwork hfile⟩
    exact hentity.leaves hlive rfl rfl

end

end MediaCenterSync.TransferEngine
