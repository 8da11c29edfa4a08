import MediaCenterSync.TransferEngine.Correct.WorkFile

/-!
# What a run has

A run is carried from stage to stage by its main thread (`RunStage`): it plans, opens the working
file, fetches every chunk, finds the file whole and moves it.  `Run.Backed` says what the store has
of the file `c` at each stage.  A working file never loses what it holds (`Store.Grows`), so a run
keeps what it has while others write (`Run.Backed.mono`).  Its own workers fetch chunks, and record
what they wrote (`Run.Backed.work`, `Run.Backed.refetches`).
-/

namespace MediaCenterSync.TransferEngine

open SparseFile (Holds)

/-! ### Stages -/

/-- How far a run has got with its working file. -/
inductive RunStage where
  | unplanned
  | planned
  | opened
  | fetched
  /-- The file was found whole. -/
  | whole
  | moving
  /-- On the way out, whatever it has got to. -/
  | leaving
deriving DecidableEq, Repr

def TransferState.stage : TransferState → RunStage
  | .CONNECTING => .unplanned
  | .DOWNLOADING => .opened
  | .VERIFYING | .REPAIRING => .fetched
  | .PLACING => .whole
  | _ => .leaving

def RunPhase.stage : RunPhase → RunStage
  | .load | .preparing | .planning => .unplanned
  | .persisting | .inserting _ | .opening => .planned
  | .downloading => .opened
  | .verifying | .repairing _ | .refetching _ _ => .fetched
  | .placing => .whole
  | .moving => .moving
  | .setState state _ => state.stage
  | .cancelling _ _ | .failing | .finishing | .catching _ | .closing | .ended => .leaving

/-- A change to the state of a transfer that is done, which no run makes. -/
def RunPhase.setsDone : RunPhase → Bool
  | .setState state _ => state = .DONE
  | _ => false

/-- Before the working file is opened. -/
def RunStage.early : RunStage → Bool
  | .unplanned | .planned => true
  | _ => false

/-- From there to the end of the move. -/
def RunStage.opens : RunStage → Bool
  | .opened | .fetched | .whole | .moving => true
  | _ => false

/-- From the end of the download to the end of the move. -/
def RunStage.late : RunStage → Bool
  | .fetched | .whole | .moving => true
  | _ => false

/-- The file was found whole, and is not moved yet. -/
def RunStage.checked : RunStage → Bool
  | .whole | .moving => true
  | _ => false

theorem Run.stage_after (r : Run) (state : TransferState) (copy : Option Row) :
    (r.after state).phase.stage = (RunPhase.setState state copy).stage := by
  cases state <;> rfl

theorem Run.after_plain (r : Run) (state : TransferState) :
    (∀ rest, (r.after state).phase ≠ .inserting rest) ∧
      (r.after state).phase.setsDone = false ∧
        ∀ f rest, (r.after state).phase ≠ .refetching f rest := by
  cases state <;> exact ⟨nofun, rfl, nofun⟩

theorem Run.after_eq (r : Run) {state : TransferState} (h : state ≠ .DOWNLOADING) :
    r.after state = { r with phase := (r.after state).phase } := by
  cases state <;> first | rfl | exact absurd rfl h

theorem Run.stage_assign (r : Run) (rest : List RepairAssignment) :
    (r.assign rest).phase.stage = .fetched := by
  obtain h | ⟨_, h⟩ | ⟨_, _, h⟩ := r.phase_assign rest <;> rw [h] <;> rfl

/-! ### The invariant -/

/-- What a fetch has got to is in the file the run has open. -/
def Run.Fetches (c : List UInt8) (s : Store) (r : Run) (f : Fetch) : Prop :=
  ∀ handle ∈ r.handle, ∀ chunk ∈ r.plan.chunks[f.chunk]?,
    f.stage.Sound c s handle.inode chunk.start chunk.last

/-- The file at the target path is `c`. -/
def Store.Placed (c : List UInt8) (s : Store) : Prop :=
  ∃ file, s.placed = some file ∧ Holds c file 0 c.length

structure Run.Backed (c : List UInt8) (s : Store) (r : Run) : Prop where
  ranges : ∀ chunk ∈ r.plan.chunks,
    chunk.last < c.length ∧ chunk.last + 1 ≤ chunk.start + chunk.size
  inserting : ∀ rest, r.phase = .inserting rest → ∀ chunk ∈ rest, chunk.last < c.length
  setting : r.phase.setsDone = false
  early : r.phase.stage.early = true → r.handle = none
  idle : r.handle = none → r.workers = []
  opened : r.phase.stage.opens = true → r.handle ≠ none
  size : r.phase.stage = .planned ∨ r.handle ≠ none →
    r.plan.bytesTotal = c.length ∧ r.transfer.bytesTotal = c.length
  /-- The file it has open is the working file, as long as there is one. -/
  inode : ∀ handle ∈ r.handle, handle.inode < s.inodes.length ∧
    (r.Live → ∀ inode ∈ s.work, inode = handle.inode)
  /-- Nobody writes once it is closed for the move. -/
  dropped : ∀ handle ∈ r.handle, handle.state = .dropped →
    (r.phase.stage = .moving ∨ r.phase.stage = .leaving) ∧ ∀ worker ∈ r.workers, worker = .returned
  unopened : r.Live → r.handle = none → ∀ chunk ∈ r.plan.chunks, chunk.state = .DONE →
    ∀ inode ∈ s.work, s.Held c inode chunk.start (chunk.last + 1)
  done : ∀ chunk ∈ r.plan.chunks, chunk.state = .DONE →
    ∃ inode, (∀ handle ∈ r.handle, handle.inode = inode) ∧
      s.Held c inode chunk.start (chunk.last + 1)
  workers : ∀ f, .fetching f ∈ r.workers → r.Fetches c s f
  refetch : ∀ f rest, r.phase = .refetching f rest → r.Fetches c s f
  fetched : r.phase.stage.late = true → (∀ worker ∈ r.workers, worker = .returned) ∧
    ∀ handle ∈ r.handle, ∀ chunk ∈ r.plan.chunks,
      s.Held c handle.inode chunk.start (chunk.last + 1)
  whole : r.phase.stage.checked = true → ∀ handle ∈ r.handle, s.Held c handle.inode 0 c.length
  placed : r.transfer.state = .DONE → r.transfer.bytesTotal = c.length ∧ s.Placed c

section

variable {c : List UInt8} {s s' : Store} {r r' : Run}

theorem Run.backed_boot (settings : Settings) : (Run.boot settings).Backed c s where
  ranges := by simp [Run.boot]
  inserting := nofun
  setting := rfl
  early _ := rfl
  idle _ := rfl
  opened := nofun
  size h := by simp [Run.boot, RunPhase.stage] at h
  inode := nofun
  dropped := nofun
  unopened := by simp [Run.boot]
  done := by simp [Run.boot]
  workers := by simp [Run.boot]
  refetch := nofun
  fetched := nofun
  whole := nofun
  placed := nofun

/-- **Frame**: what is backed stays so while no file loses anything, and the working file is not
taken from under a run. -/
theorem Run.Backed.mono (h : r.Backed c s) (hgrows : s.Grows c s')
    (hplaced : s.Placed c → s'.Placed c)
    (hwork : r.Live → s'.work = s.work ∨ s'.work = none) : r.Backed c s' := by
  have hmem : r.Live → ∀ inode ∈ s'.work, inode ∈ s.work := fun hlive inode hinode => by
    obtain hsame | hnone := hwork hlive
    · rwa [← hsame]
    · rw [hnone] at hinode
      cases hinode
  exact {
    h with
    inode := fun handle hhandle => by
      obtain ⟨hlt, hown⟩ := h.inode handle hhandle
      obtain ⟨_, hfile, _⟩ := hgrows _ _ (List.getElem?_eq_getElem hlt)
      exact ⟨(List.getElem?_eq_some_iff.mp hfile).1,
        fun hlive inode hinode => hown hlive inode (hmem hlive inode hinode)⟩
    unopened := fun hlive hnone chunk hchunk hdone inode hinode =>
      (h.unopened hlive hnone chunk hchunk hdone inode (hmem hlive inode hinode)).mono hgrows
    done := fun chunk hchunk hdone => by
      obtain ⟨inode, hinode, hheld⟩ := h.done chunk hchunk hdone
      exact ⟨inode, hinode, hheld.mono hgrows⟩
    workers := fun f hf handle hhandle chunk hchunk =>
      (h.workers f hf handle hhandle chunk hchunk).mono hgrows
    refetch := fun f rest hphase handle hhandle chunk hchunk =>
      (h.refetch f rest hphase handle hhandle chunk hchunk).mono hgrows
    fetched := fun hlate => ⟨(h.fetched hlate).1, fun handle hhandle chunk hchunk =>
      ((h.fetched hlate).2 handle hhandle chunk hchunk).mono hgrows⟩
    whole := fun hchecked handle hhandle => (h.whole hchecked handle hhandle).mono hgrows
    placed := fun hdone => ⟨(h.placed hdone).1, hplaced (h.placed hdone).2⟩ }

/-- **Main thread**: it goes on within a stage, or leaves. -/
theorem Run.Backed.goes (h : r.Backed c s) (hlive : r.Live) {p : RunPhase}
    (hstage : p.stage = r.phase.stage ∨ p.stage = .leaving)
    (hinserting : ∀ rest, p = .inserting rest → ∀ chunk ∈ rest, chunk.last < c.length)
    (hsetting : p.setsDone = false) (hrefetch : ∀ f rest, p ≠ .refetching f rest) :
    Run.Backed c s { r with phase := p } := by
  -- Whatever a stage asks for was there, as leaving asks for nothing.
  have hof : ∀ {q : RunStage → Bool}, q .leaving = false → q p.stage = true →
      q r.phase.stage = true := fun hleaving hq => by
    obtain hsame | hout := hstage
    · rwa [← hsame]
    · rw [hout, hleaving] at hq
      cases hq
  exact {
    h with
    inserting := hinserting
    setting := hsetting
    early := fun hearly => h.early (hof rfl hearly)
    opened := fun hopens => h.opened (hof rfl hopens)
    size := fun hsize => by
      refine h.size (hsize.imp_left fun hplanned => ?_)
      obtain hsame | hout := hstage
      · exact hsame.symm.trans hplanned
      · cases hout.symm.trans hplanned
    inode := fun handle hhandle => ⟨(h.inode handle hhandle).1, fun _ =>
      (h.inode handle hhandle).2 hlive⟩
    dropped := fun handle hhandle hdropped => by
      obtain ⟨hphase, hreturned⟩ := h.dropped handle hhandle hdropped
      exact ⟨hstage.elim (fun hsame => by rwa [hsame]) .inr, hreturned⟩
    unopened := fun _ => h.unopened hlive
    refetch := fun f rest hphase => absurd hphase (hrefetch f rest)
    fetched := fun hlate => h.fetched (hof rfl hlate)
    whole := fun hchecked => h.whole (hof rfl hchecked) }

theorem Run.Backed.leaves (h : r.Backed c s) (hlive : r.Live) {p : RunPhase}
    (hstage : p.stage = .leaving) (hsetting : p.setsDone = false) :
    Run.Backed c s { r with phase := p } := by
  refine h.goes hlive (.inr hstage) ?_ hsetting ?_
  · rintro rest rfl
    cases hstage
  · rintro f rest rfl
    cases hstage

/-! ### Workers -/

theorem Run.Alike.chunk (h : r.Alike r') {j : ℕ} {chunk' : PlannedChunk}
    (hj : r'.plan.chunks[j]? = some chunk') :
    ∃ chunk, r.plan.chunks[j]? = some chunk ∧ chunk.range = chunk'.range := by
  have hranges := congrArg (·[j]?) h.ranges
  simp only [List.getElem?_map, hj, Option.map_some] at hranges
  exact Option.map_eq_some_iff.mp hranges.symm

/-- **Workers**: a run with its file open goes on, and every chunk that is done is held. -/
theorem Run.Backed.alike (h : r.Backed c s) {handle : Handle} (hhandle : r.handle = some handle)
    (hsame : r.Alike { r' with phase := r.phase, workers := r.workers })
    (hphase : r'.phase = r.phase ∨ r'.phase = .catching none ∨ r'.phase.stage = r.phase.stage ∧
      (∀ rest, r'.phase ≠ .inserting rest) ∧ r'.phase.setsDone = false)
    (hlive : r'.Live → r.Live)
    (hworkers : (∀ worker ∈ r.workers, worker = .returned) →
      ∀ worker ∈ r'.workers, worker = .returned)
    (hfetches : ∀ f, (.fetching f ∈ r'.workers ∨ ∃ rest, r'.phase = .refetching f rest) →
      r.Fetches c s f)
    (hdone : ∀ (j : ℕ) (done : PlannedChunk), r'.plan.chunks[j]? = some done →
      done.state = .DONE →
      (∃ old, r.plan.chunks[j]? = some old ∧ old.range = done.range ∧ old.state = .DONE) ∨
        s.Held c handle.inode done.start (done.last + 1)) : r'.Backed c s := by
  -- The stage is the old one, or the run is on its way out.
  have hstage : r'.phase.stage = r.phase.stage ∨ r'.phase.stage = .leaving := by
    obtain hp | hp | ⟨hp, _⟩ := hphase
    · exact .inl (congrArg _ hp)
    · exact .inr (congrArg _ hp)
    · exact .inl hp
  have hof : ∀ {p : RunStage → Bool}, p .leaving = false → p r'.phase.stage = true →
      p r.phase.stage = true := fun hleaving hp => by
    obtain hsame | hout := hstage
    · rwa [← hsame]
    · rw [hout, hleaving] at hp
      cases hp
  have hhandle' : r'.handle = some handle := hsame.handle.trans hhandle
  -- There is one handle, before and after.
  have hone : ∀ {other : Handle}, other ∈ r'.handle → other = handle := fun hmem =>
    (Option.some.inj (hhandle'.symm.trans hmem)).symm
  have hchunk : ∀ {chunk' : PlannedChunk}, chunk' ∈ r'.plan.chunks →
      ∃ chunk ∈ r.plan.chunks, chunk.range = chunk'.range := fun hmem => by
    obtain ⟨j, hj⟩ := List.mem_iff_getElem?.mp hmem
    obtain ⟨chunk, hchunk, hrange⟩ := hsame.chunk hj
    exact ⟨chunk, List.mem_of_getElem? hchunk, hrange⟩
  have hfetch : ∀ f, r.Fetches c s f → r'.Fetches c s f := by
    intro f hf other hmem chunk' hj
    obtain ⟨chunk, hchunk, hrange⟩ := hsame.chunk hj
    simp only [PlannedChunk.range, Prod.mk.injEq] at hrange
    rw [hone hmem, ← hrange.1, ← hrange.2.1]
    exact hf handle hhandle chunk hchunk
  exact {
    ranges := fun chunk' hmem => by
      obtain ⟨chunk, hmem, hrange⟩ := hchunk hmem
      simp only [PlannedChunk.range, Prod.mk.injEq] at hrange
      rw [← hrange.1, ← hrange.2.1, ← hrange.2.2]
      exact h.ranges chunk hmem
    inserting := fun rest hp => by
      obtain hsame | hcatching | ⟨_, hne, _⟩ := hphase
      · exact h.inserting rest (hsame.symm.trans hp)
      · cases hcatching.symm.trans hp
      · exact absurd hp (hne rest)
    setting := by
      obtain hsame | hcatching | ⟨_, _, hplain⟩ := hphase
      · rw [hsame]
        exact h.setting
      · rw [hcatching]
        rfl
      · exact hplain
    early := fun hearly => by
      rw [h.early (hof rfl hearly)] at hhandle
      cases hhandle
    idle := fun hnone => by
      rw [hnone] at hhandle'
      cases hhandle'
    opened := fun _ => by rw [hhandle']; simp
    size := fun _ => by
      obtain ⟨htotal, hbytes⟩ := h.size (.inr (by rw [hhandle]; simp))
      exact ⟨hsame.bytesTotal.trans htotal, by
        rw [show r'.transfer = r.transfer from hsame.transfer]; exact hbytes⟩
    inode := fun other hmem => by
      rw [hone hmem]
      obtain ⟨hlt, hown⟩ := h.inode handle hhandle
      exact ⟨hlt, fun hl => hown (hlive hl)⟩
    dropped := fun other hmem hdropped => by
      rw [hone hmem] at hdropped
      obtain ⟨hp, hreturned⟩ := h.dropped handle hhandle hdropped
      exact ⟨hstage.elim (fun hsame => by rwa [hsame]) .inr, hworkers hreturned⟩
    unopened := fun _ hnone => by
      rw [hnone] at hhandle'
      cases hhandle'
    -- A chunk that is done now was done before, or holds its bytes.
    done := fun chunk' hmem hstate => by
      refine ⟨handle.inode, fun other hother => by rw [hone hother], ?_⟩
      obtain ⟨j, hj⟩ := List.mem_iff_getElem?.mp hmem
      obtain ⟨old, hold, hrange, hstate'⟩ | hheld := hdone j chunk' hj hstate
      · obtain ⟨inode, hinode, hheld⟩ := h.done old (List.mem_of_getElem? hold) hstate'
        simp only [PlannedChunk.range, Prod.mk.injEq] at hrange
        rw [hinode handle hhandle, ← hrange.1, ← hrange.2.1]
        exact hheld
      · exact hheld
    workers := fun f hf => hfetch f (hfetches f (.inl hf))
    refetch := fun f rest hp => hfetch f (hfetches f (.inr ⟨rest, hp⟩))
    fetched := fun hlate => by
      obtain ⟨hreturned, hheld⟩ := h.fetched (hof rfl hlate)
      refine ⟨hworkers hreturned, fun other hmem chunk' hmem' => ?_⟩
      obtain ⟨chunk, hchunk, hrange⟩ := hchunk hmem'
      simp only [PlannedChunk.range, Prod.mk.injEq] at hrange
      rw [hone hmem, ← hrange.1, ← hrange.2.1]
      exact hheld handle hhandle chunk hchunk
    whole := fun hchecked other hmem => by
      rw [hone hmem]
      exact h.whole (hof rfl hchecked) handle hhandle
    placed := fun hstate => by
      rw [show r'.transfer = r.transfer from hsame.transfer] at hstate ⊢
      exact h.placed hstate }

theorem Run.turn_cases (r : Run) (draining : Bool) (w : ℕ) :
    (∀ f, .fetching f ∈ (r.turn draining w).workers →
      .fetching f ∈ r.workers ∨ f.stage = .asked) ∧
    ∀ (j : ℕ) (done : PlannedChunk), (r.turn draining w).plan.chunks[j]? = some done →
      done.state = .DONE →
      ∃ old, r.plan.chunks[j]? = some old ∧ old.range = done.range ∧ old.state = .DONE := by
  have hset : ∀ {worker : Worker}, (∀ f, worker ≠ .fetching f) → ∀ f,
      .fetching f ∈ r.workers.set w worker → .fetching f ∈ r.workers ∨ f.stage = .asked := by
    intro worker hne f hf
    obtain hf | hf := List.mem_or_eq_of_mem_set hf
    · exact .inl hf
    · exact absurd hf.symm (hne f)
  have hkeep : ∀ (j : ℕ) (done : PlannedChunk), r.plan.chunks[j]? = some done →
      done.state = .DONE →
      ∃ old, r.plan.chunks[j]? = some old ∧ old.range = done.range ∧ old.state = .DONE :=
    fun j done hj hdone => ⟨done, hj, rfl, hdone⟩
  unfold turn
  split
  · exact ⟨hset nofun, hkeep⟩
  · split
    · exact ⟨hset nofun, hkeep⟩
    · split
      · split
        · simp only
          split <;> exact ⟨hset nofun, hkeep⟩
        · exact ⟨fun f hf => .inl hf, hkeep⟩
      · -- The chunk it takes is not done.
        refine ⟨fun f hf => ?_, fun j done hj hdone => ?_⟩
        · obtain hf | hf := List.mem_or_eq_of_mem_set hf
          · exact .inl hf
          · cases hf
            exact .inr rfl
        · obtain ⟨mid, hmid, hcase⟩ := Run.getElem?_modifyChunk hj
          obtain ⟨old, hold, hcase'⟩ := Run.getElem?_modifyChunk hmid
          obtain ⟨hji, rfl⟩ | ⟨hji, rfl⟩ := hcase
          · obtain ⟨_, rfl⟩ | ⟨hne, _⟩ := hcase'
            · cases hdone
            · exact absurd hji hne
          · obtain ⟨heq, _⟩ | ⟨_, rfl⟩ := hcase'
            · exact absurd heq hji
            · exact ⟨_, hold, rfl, hdone⟩

theorem Run.Backed.handle_of_worker (h : r.Backed c s) {w : ℕ} {worker : Worker}
    (hw : r.workers[w]? = some worker) : ∃ handle, r.handle = some handle := by
  cases hhandle : r.handle with
  | none => simp [h.idle hhandle] at hw
  | some handle => exact ⟨handle, rfl⟩

/-- **Turn** -/
theorem Run.Backed.turn (h : r.Backed c s) {w : ℕ} (hw : r.workers[w]? = some .looping)
    (draining : Bool) : (r.turn draining w).Backed c s := by
  obtain ⟨handle, hhandle⟩ := h.handle_of_worker hw
  obtain ⟨hworkers, hdone⟩ := r.turn_cases draining w
  have hphase := r.phase_turn draining w
  refine h.alike hhandle (r.alike_turn draining w) ?_ (Run.live_iff_of_phase hphase).mp ?_ ?_
    fun j done hj hstate => .inl (hdone j done hj hstate)
  · exact hphase.imp_right fun hp => .inl hp.2
  · exact fun hreturned => absurd (hreturned _ (List.mem_of_getElem? hw)) nofun
  · rintro f (hf | ⟨rest, hp⟩)
    · obtain hf | hasked := hworkers f hf
      · exact h.workers f hf
      · intro _ _ _ _
        rw [hasked]
        trivial
    · obtain hsame | ⟨_, hcatching⟩ := hphase
      · exact h.refetch f rest (hsame.symm.trans hp)
      · rw [hcatching] at hp
        cases hp

/-! ### Fetches -/

variable {content : ServiceId → List UInt8} {f : Fetch} {chunk : PlannedChunk}
  {source : RuntimeSource} {a : FetchAct} {result : FetchResult}

/-- **Fetch**, of a worker or of a repair: what it goes on to is sound, and what it leaves done is
held. -/
theorem Run.Backed.fetch (h : r.Backed c s) {handle : Handle} (hhandle : r.handle = some handle)
    (hf : r.Fetches c s f) (hc : content source.serviceId = c)
    (hchunk : r.plan.chunks[f.chunk]? = some chunk) (hopen : handle.state ≠ .dropped)
    (hlands : f.Lands s r a) (hs : Fetch.Step content s r f chunk source a s' r' result) :
    (∀ stage, result = .goes stage → r.Fetches c s' { f with stage := stage }) ∧
    ∀ (j : ℕ) (done : PlannedChunk), r'.plan.chunks[j]? = some done → done.state = .DONE →
      (∃ old, r.plan.chunks[j]? = some old ∧ old.range = done.range ∧ old.state = .DONE) ∨
        s'.Held c handle.inode done.start (done.last + 1) := by
  have htotal := (h.size (.inr (by rw [hhandle]; nofun))).1
  have hranges : ∀ chunk ∈ r.plan.chunks,
      chunk.last < r.plan.bytesTotal ∧ chunk.last + 1 ≤ chunk.start + chunk.size := by
    rw [htotal]
    exact h.ranges
  have hsound := hf handle hhandle chunk hchunk
  refine ⟨fun stage hstage other hother chunk' hchunk' => ?_, fun j done hj hdone => ?_⟩
  · obtain rfl := Option.some.inj (hhandle.symm.trans hother)
    obtain rfl := Option.some.inj (hchunk.symm.trans hchunk')
    refine hs.sound hc hsound hlands.1 (hranges chunk (List.mem_of_getElem? hchunk))
      (h.inode handle hhandle).1 ?_ ⟨handle, hhandle, hopen⟩ hstage
    intro other hother
    rw [Option.some.inj (hhandle.symm.trans hother)]
  · exact (hs.done hsound hlands.1 hchunk hranges hj hdone).imp_right fun hheld =>
      hheld.mono (hs.grows hc)

theorem Run.Backed.fetched_mono (h : r.Backed c s) (hc : content source.serviceId = c)
    (hs : Fetch.Step content s r f chunk source a s' r' result) : r.Backed c s' := by
  obtain ⟨_, hwork, hplaced⟩ := hs.store
  exact h.mono (hs.grows hc) (fun ⟨file, hfile, hholds⟩ => ⟨file, hplaced.trans hfile, hholds⟩)
    fun _ => .inl hwork

/-- **Worker** -/
theorem Run.Backed.work (h : r.Backed c s) {w : ℕ} (hw : r.workers[w]? = some (.fetching f))
    (hc : content source.serviceId = c) (hchunk : r.plan.chunks[f.chunk]? = some chunk)
    (hlands : f.Lands s r a) (hs : Fetch.Step content s r f chunk source a s' r' result) :
    (r'.settleWork w f result).Backed c s' := by
  obtain ⟨handle, hhandle⟩ := h.handle_of_worker hw
  have hmem := List.mem_of_getElem? hw
  have hbusy : ¬ ∀ worker ∈ r.workers, worker = .returned := fun hreturned =>
    absurd (hreturned _ hmem) nofun
  have hopen : handle.state ≠ .dropped := fun hdropped =>
    hbusy (h.dropped handle hhandle hdropped).2
  obtain ⟨hgoes, hdone⟩ := h.fetch hhandle (h.workers f hmem) hc hchunk hopen hlands hs
  have hlater := h.fetched_mono hc hs
  have hsame := hs.alike
  have hphase := r'.phase_settleWork w f result
  rw [hsame.phase] at hphase
  have hsettled := r'.alike_settleWork w f result
  refine hlater.alike hhandle ?_ (hphase.imp_right fun hp => .inl hp.2)
    (Run.live_iff_of_phase hphase).mp (absurd · hbusy) ?_ ?_
  · exact ⟨rfl, rfl, hsettled.transfer.trans hsame.transfer, hsettled.handle.trans hsame.handle,
      hsettled.aborted.trans hsame.aborted, hsettled.pausing.trans hsame.pausing,
      hsettled.cancelling.trans hsame.cancelling, hsettled.cancelKind.trans hsame.cancelKind,
      hsettled.bytesTotal.trans hsame.bytesTotal, hsettled.ranges.trans hsame.ranges,
      hsettled.capabilities.trans hsame.capabilities⟩
  · rintro g (hg | ⟨rest, hp⟩)
    · -- It is another worker's, or what this one goes on to.
      have hcases : .fetching g ∈ r.workers ∨ ∃ stage, result = .goes stage ∧
          g = { f with stage := stage } := by
        rw [← hsame.workers]
        cases result with
        | goes stage =>
          obtain hg | hg := List.mem_or_eq_of_mem_set hg
          · exact .inl hg
          · exact .inr ⟨stage, rfl, Worker.fetching.inj hg⟩
        | returned =>
          obtain hg | hg := List.mem_or_eq_of_mem_set hg
          · exact .inl hg
          · cases hg
        | threw =>
          have hg : .fetching g ∈ r'.workers.set w .failed := by
            simp only [Run.settleWork] at hg
            split at hg <;> exact hg
          obtain hg | hg := List.mem_or_eq_of_mem_set hg
          · exact .inl hg
          · cases hg
      obtain hg | ⟨stage, hstage, rfl⟩ := hcases
      · exact hlater.workers g hg
      · exact hgoes stage hstage
    · obtain hsame | ⟨_, hcatching⟩ := hphase
      · exact hlater.refetch g rest (hsame.symm.trans hp)
      · rw [hcatching] at hp
        cases hp
  · intro j done hj hstate
    refine hdone j done ?_ hstate
    cases result with
    | goes | returned => exact hj
    | threw =>
      simp only [Run.settleWork] at hj
      split at hj <;> exact hj

/-- **Repair** -/
theorem Run.Backed.refetches (h : r.Backed c s) {rest : List RepairAssignment}
    (hphase : r.phase = .refetching f rest) (hc : content source.serviceId = c)
    (hchunk : r.plan.chunks[f.chunk]? = some chunk) (hlands : f.Lands s r a)
    (hs : Fetch.Step content s r f chunk source a s' r' result) :
    (r'.settleRefetch f rest result).Backed c s' := by
  have hstage : r.phase.stage = .fetched := by rw [hphase]; rfl
  obtain ⟨handle, hhandle⟩ := Option.ne_none_iff_exists'.mp (h.opened (by rw [hstage]; rfl))
  have hopen : handle.state ≠ .dropped := fun hdropped => by
    obtain hmoving | hleaving := (h.dropped handle hhandle hdropped).1
    · rw [hstage] at hmoving
      cases hmoving
    · rw [hstage] at hleaving
      cases hleaving
  obtain ⟨hgoes, hdone⟩ := h.fetch hhandle (h.refetch f rest hphase) hc hchunk hopen hlands hs
  have hlater := h.fetched_mono hc hs
  have hreturned : ∀ worker ∈ r.workers, worker = .returned :=
    (h.fetched (by rw [hstage]; rfl)).1
  have hsame := hs.alike
  have hworkers : (r'.settleRefetch f rest result).workers = r.workers := by
    rw [← hsame.workers]
    cases result <;> rfl
  refine hlater.alike hhandle ?_ ?_ (fun _ => by rw [Run.Live, hphase]; simp) ?_ ?_ ?_
  · cases result <;> exact { hsame with phase := rfl, workers := rfl }
  · cases result with
    | goes | returned => exact .inr (.inr ⟨hstage.symm, (by rintro _ ⟨⟩), rfl⟩)
    | threw => exact .inr (.inl rfl)
  · rw [hworkers]
    exact id
  · rintro g (hg | ⟨rest', hp⟩)
    · rw [hworkers] at hg
      exact absurd (hreturned _ hg) (by simp)
    · cases result with
      | goes stage =>
        cases hp
        exact hgoes stage rfl
      | returned | threw => cases hp
  · intro j done hj hstate
    refine hdone j done ?_ hstate
    cases result <;> exact hj

end

end MediaCenterSync.TransferEngine
