import MediaCenterSync.TransferEngine.Correct.Sizes

/-!
# Pausing is free

A chunk that waits has the attempts it had when the process started, a source has none of its
failures, and the transfer does not fail, in every run in which nothing goes wrong but that fetches
are stopped (`OnlyStops`), as long as none is stopped before its range is there (`Uncut`).  A fetch
that is stopped before ends like one that failed, so five pauses fail a transfer
(`not_pausingIsFree_fivePauses`).
-/

namespace MediaCenterSync.TransferEngine

/-! ### What is asked of the engine -/

/-- A chunk has failed no more often than the rows say. -/
def Spent (rows : List ExistingChunk) (index attempts : ℕ) : Prop :=
  attempts = 0 ∨ ∃ row ∈ rows, row.index = index ∧ row.attempts = attempts

/-- The budgets of a store are those of the rows. -/
structure Store.Keeps (rows : List ExistingChunk) (s : Store) : Prop where
  row : s.row.state ≠ .FAILED
  chunks : ∀ row ∈ s.chunkRows, row.state ≠ .DONE → Spent rows row.index row.attempts

/-- The budgets of a run are those of the rows, and its sources are as good as new. -/
structure Run.Keeps (rows : List ExistingChunk) (r : Run) : Prop where
  chunks : ∀ chunk ∈ r.plan.chunks, chunk.state = .PENDING → Spent rows chunk.index chunk.attempts
  sources : ∀ source ∈ r.sources, source.failures = 0 ∧ source.healthy = true

/-- **Pausing is free.** -/
structure Engine.PausingIsFree (rows : List ExistingChunk) (e : Engine) : Prop where
  store : e.store.Keeps rows
  runs : ∀ r ∈ e.runs, r.Keeps rows

/-! ### What may happen -/

section

variable (r : Run) (chunk : PlannedChunk) (f : Fetch)

/-- A fetch fails: something went wrong, or its range came short. -/
def Fetch.CutShort : FetchAct → Prop
  | .answer wholeFile => wholeFile = true ∧ chunk.start ≠ 0
  | .piece _ =>
    match f.stage with
    | .streaming false position =>
      (r.cancelling = true ∨ r.pausing = true) ∧ position - chunk.start < chunk.size
    | _ => False
  | .write _ =>
    match f.stage with
    | .paying wholeFile position length =>
      if min length (r.fetchEnd chunk wholeFile - position) = 0 then
        wholeFile = false ∧ position - chunk.start < chunk.size
      else r.handle.map (·.state) = some .closed
    | _ => False
  | .ended =>
    match f.stage with
    | .streaming false position => position - chunk.start < chunk.size
    | _ => False
  | .error => True
  | .save => False

instance (a : FetchAct) : Decidable (f.CutShort r chunk a) := by
  dsimp only [Fetch.CutShort]
  exact match a with
    | .answer _ | .error | .save => inferInstance
    | .piece _ | .ended =>
      match f.stage with
      | .streaming false _ => inferInstance
      | .streaming true _ | .asked | .paying .. | .saving .. => .isFalse id
    | .write _ =>
      match f.stage with
      | .paying .. => inferInstance
      | .asked | .streaming .. | .saving .. => .isFalse id

theorem Fetch.Fails.cutShort {a : FetchAct} (h : f.Fails r chunk a) : f.CutShort r chunk a := by
  rcases h with hbreaks | ⟨position, hconcludes, hshort⟩
  · cases a with
    | answer => exact hbreaks.2
    | write =>
      obtain ⟨wholeFile, position, length, hstage, hroom, inode, hclosed⟩ := hbreaks
      simp [Fetch.CutShort, hstage, hroom, hclosed]
    | error => exact trivial
    | piece | ended | save => exact hbreaks.elim
  · cases a with
    | ended =>
      have hstage : f.stage = _ := hconcludes
      simpa only [Fetch.CutShort, hstage] using hshort
    | piece =>
      obtain ⟨hstage, hstopped⟩ := hconcludes
      simpa only [Fetch.CutShort, hstage] using ⟨hstopped, hshort⟩
    | write =>
      obtain ⟨length, hstage, hfull⟩ := hconcludes
      simpa only [Fetch.CutShort, hstage, hfull, if_true] using And.intro trivial hshort
    | answer | error | save => exact hconcludes.elim

end

def Run.stopped (r : Run) : Bool := r.pausing || r.cancelling || r.aborted.isSome

/-- Sources answer, what was fetched is the file, and nothing throws. -/
def Run.Succeeds (hash : List UInt8 → String) (s : Store) (r : Run) : RunAct → Prop
  | .next =>
    r.phase = .verifying →
      (verify hash s.workFile (r.plan.chunks.map (·.verifiable)) (some r.plan.bytesTotal) none).ok =
        true
  | .prepared sources => sources ≠ []
  | .throws => False
  | _ => True

def Call.FindsWhole (hash : List UInt8 → String) (s : Store) : Call → Prop
  | .repair (.verify copy rows) =>
    (verify hash (s.fileOf copy) (rows.map (·.verifiable)) (some copy.bytesTotal) none).ok = true
  | _ => True

def Run.InsertsNew (s : Store) (r : Run) : Prop :=
  match r.phase with
  | .inserting rest =>
    ∀ c ∈ rest.take INSERT_BATCH, ∀ row ∈ s.chunkRows, row.index ≠ c.index
  | _ => True

instance (hash : List UInt8 → String) (s : Store) (r : Run) (a : RunAct) :
    Decidable (r.Succeeds hash s a) := by
  unfold Run.Succeeds
  split <;> infer_instance

instance (hash : List UInt8 → String) (s : Store) (call : Call) :
    Decidable (call.FindsWhole hash s) := by
  unfold Call.FindsWhole
  split <;> infer_instance

instance (s : Store) (r : Run) : Decidable (r.InsertsNew s) := by
  unfold Run.InsertsNew
  split <;> infer_instance

namespace Engine

/-- **Nothing goes wrong but that fetches are stopped**: a source delivers what it is asked for
unless the run was asked to stop. -/
def OnlyStops (hash : List UInt8 → String) (e : Engine) : Act → Prop
  | .run k a => ∀ r ∈ e.runs[k]?, r.Succeeds hash e.store a
  | .work k w (some a) => ∀ r ∈ e.runs[k]?, ∀ f ∈ (r.workers[w]?).bind Worker.fetch,
      ∀ chunk ∈ r.plan.chunks[f.chunk]?, f.CutShort r chunk a → r.stopped = true
  | .call i => ∀ call ∈ e.calls[i]?, call.FindsWhole hash e.store
  | _ => True

instance (hash : List UInt8 → String) (e : Engine) (a : Act) : Decidable (OnlyStops hash e a) :=
  match a with
  | .run .. | .work _ _ (some _) | .call _ => by dsimp only [OnlyStops]; infer_instance
  | .work _ _ none | .issue _ | .settings .. | .start _ | .refetch .. | .flush _ | .drain
  | .restart _ => .isTrue trivial

/-- No fetch is stopped before its range is there, and no run inserts the chunks of another. -/
def Uncut (e : Engine) : Act → Prop
  | .run k .next => ∀ r ∈ e.runs[k]?, r.InsertsNew e.store
  | .work k w (some a) => ∀ r ∈ e.runs[k]?, ∀ f ∈ (r.workers[w]?).bind Worker.fetch,
      ∀ chunk ∈ r.plan.chunks[f.chunk]?, ¬ f.CutShort r chunk a
  | _ => True

instance (e : Engine) (a : Act) : Decidable (e.Uncut a) :=
  match a with
  | .run _ .next | .work _ _ (some _) => by dsimp only [Uncut]; infer_instance
  | .run _ (.prepared _) | .run _ .moved | .run _ .stopped | .run _ .throws | .run _ (.fail _)
  | .work _ _ none | .issue _ | .call _ | .settings .. | .start _ | .refetch .. | .flush _ | .drain
  | .restart _ => .isTrue trivial

end Engine

/-! ### The invariant -/

/-- The phases of a run in which nothing goes wrong. -/
def RunPhase.smooth : RunPhase → Bool
  | .setState state _ =>
    state = .CONNECTING ∨ state = .DOWNLOADING ∨ state = .PAUSED ∨ state = .VERIFYING ∨
      state = .PLACING
  | .repairing _ | .refetching _ _ | .failing | .catching _ => false
  | _ => true

/-- The phases in which a run may have no source. -/
def RunPhase.sourceless : RunPhase → Bool
  | .load | .setState .CONNECTING _ | .preparing | .closing | .ended => true
  | _ => false

structure Run.Smooth (rows : List ExistingChunk) (r : Run) : Prop where
  keeps : r.Keeps rows
  transfer : r.transfer.state ≠ .FAILED
  phase : r.phase.smooth = true
  sourced : r.sources ≠ [] ∨ r.workers = [] ∧ r.phase.sourceless = true
  saving : ∀ f, .fetching f ∈ r.workers → ∀ patch threw, f.stage = .saving patch threw →
    patch.state = .DONE ∧ threw = false

section

variable {rows : List ExistingChunk} {r r' : Run} {w : ℕ}

theorem Run.smooth_boot (settings : Settings) : (Run.boot settings).Smooth rows where
  keeps := ⟨nofun, nofun⟩
  transfer := nofun
  phase := rfl
  sourced := .inr ⟨rfl, rfl⟩
  saving _ := nofun

/-- A chunk that waits after another was taken or done waited before. -/
theorem mem_of_pending {chunks : List PlannedChunk} {i : ℕ} {g : PlannedChunk → PlannedChunk}
    (hg : ∀ c, (g c).state ≠ .PENDING) {chunk : PlannedChunk} (h : chunk ∈ chunks.modify i g)
    (hpending : chunk.state = .PENDING) : chunk ∈ chunks := by
  obtain ⟨j, hj⟩ := List.mem_iff_getElem?.mp h
  obtain ⟨old, hold, ⟨_, rfl⟩ | ⟨_, rfl⟩⟩ := Engine.getElem?_modify_cases hj
  · exact absurd hpending (hg old)
  · exact List.mem_of_getElem? hold

theorem Run.Keeps.modifySource (h : r.Keeps rows) (i : ℕ) {g : RuntimeSource → RuntimeSource}
    (hg : ∀ source, source.failures = 0 → (g source).failures = 0 ∧
      (g source).healthy = source.healthy) : (r.modifySource i g).Keeps rows where
  chunks := h.chunks
  sources source hsource := by
    obtain ⟨j, hj⟩ := List.mem_iff_getElem?.mp hsource
    obtain ⟨old, hold, ⟨_, rfl⟩ | ⟨_, rfl⟩⟩ := Engine.getElem?_modify_cases hj
    · obtain ⟨hnone, hhealthy⟩ := h.sources old (List.mem_of_getElem? hold)
      obtain ⟨hnone', hsame⟩ := hg old hnone
      exact ⟨hnone', hsame.trans hhealthy⟩
    · exact h.sources _ (List.mem_of_getElem? hold)

theorem Run.Smooth.saving_set (h : r.Smooth rows) {worker : Worker}
    (hnew : ∀ f, worker = .fetching f → ∀ patch threw, f.stage = .saving patch threw →
      patch.state = .DONE ∧ threw = false) :
    ∀ f, .fetching f ∈ r.workers.set w worker → ∀ patch threw, f.stage = .saving patch threw →
      patch.state = .DONE ∧ threw = false := by
  intro f hf
  rcases List.mem_or_eq_of_mem_set hf with hold | heq
  · exact h.saving f hold
  · exact hnew f heq.symm

/-- **Loop of a worker.** -/
theorem Run.Smooth.turn (h : r.Smooth rows) (hw : r.workers[w]? = some .looping)
    (draining : Bool) : (r.turn draining w).Smooth rows := by
  have hsources : r.sources ≠ [] := by
    refine h.sourced.elim id ?_
    rintro ⟨hnone, _⟩
    rw [hnone] at hw
    cases hw
  unfold Run.turn
  split
  · exact ⟨⟨h.keeps.chunks, h.keeps.sources⟩, h.transfer, h.phase, .inl hsources,
      h.saving_set nofun⟩
  · split
    · exact ⟨⟨h.keeps.chunks, h.keeps.sources⟩, h.transfer, h.phase, .inl hsources,
        h.saving_set nofun⟩
    · next i _ =>
      split
      · -- There is a source, and none was dropped.
        rw [if_neg]
        · exact h
        · rw [List.all_eq_true]
          intro hdropped
          obtain ⟨source, hsource⟩ := List.exists_mem_of_ne_nil _ hsources
          have hhealthy := (h.keeps.sources source hsource).2
          simpa [hhealthy] using hdropped source hsource
      · next source _ =>
        have hkeeps := h.keeps.modifySource source
          (g := fun s => { s with connections := s.connections + 1 }) fun _ hnone => ⟨hnone, rfl⟩
        refine ⟨⟨?_, hkeeps.sources⟩, h.transfer, h.phase, .inl ?_, h.saving_set ?_⟩
        · intro chunk hchunk hpending
          change chunk ∈ (r.plan.chunks.modify i _).modify i _ at hchunk
          rw [List.modify_modify_eq] at hchunk
          exact h.keeps.chunks chunk (mem_of_pending (fun _ => by nofun) hchunk hpending) hpending
        · exact fun hnone => hsources (by simpa [Run.beginFetch, Run.modifyChunk,
            Run.modifySource] using hnone)
        · rintro f ⟨⟩ patch threw ⟨⟩

/-- **Fetch**: one that is not cut short leaves the budgets alone. -/
theorem Run.Smooth.fetch {content : ServiceId → List UInt8} {s s' : Store} {f : Fetch}
    {chunk : PlannedChunk} {source : RuntimeSource} {result : FetchResult} {a : FetchAct}
    (h : r.Smooth rows) (hw : r.workers[w]? = some (.fetching f)) (hu : ¬ f.CutShort r chunk a)
    (hs : Fetch.Step content s r f chunk source a s' r' result) :
    (r'.settleWork w f result).Smooth rows := by
  have hsources : r.sources ≠ [] := by
    refine h.sourced.elim id ?_
    rintro ⟨hnone, _⟩
    rw [hnone] at hw
    cases hw
  -- A fetch that goes on: the run is the same but for the stage of its worker.
  have hgoes : ∀ {stage : FetchStage} {t : Run}, t.Keeps rows → r.Alike t →
      (∀ patch threw, stage = .saving patch threw → patch.state = .DONE ∧ threw = false) →
      (t.settleWork w f (.goes stage)).Smooth rows := by
    intro stage t hkeeps hsame hstage
    refine ⟨⟨hkeeps.chunks, hkeeps.sources⟩, ?_, ?_, .inl ?_, ?_⟩
    · exact hsame.transfer ▸ h.transfer
    · exact hsame.phase ▸ h.phase
    · intro hnone
      have hcapabilities := hsame.capabilities
      rw [show t.sources = [] from hnone] at hcapabilities
      exact hsources (List.map_eq_nil_iff.mp hcapabilities.symm)
    · change ∀ g, .fetching g ∈ t.workers.set w (.fetching { f with stage := stage }) → _
      rw [hsame.workers]
      refine h.saving_set ?_
      rintro g ⟨⟩ patch threw heq
      exact hstage patch threw heq
  have haccount : ∀ (n : ℕ) (rate : Option ℕ), (r.account f.source n rate).Keeps rows := by
    intro n rate
    have hkeeps := h.keeps.modifySource f.source
      (g := fun s => { s with rate := rate.getD s.rate }) fun _ hnone => ⟨hnone, rfl⟩
    unfold Run.account
    dsimp only
    split <;> exact ⟨h.keeps.chunks, hkeeps.sources⟩
  have hsame := hs.alike
  cases hs with
  | answer | piece => exact hgoes h.keeps hsame nofun
  | write | writeNowhere => exact hgoes (haccount ..) hsame nofun
  -- Nothing is cut short, so nothing fails.
  | fails _ _ hfails => exact absurd (hfails.cutShort r chunk f) hu
  | @succeeds _ wholeFile =>
    refine hgoes ?_ hsame ?_
    · have hkeeps := h.keeps.modifySource f.source (g := fun s => { s with failures := 0 })
        fun _ _ => ⟨rfl, rfl⟩
      refine ⟨fun c hc hpending => ?_, hkeeps.sources⟩
      cases wholeFile with
      | false =>
        exact h.keeps.chunks c (mem_of_pending (fun _ => by nofun) hc hpending) hpending
      | true =>
        obtain ⟨old, _, rfl⟩ := List.mem_map.mp hc
        cases hpending
    · rintro patch threw ⟨⟩
      exact ⟨rfl, rfl⟩
  | @save patch threw hstage =>
    obtain ⟨_, rfl⟩ := h.saving f (List.mem_of_getElem? hw) patch threw hstage
    rw [if_neg (by simp)]
    have hkeeps := h.keeps.modifySource f.source
      (g := fun s => { s with connections := s.connections - 1 }) fun _ hnone => ⟨hnone, rfl⟩
    refine ⟨⟨h.keeps.chunks, hkeeps.sources⟩, h.transfer, h.phase, .inl ?_, h.saving_set nofun⟩
    exact fun hnone => hsources (by simpa [Run.settleWork, Run.modifySource] using hnone)

end

/-! ### The main thread -/

section

variable {hash : List UInt8 → String} {rows : List ExistingChunk} {s s' : Store} {r r' : Run}
  {a : RunAct} {effect : Effect}

theorem Store.Keeps.plans (h : s.Keeps rows) :
    ∀ chunk ∈ (r.plans s).plan.chunks, chunk.state = .PENDING →
      Spent rows chunk.index chunk.attempts := by
  intro chunk hchunk hpending
  have hmem := List.mem_map_of_mem (f := fun c : PlannedChunk => (c.index, c.state, c.attempts))
    hchunk
  rw [show (r.plans s).plan.chunks = (adoptPieceChecksums (planChunks (totalBytes r.transfer
    r.sources) r.settings.chunkSize s.chunkRows) r.sources).chunks from rfl,
    map_adoptPieceChecksums fun _ _ => rfl] at hmem
  obtain ⟨planned, hplanned, heq⟩ := List.mem_map.mp hmem
  obtain ⟨hindex, hstate, hattempts⟩ : planned.index = chunk.index ∧
      planned.state = chunk.state ∧ planned.attempts = chunk.attempts := by
    simpa only [Prod.mk.injEq] using heq
  rw [← hindex, ← hattempts]
  unfold planChunks at hplanned
  split at hplanned
  · obtain ⟨stored, hstored, rfl⟩ := List.mem_map.mp hplanned
    refine h.chunks stored ((List.mem_insertionSort _).mp hstored) fun hdone => ?_
    rw [← hstate] at hpending
    simp [hdone] at hpending
  · refine .inl ?_
    have hnew : ∀ fuel start index : ℕ, ∀ c ∈ layOut (totalBytes r.transfer r.sources)
        (resolveChunkSize (totalBytes r.transfer r.sources) r.settings.chunkSize) fuel start index,
        c.attempts = 0 := by
      intro fuel
      induction fuel with
      | zero => exact fun _ _ => nofun
      | succ fuel ih =>
        intro start index c hc
        rw [layOut] at hc
        split at hc
        · rcases List.mem_cons.mp hc with rfl | hc
          · rfl
          · exact ih _ _ c hc
        · cases hc
    exact hnew _ _ _ planned hplanned

theorem Run.Smooth.goes (h : r.Smooth rows) (hplan : r'.plan = r.plan)
    (hworkers : r'.workers = r.workers) (hsources : r'.sources = r.sources)
    (htransfer : r'.transfer.state ≠ .FAILED) (hphase : r'.phase.smooth = true)
    (hsourced : r.phase.sourceless = true → r'.phase.sourceless = true) : r'.Smooth rows where
  keeps := ⟨by rw [hplan]; exact h.keeps.chunks, by rw [hsources]; exact h.keeps.sources⟩
  transfer := htransfer
  phase := hphase
  sourced := by
    rw [hsources, hworkers]
    exact h.sourced.imp_right fun ⟨hnone, hless⟩ => ⟨hnone, hsourced hless⟩
  saving := by
    rw [hworkers]
    exact h.saving

/-- **Main thread**: where nothing throws and the file is whole, it does not fail. -/
theorem Run.Smooth.step (h : r.Smooth rows) (hstore : s.Keeps rows)
    (hs : Run.Step hash s r a s' r' effect) (ho : r.Succeeds hash s a)
    (hu : a = .next → r.InsertsNew s) : r'.Smooth rows ∧ s'.Keeps rows := by
  have hsame : ∀ {row : Row} {work : Option ℕ} {placed : Option (SparseFile UInt8)}
      {inodes : List (SparseFile UInt8)}, row.state ≠ .FAILED →
      Store.Keeps rows { s with row := row, work := work, placed := placed, inodes := inodes } :=
    fun hrow => ⟨hrow, hstore.chunks⟩
  cases hs with
  | loadEnded hphase => exact ⟨h.goes rfl rfl rfl h.transfer rfl fun _ => rfl, hstore⟩
  | load hphase => exact ⟨h.goes rfl rfl rfl hstore.row rfl fun _ => rfl, hstore⟩
  | @setLoad state hphase =>
    have hsmooth := h.phase
    rw [hphase] at hsmooth
    refine ⟨h.goes rfl rfl rfl h.transfer hsmooth fun hless => ?_, hstore⟩
    rw [hphase] at hless
    cases state with
    | CONNECTING => rfl
    | _ => cases hless
  | @setSave state copy hphase =>
    have hsmooth := h.phase
    rw [hphase] at hsmooth
    refine ⟨?_, hsame ?_⟩
    · cases state with
      | CONNECTING => exact h.goes rfl rfl rfl h.transfer rfl fun _ => rfl
      | DOWNLOADING =>
        refine ⟨⟨h.keeps.chunks, h.keeps.sources⟩, h.transfer, rfl, .inl ?_, ?_⟩
        · refine h.sourced.elim id ?_
          rintro ⟨_, hless⟩
          rw [hphase] at hless
          cases hless
        · intro f hf
          cases List.eq_of_mem_replicate hf
      | PAUSED =>
        exact h.goes rfl rfl rfl h.transfer rfl fun _ => rfl
      | VERIFYING | PLACING =>
        exact h.goes rfl rfl rfl h.transfer rfl (by rw [hphase]; nofun)
      | _ => simp [RunPhase.smooth] at hsmooth
    · dsimp only
      rintro rfl
      simp [RunPhase.smooth] at hsmooth
  | plan hphase =>
    refine ⟨⟨⟨hstore.plans, h.keeps.sources⟩, h.transfer, rfl, .inl ?_, h.saving⟩, hstore⟩
    refine h.sourced.elim id ?_
    rintro ⟨_, hless⟩
    rw [hphase] at hless
    cases hless
  | persist hphase =>
    refine ⟨h.goes rfl rfl rfl h.transfer ?_ (by rw [hphase]; nofun), hsame h.transfer⟩
    dsimp only
    split <;> rfl
  | @insert rest hphase =>
    refine ⟨h.goes rfl rfl rfl h.transfer rfl (by rw [hphase]; nofun), hstore.row, ?_⟩
    intro row hrow hopen
    rcases List.mem_append.mp hrow with hold | hnew
    · exact hstore.chunks row hold hopen
    · obtain ⟨chunk, _, rfl⟩ := List.mem_map.mp hnew
      exact .inl rfl
  -- An index that is in the table already is what `hu` rules out.
  | insertFails hphase hclash =>
    obtain ⟨c, hc, row, hrow, heq⟩ := hclash
    have hnew := hu rfl
    rw [InsertsNew, hphase] at hnew
    exact absurd heq (hnew c hc row hrow)
  | «open» hphase =>
    refine ⟨h.goes rfl rfl rfl h.transfer rfl (by rw [hphase]; nofun), ?_⟩
    unfold Store.openWorkFile
    split
    · exact ⟨hstore.row, hstore.chunks⟩
    · exact ⟨hstore.row, hstore.chunks⟩
  -- What was delivered verifies, so nothing is repaired.
  | repair hphase hreport | giveUp hphase hreport =>
    rw [ho hphase] at hreport
    cases hreport
  -- A smooth run is in none of these phases.
  | assign hphase | fails hphase | catchLoad hphase | fail hphase =>
    have hsmooth := h.phase
    rw [hphase] at hsmooth
    cases hsmooth
  | @placeStops reason hphase | @stops reason hphase =>
    refine ⟨?_, hstore⟩
    cases reason <;> exact h.goes rfl rfl rfl h.transfer rfl (by rw [hphase]; nofun)
  | noSource => exact absurd rfl ho
  | prepared hphase hsome =>
    refine ⟨⟨⟨h.keeps.chunks, ?_⟩, h.transfer, rfl, .inl ?_, h.saving⟩, hstore⟩
    · intro source hsource
      obtain ⟨_, _, rfl⟩ := List.mem_map.mp hsource
      exact ⟨rfl, rfl⟩
    · exact fun hnone => hsome (List.map_eq_nil_iff.mp hnone)
  | throws => exact ho.elim
  | moved hphase =>
    exact ⟨h.goes rfl rfl rfl nofun rfl (by rw [hphase]; nofun), hsame hstore.row⟩
  | cancelSave hphase =>
    exact ⟨h.goes rfl rfl rfl h.transfer rfl (by rw [hphase]; nofun), hsame nofun⟩
  | cancelRemove hphase =>
    exact ⟨h.goes rfl rfl rfl h.transfer rfl fun _ => rfl, hsame hstore.row⟩
  | finish hphase =>
    exact ⟨h.goes rfl rfl rfl h.transfer rfl fun _ => rfl, hsame h.transfer⟩
  | close hphase => exact ⟨h.goes rfl rfl rfl h.transfer rfl fun _ => rfl, hstore⟩
  | inserted hphase | downloadedCancel hphase | downloadedPause hphase | downloaded hphase
  | cancelLoad hphase | verified hphase | place hphase =>
    exact ⟨h.goes rfl rfl rfl h.transfer rfl (by rw [hphase]; nofun), hstore⟩

end

/-! ### Calls -/

def Call.marks : Call → Bool
  | .repair (.mark _ _) => true
  | _ => false

theorem CancelStage.keeps {rows : List ExistingChunk} {s : Store} (h : s.Keeps rows)
    (kind : TransferErrorKind) (stage : CancelStage) : (stage.step s kind).1.Keeps rows := by
  cases stage with
  | load => exact h
  | save => exact ⟨nofun, h.chunks⟩
  | remove => exact ⟨h.row, h.chunks⟩

section

variable {hash : List UInt8 → String} {rows : List ExistingChunk} {s s' : Store}
  {result : CallResult}

theorem Call.keeps_setState (h : s.Keeps rows) {caller : Caller} {copy : Option Row}
    (hs : Call.step hash s (.setState caller copy) = some (s', result)) :
    s'.Keeps rows ∧ ∀ call', result = .goes call' → call'.marks = false := by
  cases copy with
  | none =>
    cases hs
    exact ⟨h, by rintro _ ⟨⟩; rfl⟩
  | some copy =>
    cases hs
    refine ⟨⟨by cases caller <;> nofun, h.chunks⟩, fun call' heq => ?_⟩
    split at heq <;> cases heq

theorem Call.keeps_cancel (h : s.Keeps rows) {kind : TransferErrorKind} {stage : CancelStage}
    (hs : Call.step hash s (.cancel kind stage) = some (s', result)) :
    s'.Keeps rows ∧ ∀ call', result = .goes call' → call'.marks = false := by
  cases hs
  refine ⟨CancelStage.keeps h kind stage, fun call' heq => ?_⟩
  cases stage <;> cases heq <;> rfl

theorem Call.keeps_retry (h : s.Keeps rows) {stage : RetryStage}
    (hs : Call.step hash s (.retry stage) = some (s', result)) :
    s'.Keeps rows ∧ ∀ call', result = .goes call' → call'.marks = false := by
  cases stage with
  | require =>
    by_cases hover : s.row.state = .FAILED ∨ s.row.state = .CANCELLED
    · have hgoes : Call.step hash s (.retry .require) =
          some (s, .goes (.retry (.delete s.row))) := if_pos hover
      rw [hgoes] at hs
      cases hs
      exact ⟨h, by rintro _ ⟨⟩; rfl⟩
    · have hreturned : Call.step hash s (.retry .require) = some (s, .returned) := if_neg hover
      rw [hreturned] at hs
      cases hs
      exact ⟨h, by rintro _ ⟨⟩⟩
  | delete copy =>
    cases hs
    exact ⟨⟨h.row, fun _ hmem => absurd hmem List.not_mem_nil⟩, by rintro _ ⟨⟩; rfl⟩
  | save copy =>
    have hqueued : TransferState.QUEUED ≠ .FAILED := by decide
    cases hs
    exact ⟨⟨hqueued, h.chunks⟩, by rintro _ ⟨⟩⟩

theorem Call.keeps_repair (h : s.Keeps rows) {stage : RepairStage}
    (hmarks : (Call.repair stage).marks = false) (ho : (Call.repair stage).FindsWhole hash s)
    (hs : Call.step hash s (.repair stage) = some (s', result)) :
    s'.Keeps rows ∧ ∀ call', result = .goes call' → call'.marks = false := by
  cases stage with
  | require | chunks =>
    cases hs
    exact ⟨h, by rintro _ ⟨⟩; rfl⟩
  | verify copy chunkRows =>
    have hwhole : Call.step hash s (.repair (.verify copy chunkRows)) = some (s, .returned) :=
      if_pos ho
    rw [hwhole] at hs
    cases hs
    exact ⟨h, by rintro _ ⟨⟩⟩
  | mark => cases hmarks
  | save copy =>
    have hrepairing : TransferState.REPAIRING ≠ .FAILED := by decide
    cases hs
    exact ⟨⟨hrepairing, h.chunks⟩, by rintro _ ⟨⟩⟩

theorem Call.keeps {call : Call} (h : s.Keeps rows) (hmarks : call.marks = false)
    (ho : call.FindsWhole hash s) (hs : call.step hash s = some (s', result)) :
    s'.Keeps rows ∧ ∀ call', result = .goes call' → call'.marks = false := by
  cases call with
  | enqueue => cases hs
  | setState => exact Call.keeps_setState h hs
  | cancel => exact Call.keeps_cancel h hs
  | retry => exact Call.keeps_retry h hs
  | repair => exact Call.keeps_repair h hmarks ho hs

end

/-! ### Every run -/

namespace Engine

structure Smooth (rows : List ExistingChunk) (e : Engine) : Prop where
  store : e.store.Keeps rows
  runs : ∀ r ∈ e.runs, r.Smooth rows
  calls : ∀ call ∈ e.calls, call.marks = false

section

variable {content : ServiceId → List UInt8} {hash : List UInt8 → String}
  {rows : List ExistingChunk} {e e' : Engine} {a : Act}

theorem Smooth.pausingIsFree (h : e.Smooth rows) : e.PausingIsFree rows :=
  ⟨h.store, fun r hr => (h.runs r hr).keeps⟩

theorem mem_calls_enqueue {call : Call} (h : call ∈ e.enqueue.calls) :
    call ∈ e.calls ∨ call.marks = false := by
  unfold enqueue at h
  split at h
  · exact (List.mem_append.mp h).imp_right fun hnew => by
      obtain rfl := List.mem_singleton.mp hnew
      rfl
  · exact .inl h

theorem mem_calls_issue {call : Call} {operation : Operation}
    (h : call ∈ (e.issue operation).calls) : call ∈ e.calls ∨ call.marks = false := by
  have happend : ∀ {new : Call}, new.marks = false → call ∈ e.calls ++ [new] →
      call ∈ e.calls ∨ call.marks = false := fun hnew hmem =>
    (List.mem_append.mp hmem).imp_right fun heq => by
      rw [List.mem_singleton.mp heq]
      exact hnew
  cases operation with
  | enqueue => exact mem_calls_enqueue h
  | pause | cancel =>
    simp only [issue] at h
    split at h
    · exact .inl h
    · exact happend rfl h
  | resume | retry | repair => exact happend rfl h

theorem mem_calls_settle {call : Call} {i : ℕ} {result : CallResult}
    (hresult : ∀ call', result = .goes call' → call'.marks = false)
    (h : call ∈ (e.settle i result).calls) : call ∈ e.calls ∨ call.marks = false := by
  cases result with
  | goes call' =>
    rcases List.mem_or_eq_of_mem_set h with hold | rfl
    · exact .inl hold
    · exact .inr (hresult call rfl)
  | returned => exact .inl (List.mem_of_mem_eraseIdx h)
  | enqueues => exact (mem_calls_enqueue h).imp_left List.mem_of_mem_eraseIdx

theorem calls_apply (e : Engine) (k : ℕ) (effect : Effect) :
    (e.apply k effect).calls = e.calls := by
  cases effect <;> rfl

theorem calls_restart (e : Engine) (queuePaused : Bool) :
    ∀ call ∈ (e.restart queuePaused).calls, call.marks = false := by
  intro call hcall
  unfold restart at hcall
  dsimp only at hcall
  split at hcall
  · split at hcall
    · obtain rfl := List.mem_singleton.mp hcall
      rfl
    · cases hcall
  · cases hcall

theorem keeps_fetch {s s' : Store} {r r' : Run} {w : ℕ} {f : Fetch} {chunk : PlannedChunk}
    {source : RuntimeSource} {result : FetchResult} {act : FetchAct} (h : s.Keeps rows)
    (hr : r.Smooth rows) (hw : r.workers[w]? = some (.fetching f))
    (hs : Fetch.Step content s r f chunk source act s' r' result) : s'.Keeps rows := by
  cases hs with
  | @save patch threw hstage =>
    obtain ⟨hdone, _⟩ := hr.saving f (List.mem_of_getElem? hw) patch threw hstage
    refine ⟨h.row, fun row hrow hopen => ?_⟩
    obtain ⟨old, hold, rfl⟩ := List.mem_map.mp hrow
    split at hopen
    · exact absurd hdone hopen
    · next hne =>
      rw [if_neg hne]
      exact h.chunks old hold hopen
  | write => exact ⟨h.row, h.chunks⟩
  | _ => exact h

/-- **The store** keeps its budgets. -/
theorem Smooth.keeps (h : e.Smooth rows) (ho : OnlyStops hash e a) (hu : Uncut e a)
    (hs : Step content hash e a e') : e'.store.Keeps rows := by
  cases hs with
  | issue => rw [issue_store]; exact h.store
  | call hcall hstep =>
    rw [settle_store]
    exact (Call.keeps h.store (h.calls _ (List.mem_of_getElem? hcall)) (ho _ hcall) hstep).1
  | hold | push | start | turn | drainRun | drain => exact h.store
  | @run k act r r' s effect hr hstep =>
    rw [apply_store]
    refine ((h.runs r (List.mem_of_getElem? hr)).step h.store hstep (ho r hr) ?_).2
    rintro rfl
    exact hu r hr
  | work hr hw _ _ hfetch =>
    exact keeps_fetch h.store (h.runs _ (List.mem_of_getElem? hr)) hw hfetch
  | refetch hr hphase =>
    have hsmooth := (h.runs _ (List.mem_of_getElem? hr)).phase
    rw [hphase] at hsmooth
    cases hsmooth
  | flush hr => exact ⟨(h.runs _ (List.mem_of_getElem? hr)).transfer, h.store.chunks⟩
  | restart => rw [restart_store]; exact h.store

theorem Smooth.step (h : e.Smooth rows) (ho : OnlyStops hash e a) (hu : Uncut e a)
    (hs : Step content hash e a e') : e'.Smooth rows := by
  refine ⟨h.keeps ho hu hs, ?_, ?_⟩
  · refine hs.forall_runs (P := fun _ r => r.Smooth rows) h.runs (fun _ _ _ _ h => h)
      (fun settings => Run.smooth_boot settings) ?pause ?cancel ?flush ?run ?turn ?work ?refetch
    case pause =>
      exact fun r h =>
        ⟨⟨h.keeps.chunks, h.keeps.sources⟩, h.transfer, h.phase, h.sourced, h.saving⟩
    case cancel =>
      exact fun r _ h =>
        ⟨⟨h.keeps.chunks, h.keeps.sources⟩, h.transfer, h.phase, h.sourced, h.saving⟩
    case flush =>
      exact fun r _ h =>
        ⟨⟨h.keeps.chunks, h.keeps.sources⟩, h.transfer, h.phase, h.sourced, h.saving⟩
    case run =>
      rintro k act r r' effect rfl hr hsmooth hstep
      refine (hsmooth.step h.store hstep (ho r hr) ?_).1
      rintro rfl
      exact hu r hr
    case turn => exact fun r w hsmooth hw => hsmooth.turn hw _
    case work =>
      rintro k act r r' w f chunk source result rfl hr hsmooth hw hchunk - hfetch
      exact hsmooth.fetch hw (hu r hr f (by rw [hw]; rfl) chunk hchunk) hfetch
    case refetch =>
      rintro k act r r' f rest chunk source result rfl hr hsmooth hphase - - -
      have hnot := hsmooth.phase
      rw [hphase] at hnot
      cases hnot
  · intro call hcall
    cases hs with
    | issue => exact (mem_calls_issue hcall).elim (h.calls call) id
    | call hold hstep =>
      have hkeeps := Call.keeps h.store (h.calls _ (List.mem_of_getElem? hold)) (ho _ hold) hstep
      exact (mem_calls_settle hkeeps.2 hcall).elim (h.calls call) id
    | hold =>
      rcases List.mem_or_eq_of_mem_set hcall with hold | rfl
      · exact h.calls call hold
      · rfl
    | push => exact h.calls call (List.mem_of_mem_eraseIdx hcall)
    | run =>
      rw [calls_apply] at hcall
      exact h.calls call hcall
    | restart => exact calls_restart e _ call hcall
    | _ => exact h.calls call hcall

/-- **Pausing is free** in every run in which no fetch is cut short. -/
theorem pausingIsFree_of_uncut {store : Store} {as : List Act} (hrow : store.row.state ≠ .FAILED)
    (h : LabelledRun.Run (Engine.step content hash) (fun e a => OnlyStops hash e a ∧ Uncut e a)
      (boot store) as e) : e.PausingIsFree store.chunkRows := by
  have hboot : (boot store).Smooth store.chunkRows :=
    ⟨⟨hrow, fun row hmem _ => .inr ⟨row, hmem, rfl, rfl⟩⟩, by simp [boot], by simp [boot]⟩
  refine (h.invariant (I := fun e : Engine => e.Smooth store.chunkRows) ?_ hboot).pausingIsFree
  rintro e a e' hi ⟨ho, hu⟩ hs
  exact hi.step ho hu (Step.of_step hs)

/-- The main thread of a run goes on. -/
def nexts (k n : ℕ) : List Act := List.replicate n (.run k .next)

def resumed (k : ℕ) : List Act :=
  [.issue .resume, .call 0, .call 0, .settings 0 false, .start ⟨0, 4⟩] ++ nexts k 3 ++
    [.run k (.prepared [rangeSource (some 3)])] ++ nexts k 5

/-- A pause that comes while the last byte of the chunk is written. -/
def pausedAtTheEnd : List Act :=
  started ++ untilDownloading (some 3) 1 ++
    [.work 0 0 none, .work 0 0 (some (.answer false)), .work 0 0 (some (.piece 3)),
      .issue .pause, .work 0 0 (some (.write none)), .work 0 0 (some .ended),
      .work 0 0 (some .save), .work 0 0 none] ++ nexts 0 4 ++ resumed 1

theorem pausingIsFree_of_uncut_atTheEnd :
    ∃ e, LabelledRun.exec (step threeBytes noHash)
        (fun e a => OnlyStops noHash e a ∧ Uncut e a) (boot freshStore) pausedAtTheEnd = some e ∧
      e.PausingIsFree freshStore.chunkRows := by
  have hrun : (LabelledRun.exec (step threeBytes noHash)
    (fun e a => OnlyStops noHash e a ∧ Uncut e a) (boot freshStore) pausedAtTheEnd).isSome := by
    decide
  obtain ⟨e, he⟩ := Option.isSome_iff_exists.mp hrun
  exact ⟨e, he, pausingIsFree_of_uncut (by decide) (.ofExec he)⟩

/-- A pause that comes after one byte of the chunk: the next piece ends its fetch. -/
def pausedInFlight (k : ℕ) : List Act :=
  [.work k 0 none, .work k 0 (some (.answer false)), .work k 0 (some (.piece 1)),
    .work k 0 (some (.write none)), .issue .pause, .work k 0 (some (.piece 1)),
    .work k 0 (some .save)]

/-- So many pauses, and a resumption after each but the last. -/
def pauses : ℕ → List Act
  | 0 => started ++ untilDownloading (some 3) 1 ++ pausedInFlight 0
  | k + 1 => pauses k ++ [.work k 0 none] ++ nexts k 4 ++ resumed (k + 1) ++ pausedInFlight (k + 1)

/-- The chunk has used up its attempts. -/
def fivePauses : List Act := pauses 4 ++ [.run 4 .next, .run 4 (.fail .NETWORK)]

/-- The fifth pause fails the transfer. -/
theorem not_pausingIsFree_fivePauses :
    ¬ ∀ (content : ServiceId → List UInt8) (hash : List UInt8 → String) (store : Store)
      (as : List Act) (e : Engine), store.row.state ≠ .FAILED →
      LabelledRun.Run (step content hash) (OnlyStops hash) (boot store) as e →
      e.PausingIsFree store.chunkRows := by
  intro h
  have hfree := h threeBytes noHash freshStore fivePauses
    ((LabelledRun.exec (step threeBytes noHash) (OnlyStops noHash) (boot freshStore)
      fivePauses).get (by decide +kernel)) (by decide) (.ofExec (Option.some_get _).symm)
  have hfailed : ((LabelledRun.exec (step threeBytes noHash) (OnlyStops noHash) (boot freshStore)
      fivePauses).get (by decide +kernel)).store.row.state = .FAILED := by decide +kernel
  exact hfree.store.row hfailed

end

end Engine

end MediaCenterSync.TransferEngine
