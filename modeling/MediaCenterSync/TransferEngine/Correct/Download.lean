import MediaCenterSync.TransferEngine.Correct.Engine

/-!
# What a download leaves undone

The workers of a download share its chunks, and return when they find none that is pending.  A
chunk that fails is pending again, but the worker it failed for then looks once more.  So somebody
sees to every chunk that is not done (`Run.Tended`): while one is pending a worker has not
returned, one that is active is being fetched, and one that has failed too often is about to end
the download.  A download nobody asked to stop is over when every chunk is done
(`done_of_returned`).
-/

namespace MediaCenterSync.TransferEngine

/-! ### The invariant -/

/-- The phases up to the download. -/
def RunPhase.before : RunPhase → Bool
  | .load | .setState .CONNECTING _ | .preparing | .planning | .persisting | .inserting _
  | .opening | .setState .DOWNLOADING _ => true
  | _ => false

/-- Somebody sees to the `j`-th chunk. -/
def Run.Tended (r : Run) (j : ℕ) : ChunkState → Prop
  | .PENDING => ∃ (w : ℕ) (worker : Worker), r.workers[w]? = some worker ∧ worker ≠ .returned
  | .ACTIVE => ∃ (w : ℕ) (f : Fetch), r.workers[w]? = some (.fetching f) ∧ f.chunk = j ∧
      ∀ patch threw, f.stage ≠ .saving patch threw
  | .FAILED => ∃ (w : ℕ) (f : Fetch) (patch : ChunkPatch), r.workers[w]? = some (.fetching f) ∧
      f.chunk = j ∧ f.stage = .saving patch true
  | .DONE => True
  | .CORRUPT => False

/-- Nobody works before the download, and in it somebody sees to every chunk, unless it was asked to
stop. -/
structure Run.Tends (r : Run) : Prop where
  before : r.phase.before = true →
    r.workers = [] ∧ ∀ chunk ∈ r.plan.chunks, chunk.state = .PENDING ∨ chunk.state = .DONE
  tended : r.phase = .downloading → r.cancelling = false → r.pausing = false →
    ∀ (j : ℕ) (chunk : PlannedChunk), r.plan.chunks[j]? = some chunk → r.Tended j chunk.state

/-- **A download that was not asked to stop** is over when every chunk is done. -/
theorem Run.Tends.done_of_returned {r : Run} (h : r.Tends) (hphase : r.phase = .downloading)
    (hcancelling : r.cancelling = false) (hpausing : r.pausing = false)
    (hreturned : ∀ worker ∈ r.workers, worker = .returned) :
    ∀ chunk ∈ r.plan.chunks, chunk.state = .DONE := by
  intro chunk hchunk
  obtain ⟨j, hj⟩ := List.mem_iff_getElem?.mp hchunk
  have htended := h.tended hphase hcancelling hpausing j chunk hj
  have hnone : ∀ {w : ℕ} {f : Fetch}, r.workers[w]? ≠ some (.fetching f) := fun hw => by
    cases hreturned _ (List.mem_of_getElem? hw)
  cases hstate : chunk.state with
  | DONE => rfl
  | PENDING =>
    rw [hstate] at htended
    obtain ⟨w, worker, hw, hne⟩ := htended
    exact absurd (hreturned worker (List.mem_of_getElem? hw)) hne
  | ACTIVE =>
    rw [hstate] at htended
    obtain ⟨w, f, hw, _⟩ := htended
    exact absurd hw hnone
  | FAILED =>
    rw [hstate] at htended
    obtain ⟨w, f, _, hw, _⟩ := htended
    exact absurd hw hnone
  | CORRUPT =>
    rw [hstate] at htended
    exact htended.elim

/-! ### Workers -/

section

variable {r r' : Run} {w j : ℕ} {worker worker' : Worker} {state : ChunkState}

/-- One worker goes on, and what it had in hand is still seen to. -/
theorem Run.Tended.set (h : r.Tended j state) (hw : r.workers[w]? = some worker)
    (hset : r'.workers = r.workers.set w worker')
    (hpending : state = .PENDING → worker' ≠ .returned)
    (hactive : ∀ f, worker = .fetching f → f.chunk = j → state = .ACTIVE →
      (∀ patch threw, f.stage ≠ .saving patch threw) → r'.Tended j .ACTIVE)
    (hfailed : ∀ f patch, worker = .fetching f → f.chunk = j → state = .FAILED →
      f.stage = .saving patch true → r'.Tended j .FAILED) : r'.Tended j state := by
  -- Another worker is where it was.
  have hother : ∀ {v : ℕ} {other : Worker}, r.workers[v]? = some other → w ≠ v →
      r'.workers[v]? = some other := fun hv hne => by
    rw [hset, List.getElem?_set_ne hne]
    exact hv
  cases state with
  | PENDING =>
    refine ⟨w, worker', ?_, hpending rfl⟩
    rw [hset, Engine.getElem?_set_of hw, if_pos rfl]
  | ACTIVE =>
    obtain ⟨v, f, hv, hchunk, hstage⟩ := h
    by_cases hvw : w = v
    · subst hvw
      exact hactive f (Option.some.inj (hw.symm.trans hv)) hchunk rfl hstage
    · exact ⟨v, f, hother hv hvw, hchunk, hstage⟩
  | FAILED =>
    obtain ⟨v, f, patch, hv, hchunk, hstage⟩ := h
    by_cases hvw : w = v
    · subst hvw
      exact hfailed f patch (Option.some.inj (hw.symm.trans hv)) hchunk rfl hstage
    · exact ⟨v, f, patch, hother hv hvw, hchunk, hstage⟩
  | DONE => trivial
  | CORRUPT => exact h

theorem tended_fetching (f : Fetch) (hw : r.workers[w]? = some worker)
    (hset : r'.workers = r.workers.set w (.fetching f))
    (hstage : ∀ patch threw, f.stage ≠ .saving patch threw) : r'.Tended f.chunk .ACTIVE :=
  ⟨w, f, by rw [hset, Engine.getElem?_set_of hw, if_pos rfl], rfl, hstage⟩

theorem Run.getElem?_modifyChunk {r : Run} {i j : ℕ} {g : PlannedChunk → PlannedChunk}
    {chunk : PlannedChunk} (h : (r.modifyChunk i g).plan.chunks[j]? = some chunk) :
    ∃ old, r.plan.chunks[j]? = some old ∧ (j = i ∧ chunk = g old ∨ j ≠ i ∧ chunk = old) :=
  Engine.getElem?_modify_cases h

/-- **Turn**: a worker returns when nothing is pending, and sees to what it takes. -/
theorem Run.Tends.turn (h : r.Tends) (hw : r.workers[w]? = some .looping) :
    (r.turn false w).Tends := by
  have hnotbefore : r.phase.before ≠ true := fun hbefore => by
    simp [(h.before hbefore).1] at hw
  refine ⟨fun hbefore => ?_, fun hphase hcancelling hpausing j chunk hj => ?_⟩
  · obtain hsame | ⟨_, hcatching⟩ := r.phase_turn false w
    · exact absurd (hsame ▸ hbefore) hnotbefore
    · rw [hcatching] at hbefore
      cases hbefore
  · have hsame := r.alike_turn false w
    have hcancelling : r.cancelling = false := hsame.cancelling.symm.trans hcancelling
    have hpausing : r.pausing = false := hsame.pausing.symm.trans hpausing
    -- The turn leaves the phase, or gives up: then nothing is asked of the chunks.
    have hdownloading : r.phase = .downloading := by
      obtain hsame | ⟨_, hcatching⟩ := r.phase_turn false w
      · exact hsame.symm.trans hphase
      · rw [hcatching] at hphase
        cases hphase
    have htended := h.tended hdownloading hcancelling hpausing
    revert hphase hj
    simp only [Run.turn, hcancelling, hpausing, Bool.false_eq_true, or_self, if_false]
    split
    · rename_i hnone
      intro _ hj
      refine (htended j chunk hj).set hw rfl (fun hstate => ?_) (by rintro _ ⟨⟩) (by rintro _ _ ⟨⟩)
      have hpending := (List.findIdx?_eq_none_iff.mp hnone) chunk (List.mem_of_getElem? hj)
      simp [hstate] at hpending
    · rename_i i _
      split
      · split
        · intro hphase
          cases hphase
        · exact fun _ hj => htended j chunk hj
      · rename_i source _
        intro _ hj
        obtain ⟨mid, hmid, hcase⟩ := Run.getElem?_modifyChunk hj
        obtain ⟨old, hold, hcase'⟩ := Run.getElem?_modifyChunk hmid
        -- The chunk that was taken has this worker on it; the others have what they had.
        by_cases hji : j = i
        · obtain ⟨_, rfl⟩ | ⟨hne, _⟩ := hcase
          · obtain ⟨_, rfl⟩ | ⟨hne, _⟩ := hcase'
            · subst hji
              exact tended_fetching ⟨j, source, .asked⟩ hw rfl (by rintro _ _ ⟨⟩)
            · exact absurd hji hne
          · exact absurd hji hne
        · obtain ⟨heq, _⟩ | ⟨_, rfl⟩ := hcase
          · exact absurd heq hji
          · obtain ⟨heq, _⟩ | ⟨_, rfl⟩ := hcase'
            · exact absurd heq hji
            · exact (htended j _ hold).set hw rfl (by rintro _ ⟨⟩) (by rintro _ ⟨⟩) (by rintro _ _ ⟨⟩)

variable {content : ServiceId → List UInt8} {s s' : Store} {f : Fetch} {chunk : PlannedChunk}
  {source : RuntimeSource} {a : FetchAct} {result : FetchResult}

theorem Fetch.Step.chunks (h : Step content s r f chunk source a s' r' result) {c : PlannedChunk}
    (hj : r'.plan.chunks[j]? = some c) :
    (∃ old, r.plan.chunks[j]? = some old ∧ c.state = old.state ∧
      ∀ stage, result = .goes stage → (∀ patch threw, stage ≠ .saving patch threw) ∨ j ≠ f.chunk) ∨
    c.state = .DONE ∨
    j = f.chunk ∧ (c.state = .FAILED ∨ c.state = .PENDING) ∧
      ∃ patch, result = .goes (.saving patch true) := by
  cases h with
  | answer | piece =>
    exact .inl ⟨c, hj, rfl, by rintro _ ⟨⟩; exact .inl nofun⟩
  | write | writeNowhere =>
    rw [Run.account_chunks] at hj
    exact .inl ⟨c, hj, rfl, by rintro _ ⟨⟩; exact .inl nofun⟩
  | fails =>
    obtain ⟨old, hold, ⟨rfl, rfl⟩ | ⟨hne, rfl⟩⟩ := Run.getElem?_modifyChunk hj
    · refine .inr (.inr ⟨rfl, ?_, _, rfl⟩)
      simp only
      split
      · exact .inl rfl
      · exact .inr rfl
    · exact .inl ⟨_, hold, rfl, fun _ _ => .inr hne⟩
  | @succeeds _ wholeFile =>
    cases wholeFile with
    | true =>
      simp only [Run.succeedFetch, Run.modifySource, if_true, List.getElem?_map] at hj
      obtain ⟨old, _, rfl⟩ := Option.map_eq_some_iff.mp hj
      exact .inr (.inl rfl)
    | false =>
      obtain ⟨old, hold, ⟨_, rfl⟩ | ⟨hne, rfl⟩⟩ := Run.getElem?_modifyChunk hj
      · exact .inr (.inl rfl)
      · exact .inl ⟨_, hold, rfl, fun _ _ => .inr hne⟩
  | save =>
    refine .inl ⟨c, hj, rfl, ?_⟩
    intro stage hstage
    split at hstage <;> cases hstage

theorem Fetch.Step.not_saving (h : Step content s r f chunk source a s' r' result)
    {patch : ChunkPatch} {threw : Bool} (hstage : f.stage = .saving patch threw)
    (stage : FetchStage) : result ≠ .goes stage := by
  cases h with
  | answer h | piece h | write h | writeNowhere h => simp [hstage] at h
  | fails _ h => exact absurd hstage (h patch threw)
  | succeeds h =>
    have := h.at
    rw [hstage] at this
    cases this
  | save =>
    split <;> nofun

/-- A fetch that returns was recorded, and its chunk may be asked for again. -/
theorem Fetch.Step.returned (h : Step content s r f chunk source a s' r' result)
    (hresult : result = .returned) : ∃ patch threw, f.stage = .saving patch threw ∧
      (threw = true → chunk.state ≠ .FAILED) ∧ r'.plan = r.plan := by
  cases h with
  | @save patch threw hstage =>
    refine ⟨patch, threw, hstage, fun hthrew hstate => ?_, rfl⟩
    rw [if_pos ⟨hthrew, hstate⟩] at hresult
    cases hresult
  | fails => simp [Run.failFetch] at hresult
  | succeeds => simp [Run.succeedFetch] at hresult
  | answer | piece | write | writeNowhere => cases hresult

/-- **Fetch**: a chunk that fails is left to the worker it failed for. -/
theorem Run.Tended.work (hw : r.workers[w]? = some (.fetching f))
    (hchunk : r.plan.chunks[f.chunk]? = some chunk)
    (hfetch : Fetch.Step content s r f chunk source a s' r' result) (hgoes : result ≠ .threw)
    (h : ∀ (j : ℕ) (c : PlannedChunk), r.plan.chunks[j]? = some c → r.Tended j c.state)
    {c : PlannedChunk} (hj : r'.plan.chunks[j]? = some c) :
    (r'.settleWork w f result).Tended j c.state := by
  have hworkers := hfetch.alike.workers
  cases result with
  | threw => exact absurd rfl hgoes
  | goes stage =>
    have hset : (r'.settleWork w f (.goes stage)).workers =
        r.workers.set w (.fetching { f with stage := stage }) := by
      rw [← hworkers]
      rfl
    obtain ⟨old, hold, hstate, hstage⟩ | hdone | ⟨rfl, hstate, patch, hgoes⟩ := hfetch.chunks hj
    · rw [hstate]
      refine (h j old hold).set hw hset nofun (fun g hg hgj _ _ => ?_)
        (fun g patch hg hgj _ hs => ?_)
      · cases hg
        obtain hstage | hne := hstage stage rfl
        · exact hgj ▸ tended_fetching { f with stage := stage } hw hset hstage
        · exact absurd hgj.symm hne
      · -- What is being recorded does not go on.
        cases hg
        exact absurd rfl (hfetch.not_saving hs stage)
    · rw [hdone]
      trivial
    · cases hgoes
      have hat : (r'.settleWork w f (.goes (.saving patch true))).workers[w]? =
          some (.fetching { f with stage := .saving patch true }) := by
        rw [hset, Engine.getElem?_set_of hw, if_pos rfl]
      obtain hstate | hstate := hstate
      · rw [hstate]
        exact ⟨w, _, patch, hat, rfl, rfl⟩
      · rw [hstate]
        exact ⟨w, _, hat, nofun⟩
  | returned =>
    have hset : (r'.settleWork w f .returned).workers = r.workers.set w .looping := by
      rw [← hworkers]
      rfl
    obtain ⟨patch, threw, hstage, hthrew, hold⟩ := hfetch.returned rfl
    rw [hold] at hj
    refine (h j c hj).set hw hset nofun (fun g hg _ _ hs => ?_) (fun g p hg hgj hstate hs => ?_)
    · cases hg
      exact absurd hstage (hs patch threw)
    · -- A chunk that has failed too often makes the fetch throw.
      cases hg
      subst hgj
      obtain rfl := Option.some.inj (hchunk.symm.trans hj)
      rw [hstage] at hs
      cases hs
      exact absurd hstate (hthrew rfl)

/-- **Worker**: its fetch goes on. -/
theorem Run.Tends.work (h : r.Tends) (hw : r.workers[w]? = some (.fetching f))
    (hchunk : r.plan.chunks[f.chunk]? = some chunk)
    (hfetch : Fetch.Step content s r f chunk source a s' r' result) :
    (r'.settleWork w f result).Tends := by
  have hsame := hfetch.alike
  have hphase := r'.phase_settleWork w f result
  rw [hsame.phase] at hphase
  refine ⟨fun hbefore => ?_, fun hdownloading hcancelling hpausing j c hj => ?_⟩
  · exfalso
    obtain hphase | ⟨_, hphase⟩ := hphase
    · rw [hphase] at hbefore
      simp [(h.before hbefore).1] at hw
    · rw [hphase] at hbefore
      cases hbefore
  · have hsettled := r'.alike_settleWork w f result
    have hdown : r.phase = .downloading := by
      obtain hphase | ⟨_, hphase⟩ := hphase
      · exact hphase.symm.trans hdownloading
      · rw [hphase] at hdownloading
        cases hdownloading
    have hgoes : result ≠ .threw := by
      rintro rfl
      simp [Run.settleWork, Run.threw, hsame.phase, hdown] at hdownloading
    have htended := h.tended hdown
      ((hsettled.cancelling.trans hsame.cancelling).symm.trans hcancelling)
      ((hsettled.pausing.trans hsame.pausing).symm.trans hpausing)
    refine Run.Tended.work hw hchunk hfetch hgoes htended ?_
    cases result with
    | goes | returned => exact hj
    | threw => exact absurd rfl hgoes

theorem Run.tends_of_phase (hbefore : r.phase.before = false) (hphase : r.phase ≠ .downloading) :
    r.Tends :=
  ⟨fun h => by simp [hbefore] at h, fun h => absurd h hphase⟩

/-- **Main thread**: it hands the chunks of its plan to the workers. -/
theorem Run.Tends.step {hash : List UInt8 → String} {act : RunAct} {effect : Effect} (h : r.Tends)
    (hs : Run.Step hash s r act s' r' effect) : r'.Tends := by
  have hkeep : r.phase.before = true → r'.workers = r.workers → r'.plan = r.plan →
      r'.phase ≠ .downloading → r'.Tends := fun hbefore hworkers hplan hphase =>
    ⟨fun _ => by rw [hworkers, hplan]; exact h.before hbefore, fun hd => absurd hd hphase⟩
  cases hs with
  | load hphase | prepared hphase | inserted hphase | insert hphase | «open» hphase =>
    exact hkeep (by rw [hphase]; rfl) rfl rfl nofun
  | persist hphase =>
    refine hkeep (by rw [hphase]; rfl) rfl rfl ?_
    simp only
    split <;> nofun
  | @setLoad state hphase =>
    refine ⟨fun hbefore => h.before ?_, nofun⟩
    rw [hphase]
    cases state <;> first | rfl | cases hbefore
  | @setSave state copy hphase =>
    by_cases hearly : state = .CONNECTING ∨ state = .DOWNLOADING
    · obtain ⟨hworkers, hchunks⟩ := h.before (by rw [hphase]; obtain rfl | rfl := hearly <;> rfl)
      obtain rfl | rfl := hearly
      · exact ⟨fun _ => ⟨hworkers, hchunks⟩, nofun⟩
      · -- There is at least one worker.
        refine ⟨nofun, fun _ _ _ j chunk hj => ?_⟩
        obtain hstate | hstate := hchunks chunk (List.mem_of_getElem? hj)
        · rw [hstate]
          refine ⟨0, .looping, ?_, nofun⟩
          have : 0 < workerCount r.settings r.sources r.plan.chunks.length := by
            unfold workerCount
            simp only
            omega
          simp [Run.after, this]
        · rw [hstate]
          trivial
    · obtain ⟨hconnecting, hdownloading⟩ := not_or.mp hearly
      apply tends_of_phase
      · cases state <;> first | rfl | exact absurd rfl hconnecting
      · cases state <;> first | exact absurd rfl hdownloading | exact nofun
  | plan hphase =>
    refine ⟨fun _ => ⟨(h.before (by rw [hphase]; rfl)).1, fun chunk hchunk => ?_⟩, nofun⟩
    obtain ⟨planned, hplanned, _, hstate⟩ := mem_adoptPieceChecksums hchunk
    rw [← hstate]
    exact planChunks_state hplanned
  | @assign rest =>
    apply tends_of_phase
    · obtain h | ⟨_, h⟩ | ⟨_, _, h⟩ := r.phase_assign rest <;> rw [h] <;> rfl
    · obtain h | ⟨_, h⟩ | ⟨_, _, h⟩ := r.phase_assign rest <;> rw [h] <;> nofun
  | @placeStops reason | @stops reason =>
    apply tends_of_phase
    · cases reason <;> rfl
    · cases reason <;> nofun
  | _ => exact tends_of_phase rfl nofun

end

/-! ### Runs -/

namespace Engine

variable {content : ServiceId → List UInt8} {hash : List UInt8 → String}

theorem Step.draining {e e' : Engine} {a : Act} (hs : Step content hash e a e')
    (h : e'.draining = false) (hrestart : ∀ queuePaused, a ≠ .restart queuePaused) :
    e.draining = false := by
  cases hs with
  | restart queuePaused => exact absurd rfl (hrestart queuePaused)
  | drain | drainRun => cases h
  | _ => simpa using h

/-- **Step**: unless the process is stopping, somebody sees to the chunks of every download. -/
theorem Step.tends {e e' : Engine} {a : Act} (hs : Step content hash e a e')
    (h : e.draining = false → ∀ r ∈ e.runs, r.Tends) :
    e'.draining = false → ∀ r ∈ e'.runs, r.Tends := by
  intro hdraining
  by_cases hrestart : ∃ queuePaused, a = .restart queuePaused
  · obtain ⟨queuePaused, rfl⟩ := hrestart
    cases hs
    simp
  have hbefore := hs.draining hdraining (not_exists.mp hrestart)
  refine hs.forall_runs (P := fun _ r => r.Tends) (h hbefore) (fun _ _ _ _ h => h)
    (fun _ => ⟨fun _ => ⟨rfl, nofun⟩, nofun⟩) ?pause ?cancel ?flush ?run ?turn ?work ?refetch
  case pause => exact fun r h => ⟨h.before, fun _ _ hpausing => by cases hpausing⟩
  case cancel => exact fun r _ h => ⟨h.before, fun _ hcancelling => by cases hcancelling⟩
  case flush => exact fun r _ h => ⟨h.before, h.tended⟩
  case run => exact fun k act r r' effect _ _ h hstep => h.step hstep
  case turn =>
    intro r w h hw
    rw [hbefore]
    exact h.turn hw
  case work =>
    intro k act r r' w f chunk source result _ _ h hw hchunk _ hfetch
    exact h.work hw hchunk hfetch
  case refetch =>
    intro k act r r' f rest chunk source result _ _ _ _ _ _ _
    cases result <;> exact Run.tends_of_phase rfl nofun

end Engine

end MediaCenterSync.TransferEngine
