import MediaCenterSync.TransferEngine.Correct.Engine

/-!
# The size a run takes

The size of a transfer is the stored one, else the first a source reports, else zero.  Nothing
compares it with what the other sources report or with where the stored chunks end:
`planMatchesSize` says it, and is never called.  And a run nobody knows the size of plans no chunk,
finds a file of zero bytes and is done.

`KnowsSize` is the condition on the one step that plans: somebody knows the size, and every source
that reports one agrees with it and with the stored chunks.  Then no chunk comes from a file of
another size, and a run that is done knew its size (`sizesAgree_of_knowsSize`).
-/

namespace MediaCenterSync.TransferEngine

open LabelledRun

/-! ### Specification -/

def Run.Feeds (r : Run) (source : RuntimeSource) : Prop :=
  (∃ f, .fetching f ∈ r.workers ∧ r.sources[f.source]? = some source) ∨
    ∃ f rest, r.phase = .refetching f rest ∧ r.sources[f.source]? = some source

def SizeUnknown (transfer : Row) (sources : List RuntimeSource) : Prop :=
  transfer.bytesTotal = 0 ∧ ∀ source ∈ sources, source.capabilities.totalBytes = none

instance (transfer : Row) (sources : List RuntimeSource) :
    Decidable (SizeUnknown transfer sources) := inferInstanceAs (Decidable (_ ∧ _))

/-- No source of another size feeds the run, and a run of unknown size is not done. -/
structure SizesAgree (r : Run) : Prop where
  feeds : ∀ source, r.Feeds source → ∀ n, source.capabilities.totalBytes = some n →
    n = r.plan.bytesTotal ∧ planMatchesSize r.plan n = true
  known : r.transfer.state = .DONE → ¬ SizeUnknown r.transfer r.sources

/-- When a run plans, somebody knows the size, and nobody reports another one. -/
def Engine.KnowsSize (e : Engine) : Engine.Act → Prop
  | .run k .next => ∀ r ∈ e.runs[k]?, r.phase = .planning →
      ¬ SizeUnknown r.transfer r.sources ∧ ∀ source ∈ r.sources,
        ∀ n ∈ source.capabilities.totalBytes, n = totalBytes r.transfer r.sources ∧
          (e.store.chunkRows ≠ [] → planMatchesSize (resumePlan n e.store.chunkRows) n = true)
  | _ => True

instance (e : Engine) (a : Engine.Act) : Decidable (e.KnowsSize a) := by
  unfold Engine.KnowsSize
  split <;> infer_instance

/-! ### Plans -/

theorem getLast_layOut {size chunkSize : ℕ} (hpos : 0 < chunkSize) :
    ∀ (fuel start index : ℕ), start < size → size ≤ start + fuel →
      ∃ chunk, (layOut size chunkSize fuel start index).getLast? = some chunk ∧
        chunk.last + 1 = size
  | 0, start, index => by
    intro hstart hfuel
    omega
  | fuel + 1, start, index => by
    intro hstart hfuel
    rw [layOut, if_pos hstart]
    by_cases hlast : start + chunkSize < size
    · obtain ⟨chunk, hchunk, hsize⟩ :=
        getLast_layOut hpos fuel (start + chunkSize) (index + 1) hlast (by omega)
      exact ⟨chunk, by rw [List.getLast?_cons, hchunk]; rfl, hsize⟩
    · -- The last chunk ends where the file does.
      refine ⟨_, by rw [List.getLast?_cons], ?_⟩
      cases fuel with
      | zero => simp only [layOut, List.getLast?_nil, Option.getD_none]; omega
      | succ fuel =>
        rw [layOut, if_neg hlast]
        simp only [List.getLast?_nil, Option.getD_none]
        omega

theorem planMatchesSize_new (n configuredChunkSize : ℕ) :
    planMatchesSize (planChunks n configuredChunkSize []) n = true := by
  have hpos := resolveChunkSize_pos n configuredChunkSize
  by_cases hn : 0 < n
  · obtain ⟨chunk, hchunk, hsize⟩ := getLast_layOut hpos n 0 0 hn (by omega)
    simp only [planMatchesSize, planChunks, ne_eq, not_true_eq_false, if_false, hchunk, hsize,
      decide_true]
  · obtain rfl : n = 0 := by omega
    rfl

theorem planMatchesSize_congr {plan plan' : ChunkPlan} (n : ℕ)
    (h : plan'.chunks.map (·.range) = plan.chunks.map (·.range)) :
    planMatchesSize plan' n = planMatchesSize plan n := by
  have hlast := congrArg List.getLast? h
  rw [List.getLast?_map, List.getLast?_map] at hlast
  unfold planMatchesSize
  cases hp : plan.chunks.getLast? with
  | none =>
    rw [hp, Option.map_none, Option.map_eq_none_iff] at hlast
    rw [hlast]
  | some chunk =>
    rw [hp, Option.map_some] at hlast
    obtain ⟨chunk', hchunk', hrange⟩ := Option.map_eq_some_iff.mp hlast
    rw [hchunk']
    simp only [PlannedChunk.range, Prod.mk.injEq] at hrange
    simp only [hrange.2.1]

/-! ### The invariant -/

/-- A run without a plan. -/
structure Run.Unplanned (r : Run) : Prop where
  workers : r.workers = []
  state : r.transfer.state ≠ .DONE
  phase : r.phase.unplanned = true ∨ r.phase.over = true

/-- A run whose sources agree with its plan. -/
structure Run.Sized (r : Run) : Prop where
  phase : r.phase.unplanned = false
  known : ¬ (r.transfer.bytesTotal = 0 ∧
    ∀ c ∈ r.sources.map (·.capabilities), c.totalBytes = none)
  agree : ∀ c ∈ r.sources.map (·.capabilities), ∀ n, c.totalBytes = some n →
    n = r.plan.bytesTotal ∧ planMatchesSize r.plan n = true

theorem Run.Sized.congr {r r' : Run} (h : r.Sized) (hphase : r'.phase.unplanned = false)
    (htransfer : r'.transfer.bytesTotal = r.transfer.bytesTotal)
    (htotal : r'.plan.bytesTotal = r.plan.bytesTotal)
    (hranges : r'.plan.chunks.map (·.range) = r.plan.chunks.map (·.range))
    (hcapabilities : r'.sources.map (·.capabilities) = r.sources.map (·.capabilities)) :
    r'.Sized := by
  refine ⟨hphase, ?_, ?_⟩
  · rw [htransfer, hcapabilities]
    exact h.known
  · rw [hcapabilities, htotal]
    intro c hc n hn
    rw [planMatchesSize_congr n hranges]
    exact h.agree c hc n hn

theorem Run.Alike.sized {r r' : Run} (h : r.Alike r') (hr : r.Sized) : r'.Sized :=
  hr.congr (by rw [h.phase]; exact hr.phase) (by rw [h.transfer]) h.bytesTotal h.ranges
    h.capabilities

theorem Run.Sized.sizesAgree {r : Run} (h : r.Sized) : SizesAgree r where
  feeds source hfeeds n hn := by
    obtain ⟨f, _, hsource⟩ | ⟨f, rest, _, hsource⟩ := hfeeds
    · exact h.agree _ (List.mem_map_of_mem (List.mem_of_getElem? hsource)) n hn
    · exact h.agree _ (List.mem_map_of_mem (List.mem_of_getElem? hsource)) n hn
  known _ hunknown := by
    refine h.known ⟨hunknown.1, fun c hc => ?_⟩
    obtain ⟨source, hsource, rfl⟩ := List.mem_map.mp hc
    exact hunknown.2 source hsource

theorem Run.Unplanned.sizesAgree {r : Run} (h : r.Unplanned) : SizesAgree r where
  feeds source hfeeds := by
    obtain ⟨f, hf, _⟩ | ⟨f, rest, hphase, _⟩ := hfeeds
    · simp [h.workers] at hf
    · have := h.phase
      simp [hphase, RunPhase.unplanned, RunPhase.over] at this
  known hdone := absurd hdone h.state

theorem after_unplanned (r : Run) {state : TransferState} (h : state ≠ .CONNECTING) :
    (r.after state).phase.unplanned = false := by
  cases state <;> first | rfl | exact absurd rfl h

def Run.Planned (r : Run) : Prop := r.Unplanned ∨ r.Sized

theorem Run.Planned.sizesAgree {r : Run} (h : r.Planned) : SizesAgree r :=
  h.elim Unplanned.sizesAgree Sized.sizesAgree

/-! ### Steps -/

theorem sized_plans {s : Store} {r : Run} (hknown : ¬ SizeUnknown r.transfer r.sources)
    (hagree : ∀ source ∈ r.sources, ∀ n ∈ source.capabilities.totalBytes,
      n = totalBytes r.transfer r.sources ∧
        (s.chunkRows ≠ [] → planMatchesSize (resumePlan n s.chunkRows) n = true)) :
    (r.plans s).Sized := by
  have htotal : (r.plans s).plan.bytesTotal = totalBytes r.transfer r.sources :=
    (adoptPieceChecksums_same ..).1.trans (planChunks_bytesTotal ..)
  refine ⟨rfl, ?_, ?_⟩
  · rintro ⟨hzero, hnone⟩
    have hstored : r.transfer.bytesTotal = 0 := by
      by_contra hstored
      have htake : totalBytes r.transfer r.sources = r.transfer.bytesTotal := by
        rw [totalBytes, if_pos (by omega)]
      exact hstored (by rw [← htake, ← htotal]; exact hzero)
    exact hknown ⟨hstored, fun source hsource => hnone _ (List.mem_map_of_mem hsource)⟩
  · intro c hc n hn
    obtain ⟨source, hsource, rfl⟩ := List.mem_map.mp hc
    obtain ⟨heq, hstored⟩ := hagree source hsource n hn
    refine ⟨heq.trans htotal.symm, ?_⟩
    have hranges : (r.plans s).plan.chunks.map (·.range) =
        (planChunks n r.settings.chunkSize s.chunkRows).chunks.map (·.range) := by
      have hsame := congrArg (List.map Prod.fst) (adoptPieceChecksums_same
        (planChunks (totalBytes r.transfer r.sources) r.settings.chunkSize s.chunkRows)
        r.sources).2
      simp only [List.map_map, Function.comp_def] at hsame
      rw [heq]
      exact hsame
    rw [planMatchesSize_congr n hranges]
    by_cases hrows : s.chunkRows = []
    · rw [hrows]
      exact planMatchesSize_new n _
    · rw [planChunks, if_pos hrows]
      exact hstored hrows

/-- **Main thread**: the plan is made with a known size, and stays. -/
theorem Run.Planned.step {hash : List UInt8 → String} {s s' : Store} {r r' : Run} {a : RunAct}
    {effect : Effect} (h : r.Planned) (hs : Run.Step hash s r a s' r' effect)
    (ho : a = .next → r.phase = .planning → ¬ SizeUnknown r.transfer r.sources ∧
      ∀ source ∈ r.sources, ∀ n ∈ source.capabilities.totalBytes,
        n = totalBytes r.transfer r.sources ∧
          (s.chunkRows ≠ [] → planMatchesSize (resumePlan n s.chunkRows) n = true)) :
    r'.Planned := by
  obtain ⟨hworkers, hstate, hphases⟩ | hsized := h
  · -- Not planned yet: only the plan itself ends that.
    cases hs with
    | plan hphase =>
      obtain ⟨hknown, hagree⟩ := ho rfl hphase
      exact .inr (sized_plans hknown hagree)
    | load _ _ hdone => exact .inl ⟨hworkers, hdone, .inl rfl⟩
    | @setLoad state hphase =>
      refine .inl ⟨hworkers, hstate, .inl ?_⟩
      rw [hphase] at hphases
      cases state <;> simp_all [RunPhase.unplanned, RunPhase.over]
    | @setSave state copy hphase =>
      rw [hphase] at hphases
      obtain rfl : state = .CONNECTING := by
        cases state <;> simp_all [RunPhase.unplanned, RunPhase.over]
      exact .inl ⟨hworkers, hstate, .inl rfl⟩
    | noSource => exact .inl ⟨hworkers, nofun, .inr rfl⟩
    | prepared => exact .inl ⟨hworkers, hstate, .inl rfl⟩
    | loadEnded | fails | catchLoad | close | fail | throws | insertFails =>
      exact .inl ⟨hworkers, hstate, .inr rfl⟩
    | persist hphase | inserted hphase | insert hphase | «open» hphase | downloadedCancel hphase
    | downloadedPause hphase | downloaded hphase | cancelLoad hphase | cancelSave hphase
    | cancelRemove hphase | verified hphase | repair hphase | giveUp hphase | assign hphase
    | placeStops hphase | place hphase | finish hphase | moved hphase | stops hphase =>
      simp [hphase, RunPhase.unplanned, RunPhase.over] at hphases
  · -- Planned: no step changes the sizes, and none goes back.
    have hphases := hsized.phase
    cases hs with
    | loadEnded hphase | load hphase | plan hphase | noSource hphase | prepared hphase =>
      simp [hphase, RunPhase.unplanned] at hphases
    | @setLoad state hphase =>
      rw [hphase] at hphases
      refine .inr (hsized.congr ?_ rfl rfl rfl rfl)
      cases state <;> simp_all [RunPhase.unplanned]
    | @setSave state copy hphase =>
      rw [hphase] at hphases
      have hne : state ≠ .CONNECTING := by
        rintro rfl
        cases hphases
      refine .inr (hsized.congr (after_unplanned r hne) ?_ ?_ ?_ ?_) <;> cases state <;> rfl
    | persist =>
      refine .inr (hsized.congr ?_ rfl rfl rfl rfl)
      simp only
      split <;> rfl
    | @assign rest =>
      have hsame := r.alike_assign rest
      refine .inr (hsized.congr ?_ (congrArg _ hsame.transfer) hsame.bytesTotal hsame.ranges
        hsame.capabilities)
      obtain h | ⟨_, h⟩ | ⟨_, _, h⟩ := r.phase_assign rest <;> rw [h] <;> rfl
    | @placeStops reason | @stops reason =>
      refine .inr (hsized.congr ?_ ?_ ?_ ?_ ?_) <;> cases reason <;> rfl
    | _ => exact .inr (hsized.congr rfl rfl rfl rfl rfl)

/-- **Workers** take part in runs that have a plan, and leave it as it is. -/
theorem Run.Sized.of_alike {r r' : Run} (h : r.Sized)
    (hsame : r.Alike { r' with phase := r.phase, workers := r.workers })
    (hphase : r'.phase = r.phase ∨ r.phase = .downloading ∧ r'.phase = .catching none) :
    r'.Sized := by
  refine h.congr ?_ (congrArg _ hsame.transfer) hsame.bytesTotal hsame.ranges hsame.capabilities
  obtain hphase | ⟨_, hphase⟩ := hphase
  · rw [hphase]
    exact h.phase
  · rw [hphase]
    rfl

namespace Engine

/-- **Sizes agree** in every run, when every plan is made with a known size. -/
theorem sizesAgree_of_knowsSize {content : ServiceId → List UInt8} {hash : List UInt8 → String}
    {store : Store} {as : List Act} {e : Engine}
    (h : LabelledRun.Run (step content hash) KnowsSize (boot store) as e) :
    ∀ r ∈ e.runs, SizesAgree r := by
  suffices hplanned : ∀ r ∈ e.runs, r.Planned from fun r hr => (hplanned r hr).sizesAgree
  refine h.invariant (I := fun e => ∀ r ∈ e.runs, r.Planned) ?_ (by simp [boot])
  intro e a e' hi ho hs
  refine (Step.of_step hs).forall_runs (P := fun _ r => r.Planned) hi (fun _ _ _ _ h => h)
    (fun _ => .inl ⟨rfl, (by rintro ⟨⟩), .inl rfl⟩) ?pause ?cancel ?flush ?run ?turn ?work ?refetch
  case pause =>
    exact fun r h => h.imp (fun h => ⟨h.workers, h.state, h.phase⟩) fun h =>
      ⟨h.phase, h.known, h.agree⟩
  case cancel =>
    exact fun r _ h => h.imp (fun h => ⟨h.workers, h.state, h.phase⟩) fun h =>
      ⟨h.phase, h.known, h.agree⟩
  case flush =>
    exact fun r _ h => h.imp (fun h => ⟨h.workers, h.state, h.phase⟩) fun h =>
      ⟨h.phase, h.known, h.agree⟩
  case run =>
    rintro k act r r' effect rfl hr hplanned hstep
    refine hplanned.step hstep ?_
    rintro rfl hphase
    exact ho r hr hphase
  case turn =>
    rintro r w (hun | hsized) hw
    · simp [hun.workers] at hw
    · exact .inr (hsized.of_alike (r.alike_turn ..) (r.phase_turn ..))
  case work =>
    rintro k act r r' w f chunk source result - - (hun | hsized) hw - - hfetch
    · simp [hun.workers] at hw
    · exact .inr ((hfetch.alike.sized hsized).of_alike (r'.alike_settleWork ..)
        (r'.phase_settleWork ..))
  case refetch =>
    rintro k act r r' f rest chunk source result - - (hun | hsized) hphase - - hfetch
    · have := hun.phase
      simp [hphase, RunPhase.unplanned, RunPhase.over] at this
    · have hsized' := hfetch.alike.sized hsized
      refine .inr (hsized'.congr ?_ ?_ ?_ ?_ ?_) <;> cases result <;> rfl

def knownSize : List Act :=
  started ++ untilDownloading (some 3) 1 ++ oneFetch false 3 ++ [.work 0 0 none] ++ untilPlaced

def unknownSize : List Act :=
  started ++ untilDownloading none 0 ++ [.work 0 0 none] ++ untilPlaced

theorem sizesAgree_of_knowsSize_threeBytes :
    ∃ e, LabelledRun.exec (step threeBytes noHash) KnowsSize (boot freshStore) knownSize = some e ∧
      ∀ r ∈ e.runs, SizesAgree r := by
  have hrun : (LabelledRun.exec (step threeBytes noHash) KnowsSize (boot freshStore)
    knownSize).isSome := by decide
  obtain ⟨e, he⟩ := Option.isSome_iff_exists.mp hrun
  exact ⟨e, he, sizesAgree_of_knowsSize (.ofExec he)⟩

/-- An empty file is placed for a source of unknown length. -/
theorem sizesAgree_fails : ¬ ∀ (content : ServiceId → List UInt8) (hash : List UInt8 → String)
    (store : Store) (as : List Act) (e : Engine),
    LabelledRun.Run (step content hash) LabelledRun.Free (boot store) as e →
    ∀ r ∈ e.runs, SizesAgree r := by
  intro h
  have hagree := h threeBytes noHash freshStore unknownSize
    ((LabelledRun.exec (step threeBytes noHash) LabelledRun.Free (boot freshStore) unknownSize).get
      (by decide)) (.ofExec (Option.some_get _).symm)
  have hdone : ∃ r ∈ ((LabelledRun.exec (step threeBytes noHash) LabelledRun.Free (boot freshStore)
      unknownSize).get (by decide)).runs,
      r.transfer.state = .DONE ∧ SizeUnknown r.transfer r.sources := by decide
  obtain ⟨r, hr, hstate, hunknown⟩ := hdone
  exact (hagree r hr).known hstate hunknown

end Engine

end MediaCenterSync.TransferEngine
