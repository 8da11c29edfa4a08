import MediaCenterSync.Lib.LabelledRun
import MediaCenterSync.TransferEngine.Correct.Run
import MediaCenterSync.TransferEngine.Engine

/-!
# Everything that can happen to a transfer

One relation for the steps of the engine (`Engine.Step`), and the invariant everything else rests
on: when a call of `enqueue` pushes only what is still nowhere in the engine (`TestHolds`), a
transfer has one run at a time (`Exclusive`).
-/

namespace MediaCenterSync.TransferEngine

namespace Engine

/-! ### Steps -/

inductive Step (content : ServiceId → List UInt8) (hash : List UInt8 → String) (e : Engine) :
    Act → Engine → Prop
  | issue (operation : Operation) : Step content hash e (.issue operation) (e.issue operation)
  | call {i : ℕ} {call : Call} {s : Store} {result : CallResult} : e.calls[i]? = some call →
      call.step hash e.store = some (s, result) →
      Step content hash e (.call i) ({ e with store := s }.settle i result)
  | hold {i : ℕ} : e.calls[i]? = some .enqueue →
      Step content hash e (.settings i true)
        { e with calls := e.calls.set i (.setState .enqueue none) }
  | push {i : ℕ} : e.calls[i]? = some .enqueue →
      Step content hash e (.settings i false)
        { e with calls := e.calls.eraseIdx i, queued := e.queued + 1 }
  | start {settings : Settings} : 0 < e.queued →
      Step content hash e (.start settings)
        { e with
          queued := e.queued - 1, starting := true, runs := e.runs ++ [Run.boot settings] }
  | run {k : ℕ} {a : RunAct} {r r' : Run} {s : Store} {effect : Effect} : e.runs[k]? = some r →
      Run.Step hash e.store r a s r' effect →
      Step content hash e (.run k a) ({ e with store := s, runs := e.runs.set k r' }.apply k effect)
  | turn {k w : ℕ} {r : Run} : e.runs[k]? = some r → r.workers[w]? = some .looping →
      Step content hash e (.work k w none) { e with runs := e.runs.set k (r.turn e.draining w) }
  | work {k w : ℕ} {a : FetchAct} {r r' : Run} {f : Fetch} {chunk : PlannedChunk}
      {source : RuntimeSource} {s : Store} {result : FetchResult} : e.runs[k]? = some r →
      r.workers[w]? = some (.fetching f) → r.plan.chunks[f.chunk]? = some chunk →
      r.sources[f.source]? = some source →
      Fetch.Step content e.store r f chunk source a s r' result →
      Step content hash e (.work k w (some a))
        { e with store := s, runs := e.runs.set k (r'.settleWork w f result) }
  | refetch {k : ℕ} {a : FetchAct} {r r' : Run} {f : Fetch} {rest : List RepairAssignment}
      {chunk : PlannedChunk} {source : RuntimeSource} {s : Store} {result : FetchResult} :
      e.runs[k]? = some r → r.phase = .refetching f rest → r.plan.chunks[f.chunk]? = some chunk →
      r.sources[f.source]? = some source →
      Fetch.Step content e.store r f chunk source a s r' result →
      Step content hash e (.refetch k a)
        { e with store := s, runs := e.runs.set k (r'.settleRefetch f rest result) }
  | flush {k : ℕ} {r : Run} : e.runs[k]? = some r → 0 < r.saves →
      Step content hash e (.flush k)
        { e with
          store := { e.store with row := r.transfer }
          runs := e.runs.set k { r with saves := r.saves - 1 } }
  | drainRun {k : ℕ} : e.registered = some k →
      Step content hash e .drain { e with draining := true, runs := e.runs.modify k pauseRun }
  | drain : e.registered = none → Step content hash e .drain { e with draining := true }
  | restart (queuePaused : Bool) :
      Step content hash e (.restart queuePaused) (e.restart queuePaused)

variable {content : ServiceId → List UInt8} {hash : List UInt8 → String} {e e' : Engine}

/-- **Inversion**: every step is one of these. -/
theorem Step.of_step {a : Act} (h : e.step content hash a = some e') :
    Step content hash e a e' := by
  cases a with
  | issue operation =>
    cases h
    exact .issue operation
  | call i =>
    obtain ⟨call, hcall, h⟩ := Option.bind_eq_some_iff.mp h
    obtain ⟨⟨s, result⟩, hstep, h⟩ := Option.bind_eq_some_iff.mp h
    cases h
    exact .call hcall hstep
  | settings i queuePaused =>
    simp only [step] at h
    split at h
    · rename_i hcall
      cases queuePaused with
      | true =>
        cases h
        exact .hold hcall
      | false =>
        cases h
        exact .push hcall
    · cases h
  | start settings =>
    simp only [step] at h
    split at h
    · rename_i hqueued
      cases h
      exact .start hqueued
    · cases h
  | run k a =>
    obtain ⟨r, hr, h⟩ := Option.bind_eq_some_iff.mp h
    obtain ⟨⟨s, r', effect⟩, hstep, h⟩ := Option.bind_eq_some_iff.mp h
    cases h
    exact .run hr (.of_step hstep)
  | work k w a =>
    obtain ⟨r, hr, h⟩ := Option.bind_eq_some_iff.mp h
    obtain ⟨⟨s, r'⟩, hstep, h⟩ := Option.bind_eq_some_iff.mp h
    cases h
    cases a with
    | none =>
      simp only [Run.work] at hstep
      split at hstep
      · rename_i hlooping
        cases hstep
        exact .turn hr hlooping
      · cases hstep
    | some a =>
      simp only [Run.work] at hstep
      split at hstep
      · rename_i f hfetching
        obtain ⟨chunk, hchunk, h⟩ := Option.bind_eq_some_iff.mp hstep
        obtain ⟨source, hsource, h⟩ := Option.bind_eq_some_iff.mp h
        obtain ⟨⟨s, r', result⟩, hfetch, h⟩ := Option.bind_eq_some_iff.mp h
        cases h
        exact .work hr hfetching hchunk hsource (.of_step hfetch)
      · cases hstep
  | refetch k a =>
    obtain ⟨r, hr, h⟩ := Option.bind_eq_some_iff.mp h
    obtain ⟨⟨s, r'⟩, hstep, h⟩ := Option.bind_eq_some_iff.mp h
    cases h
    simp only [Run.refetch] at hstep
    split at hstep
    · rename_i f rest hphase
      obtain ⟨chunk, hchunk, h⟩ := Option.bind_eq_some_iff.mp hstep
      obtain ⟨source, hsource, h⟩ := Option.bind_eq_some_iff.mp h
      obtain ⟨⟨s, r', result⟩, hfetch, h⟩ := Option.bind_eq_some_iff.mp h
      cases h
      exact .refetch hr hphase hchunk hsource (.of_step hfetch)
    · cases hstep
  | flush k =>
    obtain ⟨r, hr, h⟩ := Option.bind_eq_some_iff.mp h
    simp only at h
    split at h
    · rename_i hsaves
      cases h
      exact .flush hr hsaves
    · cases h
  | drain =>
    simp only [step] at h
    split at h
    · rename_i k hregistered
      cases h
      exact .drainRun hregistered
    · rename_i hregistered
      cases h
      exact .drain hregistered
  | restart queuePaused =>
    cases h
    exact .restart queuePaused

end Engine

/-! ### Calls -/

def Call.saves : Call → Option Row
  | .setState caller (some copy) => some { copy with state := caller.state }
  | .cancel kind (.save copy) => some { copy with state := .CANCELLED, errorKind := some kind }
  | .retry (.save copy) => some { copy with state := .QUEUED, errorKind := none }
  | .repair (.save copy) => some { copy with state := .REPAIRING }
  | _ => none

structure Call.Does (call : Call) (s s' : Store) : Prop where
  row : s'.row = s.row ∨ call.saves = some s'.row
  /-- Rows go, and rows are marked, but none comes and none is done that was not. -/
  chunkRows : ∀ row ∈ s'.chunkRows, ∃ old ∈ s.chunkRows,
    row.start = old.start ∧ row.last = old.last ∧ (row.state = .DONE → old.state = .DONE)
  inodes : s'.inodes = s.inodes
  work : s'.work = s.work ∨ s'.work = none
  placed : s'.placed = s.placed

theorem Call.does_of_step {hash : List UInt8 → String} {s s' : Store} {call : Call}
    {result : CallResult} (h : call.step hash s = some (s', result)) : call.Does s s' := by
  have hsame : call.Does s s :=
    ⟨.inl rfl, fun row h => ⟨row, h, rfl, rfl, id⟩, rfl, .inl rfl, rfl⟩
  unfold Call.step at h
  split at h
  · cases h
  · cases h
    exact hsame
  · cases h
    exact { hsame with row := .inr rfl }
  · rename_i kind stage
    cases stage with
    | load =>
      cases h
      exact hsame
    | save =>
      cases h
      exact { hsame with row := .inr rfl }
    | remove =>
      cases h
      exact { hsame with work := .inr rfl }
  · split at h <;> cases h <;> exact hsame
  · cases h
    exact { hsame with chunkRows := nofun }
  · cases h
    exact { hsame with row := .inr rfl }
  · cases h
    exact hsame
  · cases h
    exact hsame
  · simp only at h
    split at h <;> cases h <;> exact hsame
  · cases h
    exact hsame
  · -- A row that is marked is not done.
    cases h
    refine { hsame with chunkRows := fun row hrow => ?_ }
    obtain ⟨old, hold, rfl⟩ := List.mem_map.mp hrow
    refine ⟨old, hold, ?_⟩
    split
    · exact ⟨rfl, rfl, nofun⟩
    · exact ⟨rfl, rfl, id⟩
  · cases h
    exact { hsame with row := .inr rfl }

theorem Call.saves_state {call : Call} {row : Row} (h : call.saves = some row) :
    row.state ≠ .DONE := by
  unfold Call.saves at h
  split at h
  · rename_i caller copy
    cases h
    cases caller <;> nofun
  · cases h
    nofun
  · cases h
    nofun
  · cases h
    nofun
  · cases h

/-! ### One run at a time -/

/-- The promise of the run is not settled. -/
def Run.Live (r : Run) : Prop := r.phase ≠ .ended

theorem Run.after_live (r : Run) (state : TransferState) : (r.after state).Live := by
  cases state <;> exact nofun

theorem Run.assign_live (r : Run) (rest : List RepairAssignment) : (r.assign rest).Live := by
  unfold Live
  obtain h | ⟨_, h⟩ | ⟨_, _, h⟩ := r.phase_assign rest <;> rw [h] <;> nofun

theorem Run.stop_live (r : Run) (reason : AbortReason) : (r.stop reason).1.Live := by
  cases reason <;> exact nofun

theorem Run.Step.live {hash : List UInt8 → String} {s s' : Store} {r r' : Run} {a : RunAct}
    {effect : Effect} (h : Step hash s r a s' r' effect) :
    r.Live ∧ (effect = .finish ∧ r'.phase = .ended ∨ r'.Live ∧ effect ≠ .finish) := by
  have hlive : r.Live := by
    intro hended
    cases h with
    | loadEnded hphase | load hphase | setLoad hphase | setSave hphase | plan hphase
    | persist hphase | inserted hphase | insert hphase | insertFails hphase | «open» hphase
    | downloadedCancel hphase | downloadedPause hphase | downloaded hphase | cancelLoad hphase
    | cancelSave hphase | cancelRemove hphase | verified hphase | repair hphase | giveUp hphase
    | assign hphase | fails hphase | placeStops hphase | place hphase | finish hphase
    | catchLoad hphase | close hphase | noSource hphase | prepared hphase | moved hphase
    | stops hphase | fail hphase => simp [hended] at hphase
    | throws hphase => simp [hended] at hphase
  refine ⟨hlive, ?_⟩
  cases h with
  | close => exact .inl ⟨rfl, rfl⟩
  | setSave => exact .inr ⟨r.after_live _, nofun⟩
  | assign => exact .inr ⟨r.assign_live _, nofun⟩
  | @placeStops reason => exact .inr ⟨Run.stop_live _ _, by cases reason <;> nofun⟩
  | @stops reason => exact .inr ⟨r.stop_live _, by cases reason <;> nofun⟩
  | persist =>
    refine .inr ⟨?_, nofun⟩
    simp only [Run.Live]
    split <;> nofun
  | _ => exact .inr ⟨nofun, nofun⟩

theorem Run.Alike.live {r r' : Run} (h : r.Alike r') : r'.Live ↔ r.Live := by
  simp only [Live, h.phase]

theorem Run.live_iff_of_phase {r r' : Run}
    (h : r'.phase = r.phase ∨ r.phase = .downloading ∧ r'.phase = .catching none) :
    r'.Live ↔ r.Live := by
  obtain h | ⟨hphase, hphase'⟩ := h
  · simp only [Live, h]
  · exact ⟨fun _ => by rw [Live, hphase]; nofun, fun _ => by rw [Live, hphase']; nofun⟩

theorem Run.settleRefetch_live (r : Run) (f : Fetch) (rest : List RepairAssignment)
    (result : FetchResult) : (r.settleRefetch f rest result).Live := by
  cases result <;> exact nofun

namespace Engine

/-- The test of `enqueue` still succeeds when the settings it waited for arrive. -/
def TestHolds (e : Engine) : Act → Prop
  | .settings _ false => e.Idle
  | _ => True

instance (e : Engine) (a : Act) : Decidable (e.TestHolds a) := by
  unfold TestHolds
  split <;> infer_instance

/-- One run at a time, and none while the transfer is queued. -/
structure Exclusive (e : Engine) : Prop where
  queued : e.queued ≤ 1
  started : ∀ (k : ℕ) (r : Run), e.runs[k]? = some r → r.Live → e.starting = true ∧ e.queued = 0
  one : ∀ (k l : ℕ) (r t : Run), e.runs[k]? = some r → e.runs[l]? = some t → r.Live → t.Live → k = l
  registered : ∀ k, e.registered = some k → ∃ r, e.runs[k]? = some r ∧ r.Live

theorem exclusive_boot (store : Store) : Exclusive (boot store) :=
  ⟨by simp [boot], by simp [boot], by simp [boot], nofun⟩

/-- Nothing else of the engine matters, and of a run only whether it is live. -/
theorem Exclusive.of_runs {e e' : Engine} (h : Exclusive e) (hqueued : e'.queued ≤ e.queued)
    (hstarting : e'.starting = e.starting)
    (hruns : ∀ (k : ℕ) (r' : Run), e'.runs[k]? = some r' → r'.Live →
      ∃ r, e.runs[k]? = some r ∧ r.Live)
    (hregistered : ∀ k, e'.registered = some k → ∃ r, e'.runs[k]? = some r ∧ r.Live) :
    Exclusive e' where
  queued := hqueued.trans h.queued
  started k r' hr' hlive := by
    obtain ⟨r, hr, hlive⟩ := hruns k r' hr' hlive
    obtain ⟨hstart, hnone⟩ := h.started k r hr hlive
    exact ⟨hstarting.trans hstart, by omega⟩
  one k l r' t' hr' ht' hlive hlive' := by
    obtain ⟨r, hr, hlive⟩ := hruns k r' hr' hlive
    obtain ⟨t, ht, hlive'⟩ := hruns l t' ht' hlive'
    exact h.one k l r t hr ht hlive hlive'
  registered := hregistered

theorem getElem?_set_cases {α : Type*} {l : List α} {i j : ℕ} {a b : α}
    (h : (l.set i a)[j]? = some b) : j = i ∧ b = a ∨ j ≠ i ∧ l[j]? = some b := by
  rw [List.getElem?_set] at h
  split at h
  · rename_i hij
    split at h
    · cases h
      exact .inl ⟨hij.symm, rfl⟩
    · cases h
  · rename_i hij
    exact .inr ⟨fun h => hij h.symm, h⟩

theorem getElem?_modify_cases {α : Type*} {l : List α} {i j : ℕ} {f : α → α} {b : α}
    (h : (l.modify i f)[j]? = some b) :
    ∃ a, l[j]? = some a ∧ (j = i ∧ b = f a ∨ j ≠ i ∧ b = a) := by
  rw [List.getElem?_modify] at h
  obtain ⟨a, ha, rfl⟩ := Option.map_eq_some_iff.mp h
  refine ⟨a, ha, ?_⟩
  by_cases hij : i = j
  · exact .inl ⟨hij.symm, by simp [hij]⟩
  · exact .inr ⟨fun h => hij h.symm, by simp [hij]⟩

theorem getElem?_set_of {α : Type*} {l : List α} {i j : ℕ} {a b : α} (h : l[j]? = some b) :
    (l.set i a)[j]? = some (if i = j then a else b) := by
  have hlength := (List.getElem?_eq_some_iff.mp h).1
  rw [List.getElem?_set]
  split
  · rename_i hij
    rw [if_pos (by omega)]
  · exact h

theorem Exclusive.set {e : Engine} (h : Exclusive e) {k : ℕ} {r r' : Run} {s : Store}
    (hr : e.runs[k]? = some r) (hlive : r'.Live ↔ r.Live) :
    Exclusive { e with store := s, runs := e.runs.set k r' } := by
  refine h.of_runs le_rfl rfl (fun l t ht hl => ?_) fun l hl => ?_
  · obtain ⟨rfl, rfl⟩ | ⟨_, ht⟩ := getElem?_set_cases ht
    · exact ⟨r, hr, hlive.mp hl⟩
    · exact ⟨t, ht, hl⟩
  · obtain ⟨t, ht, hl⟩ := h.registered l hl
    refine ⟨_, getElem?_set_of ht, ?_⟩
    split
    · rename_i hkl
      subst hkl
      obtain rfl := Option.some.inj (hr.symm.trans ht)
      exact hlive.mpr hl
    · exact hl

theorem Exclusive.modify {e : Engine} (h : Exclusive e) {k : ℕ} {f : Run → Run} {draining : Bool}
    (hf : ∀ r, (f r).phase = r.phase) :
    Exclusive { e with draining := draining, runs := e.runs.modify k f } := by
  have hlive : ∀ r, (f r).Live ↔ r.Live := fun r => by simp [Run.Live, hf]
  refine h.of_runs le_rfl rfl (fun l t ht hl => ?_) fun l hl => ?_
  · obtain ⟨r, hr, ⟨_, rfl⟩ | ⟨_, rfl⟩⟩ := getElem?_modify_cases ht
    · exact ⟨r, hr, (hlive r).mp hl⟩
    · exact ⟨t, hr, hl⟩
  · obtain ⟨t, ht, hl⟩ := h.registered l hl
    refine ⟨if k = l then f t else t, by simp [List.getElem?_modify, ht], ?_⟩
    split
    · exact (hlive t).mpr hl
    · exact hl

theorem Exclusive.calls {e : Engine} (h : Exclusive e) {s : Store} {queued : ℕ} {calls : List Call}
    (hqueued : queued ≤ e.queued) :
    Exclusive { e with store := s, queued := queued, calls := calls } :=
  h.of_runs hqueued rfl (fun _ r hr hl => ⟨r, hr, hl⟩) h.registered

theorem Exclusive.enqueue {e : Engine} (h : Exclusive e) : Exclusive e.enqueue := by
  unfold Engine.enqueue
  split
  · exact h.calls le_rfl
  · exact h

theorem Exclusive.issue {e : Engine} (h : Exclusive e) (operation : Operation) :
    Exclusive (e.issue operation) := by
  cases operation with
  | enqueue => exact h.enqueue
  | pause =>
    simp only [Engine.issue]
    split
    · exact h.modify fun _ => rfl
    · exact h.calls (Nat.sub_le ..)
  | cancel kind =>
    simp only [Engine.issue]
    split
    · exact h.modify fun _ => rfl
    · exact h.calls (Nat.sub_le ..)
  | resume | retry | repair => exact h.calls le_rfl

theorem Exclusive.settle {e : Engine} (h : Exclusive e) (i : ℕ) (result : CallResult) :
    Exclusive (e.settle i result) := by
  cases result with
  | goes | returned => exact h.calls le_rfl
  | enqueues => exact Exclusive.enqueue (h.calls le_rfl)

theorem exclusive_restart (e : Engine) (queuePaused : Bool) :
    Exclusive (e.restart queuePaused) := by
  unfold Engine.restart
  simp only
  split
  · split
    · exact (exclusive_boot e.store).calls le_rfl
    · exact ⟨le_rfl, by simp [boot], by simp [boot], nofun⟩
  · exact exclusive_boot e.store

variable {content : ServiceId → List UInt8} {hash : List UInt8 → String}

/-- **One run at a time**, as long as the tests of `enqueue` hold. -/
theorem Exclusive.step {e e' : Engine} {a : Act} (h : Exclusive e) (ho : TestHolds e a)
    (hs : Step content hash e a e') : Exclusive e' := by
  cases hs with
  | issue operation => exact h.issue operation
  | call => exact Exclusive.settle (h.calls le_rfl) _ _
  | hold => exact h.calls le_rfl
  | push =>
    obtain ⟨hqueued, hstarting, hregistered⟩ := ho
    have hnone : ∀ (k : ℕ) (r : Run), e.runs[k]? = some r → ¬ r.Live := fun k r hr hl => by
      simp [(h.started k r hr hl).1] at hstarting
    refine ⟨by simp [hqueued], fun k r hr hl => absurd hl (hnone k r hr), ?_, ?_⟩
    · exact fun k l r t hr _ hl _ => absurd hl (hnone k r hr)
    · intro k hk
      simp [hregistered] at hk
  | @start settings hqueued =>
    have hnone : ∀ (k : ℕ) (r : Run), e.runs[k]? = some r → ¬ r.Live := fun k r hr hl => by
      have := (h.started k r hr hl).2
      omega
    have hnew : ∀ (k : ℕ) (r : Run), (e.runs ++ [Run.boot settings])[k]? = some r → r.Live →
        k = e.runs.length := by
      intro k r hr hl
      rw [List.getElem?_append] at hr
      split at hr
      · exact absurd hl (hnone k r hr)
      · have := (List.getElem?_eq_some_iff.mp hr).1
        simp only [List.length_singleton] at this
        omega
    refine ⟨by have := h.queued; simp only; omega, fun k r hr hl => ⟨rfl, ?_⟩, ?_, ?_⟩
    · have := h.queued
      simp only
      omega
    · exact fun k l r t hr ht hl hl' => (hnew k r hr hl).trans (hnew l t ht hl').symm
    · intro k hk
      obtain ⟨r, hr, hl⟩ := h.registered k hk
      exact absurd hl (hnone k r hr)
  | @run k a r r' s effect hr hstep =>
    obtain ⟨hlive, ⟨hfinish, hended⟩ | ⟨hlive', hstays⟩⟩ := hstep.live
    · -- The run is over, and there is no other.
      subst hfinish
      have hdead : ∀ (l : ℕ) (t : Run), (e.runs.set k r')[l]? = some t → t.Live → False := by
        intro l t ht hl
        obtain ⟨rfl, rfl⟩ | ⟨hne, ht⟩ := getElem?_set_cases ht
        · exact hl hended
        · exact hne (h.one l k t r ht hr hl hlive)
      exact ⟨h.queued, fun l t ht hl => (hdead l t ht hl).elim,
        fun l m t u ht _ hl _ => (hdead l t ht hl).elim, nofun⟩
    · have hset : Exclusive { e with store := s, runs := e.runs.set k r' } :=
        h.set hr ⟨fun _ => hlive, fun _ => hlive'⟩
      cases effect with
      | stays => exact hset
      | register =>
        refine hset.of_runs le_rfl rfl (fun _ t ht hl => ⟨t, ht, hl⟩) fun l hl => ?_
        obtain rfl : k = l := Option.some.inj hl
        exact ⟨r', by simp [getElem?_set_of hr, Engine.apply], hlive'⟩
      | leave => exact hset.of_runs (Nat.sub_le ..) rfl (fun _ t ht hl => ⟨t, ht, hl⟩) nofun
      | finish => exact absurd rfl hstays
  | turn hr => exact h.set hr (Run.live_iff_of_phase (Run.phase_turn ..))
  | work hr _ _ _ hfetch =>
    exact h.set hr ((Run.live_iff_of_phase (Run.phase_settleWork ..)).trans hfetch.alike.live)
  | @refetch k a r r' f rest chunk source s result hr hphase _ _ hfetch =>
    refine h.set hr ⟨fun _ => ?_, fun _ => r'.settleRefetch_live f rest result⟩
    rw [Run.Live, hphase]
    nofun
  | flush hr => exact h.set hr Iff.rfl
  | drainRun => exact h.modify fun _ => rfl
  | drain => exact h.of_runs le_rfl rfl (fun _ r hr hl => ⟨r, hr, hl⟩) h.registered
  | restart queuePaused => exact exclusive_restart e queuePaused

/-! ### What holds of every run -/

@[simp] theorem apply_store (e : Engine) (k : ℕ) (effect : Effect) :
    (e.apply k effect).store = e.store := by
  cases effect <;> rfl

@[simp] theorem apply_runs (e : Engine) (k : ℕ) (effect : Effect) :
    (e.apply k effect).runs = e.runs := by
  cases effect <;> rfl

@[simp] theorem enqueue_store (e : Engine) : e.enqueue.store = e.store := by
  unfold enqueue
  split <;> rfl

@[simp] theorem enqueue_runs (e : Engine) : e.enqueue.runs = e.runs := by
  unfold enqueue
  split <;> rfl

@[simp] theorem settle_store (e : Engine) (i : ℕ) (result : CallResult) :
    (e.settle i result).store = e.store := by
  cases result <;> simp [settle]

@[simp] theorem settle_runs (e : Engine) (i : ℕ) (result : CallResult) :
    (e.settle i result).runs = e.runs := by
  cases result <;> simp [settle]

@[simp] theorem issue_store (e : Engine) (operation : Operation) :
    (e.issue operation).store = e.store := by
  cases operation <;> simp only [issue, enqueue_store]
  · split <;> rfl
  · split <;> rfl

@[simp] theorem restart_store (e : Engine) (queuePaused : Bool) :
    (e.restart queuePaused).store = e.store := by
  simp only [restart]
  split
  · split <;> rfl
  · rfl

@[simp] theorem restart_runs (e : Engine) (queuePaused : Bool) :
    (e.restart queuePaused).runs = [] := by
  simp only [restart]
  split
  · split <;> rfl
  · rfl

@[simp] theorem apply_draining (e : Engine) (k : ℕ) (effect : Effect) :
    (e.apply k effect).draining = e.draining := by
  cases effect <;> rfl

@[simp] theorem enqueue_draining (e : Engine) : e.enqueue.draining = e.draining := by
  unfold enqueue
  split <;> rfl

@[simp] theorem settle_draining (e : Engine) (i : ℕ) (result : CallResult) :
    (e.settle i result).draining = e.draining := by
  cases result <;> simp [settle]

@[simp] theorem issue_draining (e : Engine) (operation : Operation) :
    (e.issue operation).draining = e.draining := by
  cases operation <;> simp only [issue, enqueue_draining]
  · split <;> rfl
  · split <;> rfl

theorem mem_issue_runs {e : Engine} {operation : Operation} {r' : Run}
    (h : r' ∈ (e.issue operation).runs) :
    r' ∈ e.runs ∨ ∃ r ∈ e.runs, r' = pauseRun r ∨ ∃ kind, r' = cancelRun kind r := by
  have hmodify : ∀ {k : ℕ} {f : Run → Run}, r' ∈ e.runs.modify k f →
      r' ∈ e.runs ∨ ∃ r ∈ e.runs, r' = f r := by
    intro k f hmem
    obtain ⟨i, hi⟩ := List.mem_iff_getElem?.mp hmem
    obtain ⟨r, hr, ⟨_, rfl⟩ | ⟨_, rfl⟩⟩ := getElem?_modify_cases hi
    · exact .inr ⟨r, List.mem_of_getElem? hr, rfl⟩
    · exact .inl (List.mem_of_getElem? hr)
  cases operation with
  | enqueue => exact .inl (by simpa [issue] using h)
  | pause =>
    simp only [issue] at h
    split at h
    · exact (hmodify h).imp_right fun ⟨r, hr, heq⟩ => ⟨r, hr, .inl heq⟩
    · exact .inl h
  | cancel kind =>
    simp only [issue] at h
    split at h
    · exact (hmodify h).imp_right fun ⟨r, hr, heq⟩ => ⟨r, hr, .inr ⟨kind, heq⟩⟩
    · exact .inl h
  | resume | retry | repair => exact .inl h

/-- The run an action is a step of. -/
def Act.of : Act → Option ℕ
  | .run k _ | .work k _ _ | .refetch k _ => some k
  | _ => none

/-- **Rule.**  What holds of every run, and the store beside it, is kept by a step when the step
keeps it for the run it is of, and the rest of the runs does not mind what the step does to the
store. -/
theorem Step.forall_runs {e e' : Engine} {a : Act} {P : Store → Run → Prop}
    (hs : Step content hash e a e') (h : ∀ r ∈ e.runs, P e.store r)
    (hkeep : ∀ k r, e.runs[k]? = some r → a.of ≠ some k → P e.store r → P e'.store r)
    (hboot : ∀ settings, P e'.store (Run.boot settings))
    (hpause : ∀ r, P e'.store r → P e'.store (pauseRun r))
    (hcancel : ∀ r kind, P e'.store r → P e'.store (cancelRun kind r))
    (hflush : ∀ r saves, P e'.store r → P e'.store { r with saves := saves })
    (hrun : ∀ k act r r' effect, a = .run k act → e.runs[k]? = some r → P e.store r →
      Run.Step hash e.store r act e'.store r' effect → P e'.store r')
    (hturn : ∀ r w, P e.store r → r.workers[w]? = some .looping →
      P e.store (r.turn e.draining w))
    (hwork : ∀ k act r r' w f chunk source result, a = .work k w (some act) →
      e.runs[k]? = some r → P e.store r → r.workers[w]? = some (.fetching f) →
      r.plan.chunks[f.chunk]? = some chunk → r.sources[f.source]? = some source →
      Fetch.Step content e.store r f chunk source act e'.store r' result →
      P e'.store (r'.settleWork w f result))
    (hrefetch : ∀ k act r r' f rest chunk source result, a = .refetch k act →
      e.runs[k]? = some r → P e.store r → r.phase = .refetching f rest →
      r.plan.chunks[f.chunk]? = some chunk → r.sources[f.source]? = some source →
      Fetch.Step content e.store r f chunk source act e'.store r' result →
      P e'.store (r'.settleRefetch f rest result)) :
    ∀ r ∈ e'.runs, P e'.store r := by
  have hall : a.of = none → ∀ r ∈ e.runs, P e'.store r := by
    intro hof r hr
    obtain ⟨i, hi⟩ := List.mem_iff_getElem?.mp hr
    exact hkeep i r hi (by simp [hof]) (h r hr)
  -- The run a step is of is replaced, the others are as before.
  have hset : ∀ {k : ℕ} {r' : Run}, a.of = some k → P e'.store r' →
      ∀ t ∈ e.runs.set k r', P e'.store t := by
    intro k r' hof hr' t ht
    obtain ⟨i, hi⟩ := List.mem_iff_getElem?.mp ht
    obtain ⟨_, rfl⟩ | ⟨hne, hi⟩ := getElem?_set_cases hi
    · exact hr'
    · refine hkeep i t hi ?_ (h t (List.mem_of_getElem? hi))
      rw [hof]
      exact fun heq => hne (Option.some.inj heq).symm
  cases hs with
  | issue operation =>
    intro r' hr'
    obtain hr | ⟨r, hr, rfl | ⟨kind, rfl⟩⟩ := mem_issue_runs hr'
    · exact hall rfl r' hr
    · exact hpause r (hall rfl r hr)
    · exact hcancel r kind (hall rfl r hr)
  | call => rw [settle_runs]; exact hall rfl
  | hold | push => exact hall rfl
  | start =>
    intro r hr
    obtain hr | hr := List.mem_append.mp hr
    · exact hall rfl r hr
    · obtain rfl := List.mem_singleton.mp hr
      exact hboot _
  | @run k a r r' s effect hr hstep =>
    rw [apply_runs]
    refine hset rfl (hrun k a r r' effect rfl hr (h r (List.mem_of_getElem? hr)) ?_)
    rwa [apply_store]
  | turn hr hlooping => exact hset rfl (hturn _ _ (h _ (List.mem_of_getElem? hr)) hlooping)
  | work hr hfetching hchunk hsource hfetch =>
    exact hset rfl (hwork _ _ _ _ _ _ _ _ _ rfl hr (h _ (List.mem_of_getElem? hr)) hfetching hchunk
      hsource hfetch)
  | refetch hr hphase hchunk hsource hfetch =>
    exact hset rfl (hrefetch _ _ _ _ _ _ _ _ _ rfl hr (h _ (List.mem_of_getElem? hr)) hphase hchunk
      hsource hfetch)
  | flush hr =>
    intro t ht
    obtain ht | rfl := List.mem_or_eq_of_mem_set ht
    · exact hall rfl t ht
    · exact hflush _ _ (hall rfl _ (List.mem_of_getElem? hr))
  | drainRun =>
    intro r' hr'
    obtain ⟨i, hi⟩ := List.mem_iff_getElem?.mp hr'
    obtain ⟨r, hr, ⟨_, rfl⟩ | ⟨_, rfl⟩⟩ := getElem?_modify_cases hi
    · exact hpause r (hall rfl r (List.mem_of_getElem? hr))
    · exact hall rfl r' (List.mem_of_getElem? hr)
  | drain => exact hall rfl
  | restart => simp

/-! ### A transfer of three bytes -/

def threeBytes : ServiceId → List UInt8 := fun _ => [1, 2, 3]

def noHash : List UInt8 → String := fun _ => ""

def freshStore : Store := ⟨⟨.QUEUED, none, 0⟩, [], [], none, none⟩

/-- A source that serves ranges, and may know the size of its file. -/
def rangeSource (bytes : Option ℕ) : ServiceId × TransportCapabilities :=
  ("source", ⟨true, bytes, 2, none, none⟩)

def started : List Act := [.issue .enqueue, .settings 0 false, .start ⟨0, 4⟩]

/-- From there to its download, whose plan takes so many statements. -/
def untilDownloading (bytes : Option ℕ) (statements : ℕ) : List Act :=
  [.run 0 .next, .run 0 .next, .run 0 .next, .run 0 (.prepared [rangeSource bytes]), .run 0 .next,
    .run 0 .next, .run 0 .next, .run 0 .next, .run 0 .next, .run 0 .next] ++
    List.replicate statements (.run 0 .next)

def oneFetch (wholeFile : Bool) (length : ℕ) : List Act :=
  [.work 0 0 none, .work 0 0 (some (.answer wholeFile)), .work 0 0 (some (.piece length)),
    .work 0 0 (some (.write none)), .work 0 0 (some .ended), .work 0 0 (some .save)]

/-- From a finished download to the end of the run. -/
def untilPlaced : List Act :=
  [.run 0 .next, .run 0 .next, .run 0 .next, .run 0 .next, .run 0 .next, .run 0 .next, .run 0 .next,
    .run 0 .moved, .run 0 .next, .run 0 .next]

end Engine

end MediaCenterSync.TransferEngine
