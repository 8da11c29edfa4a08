import MediaCenterSync.CatalogueCache.Service
import MediaCenterSync.Lib.LabelledRun

/-!
# A rebuild that was asked for happens

* `single_step`, `single_of_behaviour`: whatever happens, one pass at most is in flight, it is the one
  `_running` holds, and the timer is set only when there is none.
* `rebuilt_of_schedule`: in every fair run, every `schedule` is followed by the start of a pass.
* `happens_iff`: in a fair run the same holds of `refreshNow`, and it resolves only once such a pass
  has ended, exactly when it is never called while a pass is in flight.  A call made then waits for
  the pass in flight, which read its pages before: `not_happens_pressedTwice` is about such a run.

What has been asked for is either on the timer or, behind the pass in flight, in `_again`; neither
lasts in a fair run, the first can only stop by a start and the second only by the first.
-/

namespace MediaCenterSync.CatalogueCache

open LabelledRun

variable {s s' : Service} {a : Act}

namespace Service

/-! ### What the small operations leave alone -/

@[simp] theorem schedule_passes (reason : Reason) : (s.schedule reason).passes = s.passes := by
  unfold schedule; split_ifs <;> rfl

@[simp] theorem schedule_running (reason : Reason) : (s.schedule reason).running = s.running := by
  unfold schedule; split_ifs <;> rfl

@[simp] theorem schedule_started (reason : Reason) : (s.schedule reason).started = s.started := by
  unfold schedule; split_ifs <;> rfl

@[simp] theorem schedule_asked (reason : Reason) : (s.schedule reason).asked = s.asked := by
  unfold schedule; split_ifs <;> rfl

@[simp] theorem schedule_events (reason : Reason) : (s.schedule reason).events = s.events := by
  unfold schedule; split_ifs <;> rfl

theorem schedule_timer_isSome (hs : s.running = none) (reason : Reason) :
    (s.schedule reason).timer.isSome := by
  unfold schedule
  split_ifs with hrunning htimer
  · simp [hs] at hrunning
  · exact htimer
  · rfl

theorem map_id_map {f : Pass → Pass} (hf : ∀ p, (f p).id = p.id) (passes : List Pass) :
    (passes.map f).map Pass.id = passes.map Pass.id := by
  rw [List.map_map]
  exact List.map_congr_left fun p _ => hf p

@[simp] theorem await_ids (id : ℕ) :
    (s.await id).passes.map Pass.id = s.passes.map Pass.id :=
  map_id_map (fun p => by split_ifs <;> rfl) _

@[simp] theorem advance_ids (id : ℕ) (stage : Stage) :
    (s.advance id stage).passes.map Pass.id = s.passes.map Pass.id :=
  map_id_map (fun p => by split_ifs <;> rfl) _

/-- A call that finds a pass in flight waits for that one. -/
theorem refreshNow_of_running {id : ℕ} (h : s.running = some id) (reason : Reason) :
    s.refreshNow reason = { s with timer := none }.await id := by
  simp only [refreshNow, h]

theorem refreshNow_of_none (h : s.running = none) (reason : Reason) :
    s.refreshNow reason = ({ s with timer := none }.run reason).await s.started := by
  simp only [refreshNow, h]

theorem find_eq_some {id : ℕ} {stage : Stage} {p : Pass} (h : s.find id stage = some p) :
    p ∈ s.passes ∧ p.id = id := by
  have hp := List.find?_some h
  simp only [decide_eq_true_eq] at hp
  exact ⟨List.mem_of_find?_eq_some h, hp.1⟩

/-- A waiter of a promise, of the pass it is the promise of. -/
def WaitsFor (s : Service) (call id : ℕ) : Prop := ∃ p ∈ s.passes, p.id = id ∧ call ∈ p.waiters

theorem waitsFor_advance {call id other : ℕ} {stage : Stage} :
    (s.advance other stage).WaitsFor call id ↔ s.WaitsFor call id := by
  simp only [WaitsFor, advance, List.mem_map]
  constructor
  · rintro ⟨_, ⟨p, hp, rfl⟩, hid, hcall⟩
    split_ifs at hid hcall <;> exact ⟨p, hp, hid, hcall⟩
  · rintro ⟨p, hp, hid, hcall⟩
    refine ⟨_, ⟨p, hp, rfl⟩, ?_⟩
    split_ifs <;> exact ⟨hid, hcall⟩

theorem waitsFor_await {call id other : ℕ} :
    (s.await other).WaitsFor call id ↔
      s.WaitsFor call id ∨ id = other ∧ call = s.asked ∧ id ∈ s.passes.map Pass.id := by
  simp only [WaitsFor, await, List.mem_map]
  constructor
  · rintro ⟨_, ⟨p, hp, rfl⟩, hid, hcall⟩
    split_ifs at hid hcall with hother
    · rcases List.mem_append.mp hcall with hold | hnew
      · exact .inl ⟨p, hp, hid, hold⟩
      · exact .inr ⟨hid.symm.trans hother, List.mem_singleton.mp hnew, p, hp, hid⟩
    · exact .inl ⟨p, hp, hid, hcall⟩
  · rintro (⟨p, hp, hid, hcall⟩ | ⟨rfl, rfl, p, hp, hid⟩)
    · refine ⟨_, ⟨p, hp, rfl⟩, ?_⟩
      split_ifs
      · exact ⟨hid, List.mem_append_left _ hcall⟩
      · exact ⟨hid, hcall⟩
    · refine ⟨_, ⟨p, hp, rfl⟩, ?_⟩
      rw [if_pos hid]
      exact ⟨hid, List.mem_append_right _ (List.mem_singleton_self _)⟩

end Service

/-! ### One pass at a time -/

/-- The pass in flight is the one `_running` holds; a request waits on the timer only when there is
none, and in `_again` only when there is one. -/
structure Single (s : Service) : Prop where
  passes : s.passes.map Pass.id = s.running.toList
  timer : s.timer.isSome → s.running = none
  again : s.again.isSome → s.running.isSome
  fresh : ∀ id, s.running = some id → id < s.started

namespace Single

theorem boot : Single boot where
  passes := rfl
  timer h := by cases h
  again h := by cases h
  fresh id h := by cases h

theorem length_le (h : Single s) : s.passes.length ≤ 1 := by
  have hlength := congrArg List.length h.passes
  rw [List.length_map] at hlength
  cases hrunning : s.running <;> simp [hlength, hrunning]

theorem of_mem (h : Single s) {p : Pass} (hp : p ∈ s.passes) :
    s.passes = [p] ∧ s.running = some p.id := by
  have hone := h.length_le
  have hpasses : s.passes = [p] := by
    match hs : s.passes with
    | [] => simp [hs] at hp
    | [q] => simp [hs] at hp; rw [hp]
    | q :: r :: rest => simp [hs] at hone
  refine ⟨hpasses, ?_⟩
  have hids := h.passes
  rw [hpasses] at hids
  cases hrunning : s.running with
  | none => simp [hrunning] at hids
  | some id => simp [hrunning] at hids; rw [hids]

theorem of_running_none (h : Single s) (hs : s.running = none) : s.passes = [] := by
  have hids := h.passes
  rw [hs] at hids
  exact List.map_eq_nil_iff.mp hids

/-- Nothing that `Single` speaks of but the timer and `_again` changes. -/
theorem congr (h : Single s) (hpasses : s'.passes.map Pass.id = s.passes.map Pass.id)
    (hrunning : s'.running = s.running) (htimer : s'.timer = s.timer) (hagain : s'.again = s.again)
    (hstarted : s'.started = s.started) : Single s' where
  passes := by rw [hpasses, hrunning, h.passes]
  timer := by rw [htimer, hrunning]; exact h.timer
  again := by rw [hagain, hrunning]; exact h.again
  fresh := by rw [hrunning, hstarted]; exact h.fresh

theorem schedule (h : Single s) (reason : Reason) : Single (s.schedule reason) := by
  unfold Service.schedule
  split_ifs with hrunning htimer
  · exact ⟨h.passes, h.timer, fun _ => hrunning, h.fresh⟩
  · exact h
  · exact ⟨h.passes, fun _ => by simpa using hrunning, h.again, h.fresh⟩

theorem await (h : Single s) (id : ℕ) : Single (s.await id) :=
  h.congr (Service.await_ids id) rfl rfl rfl rfl

theorem advance (h : Single s) (id : ℕ) (stage : Stage) : Single (s.advance id stage) :=
  h.congr (Service.advance_ids id stage) rfl rfl rfl rfl

theorem run (h : Single s) (hrunning : s.running = none) (reason : Reason) :
    Single ({ s with timer := none }.run reason) where
  passes := by simp [Service.run, h.of_running_none hrunning]
  timer h := by cases h
  again _ := rfl
  fresh id hid := by
    cases hid
    exact Nat.lt_succ_self _

end Single

theorem Service.find_running {id : ℕ} {stage : Stage} {p : Pass} (h : s.find id stage = some p)
    (hs : Single s) : s.passes = [p] ∧ s.running = some id := by
  obtain ⟨hp, rfl⟩ := Service.find_eq_some h
  exact hs.of_mem hp

/-! ### What one step can do -/

/-- What a step makes of the pass in flight, of what has been asked for and of those who wait. -/
inductive Turn (s : Service) (a : Act) (s' : Service) : Prop
  /-- A pass begins, by the timer or by a `refreshNow`, which then waits for it. -/
  | starts (hrunning : s.running = none) (hstarted : s'.started = s.started + 1)
      (hthen : s'.running = some s.started)
      (hwaits : ∀ call id, s'.WaitsFor call id →
        call = s.asked ∧ id = s.started ∧ ∃ reason, a = .refreshNow reason)
  /-- A `refreshNow` joins the pass in flight. -/
  | joins (id : ℕ) (reason : Reason) (ha : a = .refreshNow reason) (hrunning : s.running = some id)
      (hstarted : s'.started = s.started) (hthen : s'.running = some id)
      (hagain : s'.again = s.again)
      (hwaits : ∀ call other, s'.WaitsFor call other ↔
        s.WaitsFor call other ∨ call = s.asked ∧ other = id)
  /-- The pass in flight ends; what was asked for meanwhile goes to the timer. -/
  | ends (id : ℕ) (ha : a = .finish id) (hrunning : s.running = some id)
      (hstarted : s'.started = s.started) (hthen : s'.running = none)
      (hagain : s.again.isSome → s'.timer.isSome) (hwaits : ∀ call other, ¬ s'.WaitsFor call other)
  /-- The pass in flight goes on, or there is none; nothing that was asked for is dropped. -/
  | stays (hstarted : s'.started = s.started) (hthen : s'.running = s.running)
      (htimer : s.timer.isSome → s'.timer.isSome) (hagain : s.again.isSome → s'.again.isSome)
      (hnot : ∀ reason, a ≠ .refreshNow reason)
      (hwaits : ∀ call id, s'.WaitsFor call id ↔ s.WaitsFor call id)

theorem Service.waitsFor_congr (h : s'.passes = s.passes) (call id : ℕ) :
    s'.WaitsFor call id ↔ s.WaitsFor call id := by
  rw [WaitsFor, WaitsFor, h]

/-- A pass that has just begun is waited for by nobody. -/
theorem Service.not_waitsFor_run (hs : s.passes = []) (reason : Reason) (call id : ℕ) :
    ¬ ({ s with timer := none }.run reason).WaitsFor call id := by
  rintro ⟨p, hp, -, hcall⟩
  simp only [run, hs, List.nil_append, List.mem_singleton] at hp
  simp [hp] at hcall

theorem Turn.of_refreshNow (hs : Single s) (reason : Reason) :
    Turn s (.refreshNow reason) (s.refreshNow reason) := by
  cases hrunning : s.running with
  | some id =>
    have hmem : id ∈ s.passes.map Pass.id := by simp [hs.passes, hrunning]
    rw [Service.refreshNow_of_running hrunning]
    refine .joins id reason rfl hrunning rfl hrunning rfl fun call other => ?_
    rw [Service.waitsFor_await]
    constructor
    · rintro (hold | ⟨rfl, hcall, -⟩)
      · exact .inl hold
      · exact .inr ⟨hcall, rfl⟩
    · rintro (hold | ⟨hcall, rfl⟩)
      · exact .inl hold
      · exact .inr ⟨rfl, hcall, hmem⟩
  | none =>
    rw [Service.refreshNow_of_none hrunning]
    refine .starts hrunning rfl rfl fun call id hwaits => ?_
    rcases Service.waitsFor_await.mp hwaits with hold | ⟨rfl, hcall, -⟩
    · exact absurd hold (Service.not_waitsFor_run (hs.of_running_none hrunning) reason call id)
    · exact ⟨hcall, rfl, reason, rfl⟩

theorem Turn.of_fire (hs : Single s) (h : s.fire = some s') : Turn s .fire s' := by
  obtain ⟨reason, htimer, rfl⟩ := Option.map_eq_some_iff.mp h
  have hrunning : s.running = none := hs.timer (by simp [htimer])
  refine .starts hrunning rfl rfl fun call id hwaits => ?_
  exact absurd hwaits (Service.not_waitsFor_run (hs.of_running_none hrunning) reason call id)

theorem Turn.of_schedule (reason : Reason) : Turn s (.schedule reason) (s.schedule reason) := by
  refine .stays (by simp) (by simp) (fun htimer => ?_) (fun hagain => ?_) (fun _ h => by cases h)
    (Service.waitsFor_congr (by simp))
  · unfold Service.schedule
    split_ifs <;> exact htimer
  · unfold Service.schedule
    split_ifs
    · rfl
    · exact hagain
    · exact hagain

theorem Turn.of_advance (id : ℕ) (stage : Stage) (events : List Event)
    (hnot : ∀ reason, a ≠ .refreshNow reason) :
    Turn s a { s.advance id stage with events := events } :=
  .stays rfl rfl (fun h => h) (fun h => h) hnot fun _ _ => Service.waitsFor_advance

theorem Turn.of_finish (hs : Single s) {id : ℕ} (h : s.finish id = some s') :
    Turn s (.finish id) s' := by
  obtain ⟨p, hfind, rfl⟩ := Option.map_eq_some_iff.mp h
  obtain ⟨hpasses, hrunning⟩ := Service.find_running hfind hs
  have hid : p.id = id := (Service.find_eq_some hfind).2
  have hnone : ∀ q ∈ s.passes, q.id = id := by simp [hpasses, hid]
  cases hagain : s.again with
  | none =>
    refine .ends id rfl hrunning rfl rfl (fun h => by simp [hagain] at h) ?_
    rintro call other ⟨q, hq, -⟩
    simp only [List.mem_filter, decide_eq_true_eq] at hq
    exact hq.2 (hnone q hq.1)
  | some reason =>
    refine .ends id rfl hrunning (by simp) (by simp)
      (fun _ => Service.schedule_timer_isSome rfl reason) ?_
    rintro call other ⟨q, hq, -⟩
    simp only [Service.schedule_passes, List.mem_filter, decide_eq_true_eq] at hq
    exact hq.2 (hnone q hq.1)

/-- **What a step does.** -/
theorem Turn.of_step (hs : Single s) (h : step s a = some s') : Turn s a s' := by
  cases a with
  | onRefresh =>
    cases h
    exact .stays rfl rfl (fun h => h) (fun h => h) (fun _ h => by cases h)
      (Service.waitsFor_congr rfl)
  | schedule reason =>
    cases h
    exact .of_schedule reason
  | refreshNow reason =>
    cases h
    exact .of_refreshNow hs reason
  | fire => exact .of_fire hs h
  | refreshed id outcome =>
    obtain ⟨p, -, hrest⟩ := Option.bind_eq_some_iff.mp h
    have hnot : ∀ reason, Act.refreshed id outcome ≠ .refreshNow reason := fun _ h => by cases h
    split_ifs at hrest
    · cases hrest
      exact .of_advance id .versioning s.events hnot
    · cases hrest
      exact .of_advance id .settled s.events hnot
  | versioned id version =>
    obtain ⟨p, -, rfl⟩ := Option.map_eq_some_iff.mp h
    have hnot : ∀ reason, Act.versioned id version ≠ .refreshNow reason := fun _ h => by cases h
    cases version with
    | none => exact .of_advance id .settled s.events hnot
    | some version => exact .of_advance id .settled _ hnot
  | finish id => exact .of_finish hs h
  | idle =>
    cases h
    exact .stays rfl rfl (fun h => h) (fun h => h) (fun _ h => by cases h)
      (Service.waitsFor_congr rfl)

/-- **Step lemma.**  Every step keeps it to one pass. -/
theorem single_step (hs : Single s) (h : step s a = some s') : Single s' := by
  cases a with
  | onRefresh =>
    cases h
    exact hs.congr rfl rfl rfl rfl rfl
  | schedule reason =>
    cases h
    exact hs.schedule reason
  | refreshNow reason =>
    cases h
    cases hrunning : s.running with
    | some id =>
      have hcleared : Single { s with timer := none } :=
        ⟨hs.passes, (fun h => by cases h), hs.again, hs.fresh⟩
      rw [Service.refreshNow_of_running hrunning]
      exact hcleared.await id
    | none =>
      rw [Service.refreshNow_of_none hrunning]
      exact (hs.run hrunning reason).await s.started
  | fire =>
    obtain ⟨reason, htimer, rfl⟩ := Option.map_eq_some_iff.mp h
    exact hs.run (hs.timer (by simp [htimer])) reason
  | refreshed id outcome =>
    obtain ⟨p, -, hrest⟩ := Option.bind_eq_some_iff.mp h
    split_ifs at hrest
    · exact Option.some.inj hrest ▸ hs.advance id .versioning
    · exact Option.some.inj hrest ▸ hs.advance id .settled
  | versioned id version =>
    obtain ⟨p, -, rfl⟩ := Option.map_eq_some_iff.mp h
    cases version with
    | none => exact hs.advance id .settled
    | some version => exact (hs.advance id .settled).congr rfl rfl rfl rfl rfl
  | finish id =>
    obtain ⟨p, hfind, rfl⟩ := Option.map_eq_some_iff.mp h
    obtain ⟨hpasses, hrunning⟩ := Service.find_running hfind hs
    have hid : p.id = id := (Service.find_eq_some hfind).2
    -- A timer and a pass are never there together.
    have hidle : s.timer = none := by
      cases htimer : s.timer with
      | none => rfl
      | some reason => simp [hs.timer (by simp [htimer])] at hrunning
    -- Nothing runs now; what was asked for meanwhile may set the timer.
    have hquiet : Single { s with
        running := none
        again := none
        passes := s.passes.filter fun q => q.id ≠ id
        events := s.events ++ [.cacheState false p.reason] } := by
      refine ⟨by simp [hpasses, hid], fun _ => rfl, fun h => ?_, fun id h => ?_⟩
      · cases h
      · cases h
    cases s.again with
    | none => exact hquiet
    | some reason => exact hquiet.schedule reason
  | idle => exact Option.some.inj h ▸ hs

/-! ### Asking -/

/-- What waits on the timer stays there until a pass begins. -/
theorem timer_step (hs : Single s) (h : step s a = some s') (htimer : s.timer.isSome) :
    s'.timer.isSome ∨ s'.started = s.started + 1 := by
  have hrunning : s.running = none := hs.timer htimer
  cases Turn.of_step hs h with
  | starts _ hstarted => exact .inr hstarted
  | joins id reason _ hjoined => simp [hrunning] at hjoined
  | ends id _ hended => simp [hrunning] at hended
  | stays _ _ hkept => exact .inl (hkept htimer)

/-- What waits behind a pass in flight stays there until the timer is set. -/
theorem again_step (hs : Single s) (h : step s a = some s') {id : ℕ} (hrunning : s.running = some id)
    (hagain : s.again.isSome) :
    s'.running = some id ∧ s'.again.isSome ∨ s'.timer.isSome := by
  cases Turn.of_step hs h with
  | starts hnone => simp [hrunning] at hnone
  | joins other reason _ hjoined _ hthen hkept =>
    obtain rfl := Option.some.inj (hrunning.symm.trans hjoined)
    exact .inl ⟨hthen, hkept ▸ hagain⟩
  | ends other _ _ _ _ hpending => exact .inr (hpending hagain)
  | stays _ hthen _ hkept => exact .inl ⟨hthen.trans hrunning, hkept hagain⟩

/-- A call of `schedule` leaves the request on the timer or behind the pass in flight. -/
theorem owed_of_schedule (reason : Reason) :
    (s.schedule reason).timer.isSome ∨
      ∃ id, (s.schedule reason).running = some id ∧ (s.schedule reason).again.isSome := by
  cases hrunning : s.running with
  | none => exact .inl (Service.schedule_timer_isSome hrunning reason)
  | some id => exact .inr ⟨id, by simp [hrunning], by simp [Service.schedule, hrunning]⟩

theorem asked_step (h : step s a = some s') :
    s.asked ≤ s'.asked ∧ ∀ reason, a = .refreshNow reason → s'.asked = s.asked + 1 := by
  cases a with
  | onRefresh => exact Option.some.inj h ▸ ⟨le_rfl, fun _ h => by cases h⟩
  | schedule reason =>
    cases h
    exact ⟨by simp, fun _ h => by cases h⟩
  | refreshNow reason =>
    cases h
    have hasked : (s.refreshNow reason).asked = s.asked + 1 := by
      unfold Service.refreshNow
      dsimp only
      split <;> rfl
    exact ⟨by omega, fun _ _ => hasked⟩
  | fire =>
    obtain ⟨reason, -, rfl⟩ := Option.map_eq_some_iff.mp h
    exact ⟨le_rfl, fun _ h => by cases h⟩
  | refreshed id outcome =>
    obtain ⟨p, -, hrest⟩ := Option.bind_eq_some_iff.mp h
    split_ifs at hrest
    · exact Option.some.inj hrest ▸ ⟨le_rfl, fun _ h => by cases h⟩
    · exact Option.some.inj hrest ▸ ⟨le_rfl, fun _ h => by cases h⟩
  | versioned id version =>
    obtain ⟨p, -, rfl⟩ := Option.map_eq_some_iff.mp h
    refine ⟨?_, fun _ h => by cases h⟩
    cases version <;> exact le_rfl
  | finish id =>
    obtain ⟨p, -, rfl⟩ := Option.map_eq_some_iff.mp h
    refine ⟨?_, fun _ h => by cases h⟩
    cases s.again <;> simp
  | idle => exact Option.some.inj h ▸ ⟨le_rfl, fun _ h => by cases h⟩

/-! ### A whole run -/

section Whole

variable (b : Behaviour step)

/-- A pass begins in this step. -/
def Starts (n : ℕ) : Prop := (b.state (n + 1)).started = (b.state n).started + 1

/-- In this step a call of `refreshNow` goes on: the pass it waits for has ended. -/
def Resolves (call n : ℕ) : Prop := ∃ id, b.act n = .finish id ∧ (b.state n).WaitsFor call id

/-- A timer that is set fires, if it is not cleared first, and a pass ends, successfully or not. -/
structure Fair : Prop where
  fires : ∀ n, (b.state n).timer.isSome → ∃ m, n ≤ m ∧ (b.state m).timer = none
  ends : ∀ n, ∀ p ∈ (b.state n).passes, ∃ m, n ≤ m ∧ ∀ q ∈ (b.state m).passes, q.id ≠ p.id

/-- A rebuild that was asked for happens. -/
structure Happens : Prop where
  one : ∀ n, (b.state n).passes.length ≤ 1
  scheduled : ∀ n reason, b.act n = .schedule reason → ∃ m, n ≤ m ∧ Starts b m
  refreshed : ∀ n reason, b.act n = .refreshNow reason → ∃ m, n ≤ m ∧ Starts b m
  resolved : ∀ n reason r, b.act n = .refreshNow reason → Resolves b (b.state n).asked r →
    ∃ m e, n ≤ m ∧ m < e ∧ e ≤ r ∧ Starts b m ∧ b.act e = .finish (b.state m).started

/-- No `refreshNow` is called while a pass is in flight. -/
def Quiet : Prop := ∀ n reason, b.act n = .refreshNow reason → (b.state n).running = none

variable {b}

theorem single_of_behaviour (h₀ : b.state 0 = boot) (n : ℕ) : Single (b.state n) :=
  b.invariant (fun _ _ _ => single_step) (h₀ ▸ Single.boot) n

theorem turn (h₀ : b.state 0 = boot) (n : ℕ) : Turn (b.state n) (b.act n) (b.state (n + 1)) :=
  .of_step (single_of_behaviour h₀ n) (b.next n)

theorem running_of_starts (h₀ : b.state 0 = boot) {n : ℕ} (h : Starts b n) :
    (b.state n).running = none := by
  unfold Starts at h
  cases turn h₀ n with
  | starts hrunning => exact hrunning
  | joins _ _ _ _ hstarted => omega
  | ends _ _ _ hstarted => omega
  | stays hstarted => omega

open Behaviour (LeadsTo)

theorem timer_leadsTo (h₀ : b.state 0 = boot) (hfair : Fair b) :
    LeadsTo (fun n => (b.state n).timer.isSome) (Starts b) := by
  refine LeadsTo.of_ends (fun n htimer => ?_) (fun n htimer => ?_)
  · exact timer_step (single_of_behaviour h₀ n) (b.next n) htimer
  · obtain ⟨m, hnm, hm⟩ := hfair.fires n htimer
    exact ⟨m, hnm, by simp [hm]⟩

theorem Fair.not_running (hfair : Fair b) (h₀ : b.state 0 = boot) {n id : ℕ}
    (hrunning : (b.state n).running = some id) : ∃ m, n ≤ m ∧ (b.state m).running ≠ some id := by
  have hids := (single_of_behaviour h₀ n).passes
  have hmem : id ∈ (b.state n).passes.map Pass.id := by simp [hids, hrunning]
  obtain ⟨p, hp, rfl⟩ := List.mem_map.mp hmem
  obtain ⟨m, hnm, hgone⟩ := hfair.ends n p hp
  refine ⟨m, hnm, fun hstill => ?_⟩
  have hmem' : p.id ∈ (b.state m).passes.map Pass.id := by
    simp [(single_of_behaviour h₀ m).passes, hstill]
  obtain ⟨q, hq, hqid⟩ := List.mem_map.mp hmem'
  exact hgone q hq hqid

/-- What waits behind a pass in flight is put on the timer. -/
theorem again_leadsTo (h₀ : b.state 0 = boot) (hfair : Fair b) (id : ℕ) :
    LeadsTo (fun n => (b.state n).running = some id ∧ (b.state n).again.isSome)
      (fun n => (b.state (n + 1)).timer.isSome) := by
  refine LeadsTo.of_ends (fun n hbehind => ?_) (fun n hbehind => ?_)
  · exact again_step (single_of_behaviour h₀ n) (b.next n) hbehind.1 hbehind.2
  · obtain ⟨m, hnm, hm⟩ := hfair.not_running h₀ hbehind.1
    exact ⟨m, hnm, fun h => hm h.1⟩

/-- **Every `schedule` is followed by a pass**, whatever else is called. -/
theorem rebuilt_of_schedule (h₀ : b.state 0 = boot) (hfair : Fair b) {n : ℕ} {reason : Reason}
    (ha : b.act n = .schedule reason) : ∃ m, n ≤ m ∧ Starts b m := by
  have hnext : b.state (n + 1) = (b.state n).schedule reason := by
    have hstep := b.next n
    rw [ha] at hstep
    exact (Option.some.inj hstep).symm
  have htimer := timer_leadsTo h₀ hfair
  rcases owed_of_schedule (s := b.state n) reason with hset | ⟨id, hrunning, hagain⟩
  · exact htimer.of_succ (hnext ▸ hset)
  · have hbehind : (b.state (n + 1)).running = some id ∧ (b.state (n + 1)).again.isSome := by
      rw [hnext]
      exact ⟨hrunning, hagain⟩
    obtain ⟨m, hnm, hm⟩ := again_leadsTo h₀ hfair id (n + 1) hbehind
    obtain ⟨k, hmk, hk⟩ := htimer.of_succ hm
    exact ⟨k, by omega, hk⟩

/-- A `refreshNow` that finds no pass begins one. -/
theorem starts_of_refreshNow {n : ℕ} {reason : Reason} (ha : b.act n = .refreshNow reason)
    (hrunning : (b.state n).running = none) : Starts b n := by
  have hstep := b.next n
  rw [ha] at hstep
  have hnext := Option.some.inj hstep
  rw [Service.refreshNow_of_none hrunning] at hnext
  unfold Starts
  rw [← hnext]
  rfl

/-! ### Who waits for what -/

/-- As long as `refreshNow` is not called while a pass is in flight, whoever waits for a pass is the
call that began it. -/
theorem began_of_waitsFor (h₀ : b.state 0 = boot) (hquiet : Quiet b) (n : ℕ) :
    ∀ call id, (b.state n).WaitsFor call id →
      ∃ m, m < n ∧ Starts b m ∧ (b.state m).started = id ∧ (b.state m).asked = call ∧
        ∃ reason, b.act m = .refreshNow reason := by
  induction n with
  | zero =>
    rintro call id ⟨p, hp, -⟩
    rw [h₀] at hp
    cases hp
  | succ n ih =>
    intro call id hwaits
    have hearlier : (b.state n).WaitsFor call id → ∃ m, m < n + 1 ∧ Starts b m ∧
        (b.state m).started = id ∧ (b.state m).asked = call ∧
          ∃ reason, b.act m = .refreshNow reason := by
      intro hold
      obtain ⟨m, hm, hrest⟩ := ih call id hold
      exact ⟨m, by omega, hrest⟩
    cases turn h₀ n with
    | starts hrunning hstarted hthen hnew =>
      obtain ⟨rfl, rfl, hasked⟩ := hnew call id hwaits
      exact ⟨n, Nat.lt_succ_self n, hstarted, rfl, rfl, hasked⟩
    | joins other reason ha hrunning =>
      have hnone := hquiet n reason ha
      simp [hnone] at hrunning
    | ends other ha hrunning hstarted hthen hagain hnobody => exact absurd hwaits (hnobody call id)
    | stays hstarted hthen htimer hagain hnot hsame => exact hearlier ((hsame call id).mp hwaits)

theorem call_inj {m n : ℕ} {reason reason' : Reason} (hm : b.act m = .refreshNow reason)
    (hn : b.act n = .refreshNow reason') (h : (b.state m).asked = (b.state n).asked) : m = n := by
  have hmono : Monotone fun n => (b.state n).asked := b.monotone fun s a s' h => (asked_step h).1
  have hm' := (asked_step (b.next m)).2 reason hm
  have hn' := (asked_step (b.next n)).2 reason' hn
  by_contra hne
  rcases Nat.lt_or_gt_of_ne hne with hlt | hlt
  · have hle : (b.state (m + 1)).asked ≤ (b.state n).asked := hmono hlt
    omega
  · have hle : (b.state (n + 1)).asked ≤ (b.state m).asked := hmono hlt
    omega

theorem waitsFor_step (hs : Single s) (h : step s a = some s') {call id : ℕ}
    (hrunning : s.running = some id) (hwaits : s.WaitsFor call id) :
    s'.running = some id ∧ s'.WaitsFor call id ∨ a = .finish id := by
  cases Turn.of_step hs h with
  | starts hnone => simp [hrunning] at hnone
  | joins other reason _ hjoined _ hthen _ hmore =>
    obtain rfl := Option.some.inj (hrunning.symm.trans hjoined)
    exact .inl ⟨hthen, (hmore call id).mpr (.inl hwaits)⟩
  | ends other ha hended =>
    obtain rfl := Option.some.inj (hrunning.symm.trans hended)
    exact .inr ha
  | stays _ hthen _ _ _ hsame => exact .inl ⟨hthen.trans hrunning, (hsame call id).mpr hwaits⟩

/-- A call that joins a pass in flight goes on when that pass ends, and none has begun since. -/
theorem resolves_of_joined (h₀ : b.state 0 = boot) (hfair : Fair b) {n id : ℕ} {reason : Reason}
    (ha : b.act n = .refreshNow reason) (hrunning : (b.state n).running = some id) :
    ∃ r, Resolves b (b.state n).asked r ∧ ∀ m, n ≤ m → m < r → ¬ Starts b m := by
  let P k := (b.state k).running = some id ∧ (b.state k).WaitsFor (b.state n).asked id
  have hstep : ∀ k, P k → P (k + 1) ∨ P k ∧ b.act k = .finish id := by
    intro k hk
    have hnext := waitsFor_step (single_of_behaviour h₀ k) (b.next k) hk.1 hk.2
    exact hnext.imp_right fun hfinish => ⟨hk, hfinish⟩
  have hleads : LeadsTo P (fun k => P k ∧ b.act k = .finish id) := by
    refine LeadsTo.of_ends hstep fun k hk => ?_
    obtain ⟨m, hkm, hm⟩ := hfair.not_running h₀ hk.1
    exact ⟨m, hkm, fun h => hm h.1⟩
  have hjoined : P (n + 1) := by
    cases turn h₀ n with
    | starts hnone => simp [hrunning] at hnone
    | joins other reason' _ hsome _ hthen _ hwaits =>
      obtain rfl := Option.some.inj (hrunning.symm.trans hsome)
      exact ⟨hthen, (hwaits _ _).mpr (.inr ⟨rfl, rfl⟩)⟩
    | ends other hfinish => simp [ha] at hfinish
    | stays _ _ _ _ hnot => exact absurd ha (hnot reason)
  obtain ⟨r, hnr, ⟨hP, hfinish⟩, hlasts⟩ := hleads.lasts hstep hjoined
  refine ⟨r, ⟨id, hfinish, hP.2⟩, fun m hnm hmr hstarts => ?_⟩
  have hnone := running_of_starts h₀ hstarts
  have hstill : (b.state m).running = some id := by
    rcases Nat.eq_or_lt_of_le hnm with rfl | hlt
    · exact hrunning
    · exact (hlasts m hlt hmr.le).1
  simp [hnone] at hstill

/-- **A rebuild that was asked for happens** exactly when nobody presses the button while a pass is
in flight. -/
theorem happens_iff (h₀ : b.state 0 = boot) (hfair : Fair b) : Happens b ↔ Quiet b := by
  constructor
  · intro h n reason ha
    by_contra hnot
    obtain ⟨id, hrunning⟩ := Option.ne_none_iff_exists'.mp hnot
    obtain ⟨r, hresolves, hnone⟩ := resolves_of_joined h₀ hfair ha hrunning
    obtain ⟨m, e, hnm, hme, her, hstarts, -⟩ := h.resolved n reason r ha hresolves
    exact hnone m hnm (by omega) hstarts
  · intro hquiet
    refine ⟨fun n => (single_of_behaviour h₀ n).length_le, fun n reason ha => ?_,
      fun n reason ha => ?_, fun n reason r ha hresolves => ?_⟩
    · exact rebuilt_of_schedule h₀ hfair ha
    · exact ⟨n, le_rfl, starts_of_refreshNow ha (hquiet n reason ha)⟩
    · obtain ⟨id, hfinish, hwaits⟩ := hresolves
      obtain ⟨m, hmr, hstarts, hid, hasked, reason', ha'⟩ := began_of_waitsFor h₀ hquiet r _ id hwaits
      obtain rfl := call_inj ha' ha hasked
      exact ⟨m, r, le_rfl, hmr, le_rfl, hstarts, hid ▸ hfinish⟩

end Whole

/-! ### Two runs -/

/-- A run that ends with no pass in flight and nothing on the timer is fair if nothing happens after
it. -/
theorem fair_ofRun {as : List Act} (h : Run step Free boot as s) (htimer : s.timer = none)
    (hpasses : s.passes = []) : Fair (.ofRun .idle (fun _ => rfl) h) where
  fires n _ := by
    have hlast := Behaviour.along_of_le h (le_max_right n as.length)
    exact ⟨max n as.length, le_max_left .., (congrArg Service.timer hlast).trans htimer⟩
  ends n _ _ := by
    have hlast := Behaviour.along_of_le h (le_max_right n as.length)
    refine ⟨max n as.length, le_max_left .., fun q hq => ?_⟩
    have hnone : q ∈ ([] : List Pass) := (congrArg Service.passes hlast).trans hpasses ▸ hq
    cases hnone

/-- How the service is left when one pass has found something. -/
def rebuilt (asked : ℕ) : Service where
  timer := none
  running := none
  again := none
  refresher := true
  passes := []
  started := 1
  asked := asked
  events := [.cacheState true .manual, .catalogueChanged "1", .cacheState false .manual]

theorem run_pressed : Run step Free boot [.onRefresh, .refreshNow .manual, .refreshed 0 (some true),
    .versioned 0 (some "1"), .finish 0] (rebuilt 1) :=
  .ofExec rfl

theorem happens_pressed : Happens (.ofRun .idle (fun _ => rfl) run_pressed) := by
  refine (happens_iff rfl (fair_ofRun run_pressed rfl rfl)).mpr fun n reason ha => ?_
  match n with
  | 1 => rfl
  | 0 | 2 | 3 | 4 => cases ha
  | _ + 5 => cases ha

/-- Somebody presses the button, and somebody else presses it while the pass is in flight. -/
theorem run_pressedTwice : Run step Free boot [.onRefresh, .refreshNow .manual, .refreshNow .manual,
    .refreshed 0 (some true), .versioned 0 (some "1"), .finish 0] (rebuilt 2) :=
  .ofExec rfl

/-- The second one is answered by the first one's pass, and no other follows. -/
theorem not_happens_pressedTwice :
    ∃ b : Behaviour step, b.state 0 = boot ∧ Fair b ∧ b.act 2 = .refreshNow .manual ∧
      Resolves b (b.state 2).asked 5 ∧ ¬ Happens b := by
  refine ⟨.ofRun .idle (fun _ => rfl) run_pressedTwice, rfl, fair_ofRun run_pressedTwice rfl rfl, rfl,
    ⟨0, rfl, ⟨0, .manual, true, .settled, [0, 1]⟩, .head _, rfl, .tail _ (.head _)⟩, fun h => ?_⟩
  obtain ⟨m, hm, hstarts⟩ := h.refreshed 2 .manual rfl
  unfold Starts at hstarts
  match m, hm with
  | 2, _ | 3, _ | 4, _ | 5, _ => cases hstarts
  | _ + 6, _ => cases hstarts

/-! ### What the screens are told -/

def believed (events : List Event) : Bool :=
  events.foldl (fun believed event => match event with
    | .cacheState refreshing _ => refreshing
    | .catalogueChanged _ => believed) false

theorem believed_append (events : List Event) (event : Event) :
    believed (events ++ [event]) = match event with
      | .cacheState refreshing _ => refreshing
      | .catalogueChanged _ => believed events := by
  rw [believed, List.foldl_append]
  rfl

/-- **Step lemma.**  The events bracket a pass. -/
theorem believed_step (hb : believed s.events = s.refreshing) (h : step s a = some s') :
    believed s'.events = s'.refreshing := by
  have hrun : ∀ reason, believed ({ s with timer := none }.run reason).events =
      ({ s with timer := none }.run reason).refreshing := fun reason => believed_append _ _
  cases a with
  | onRefresh => exact Option.some.inj h ▸ hb
  | schedule reason =>
    cases h
    simpa [Service.refreshing] using hb
  | refreshNow reason =>
    cases h
    cases hrunning : s.running with
    | some id => rw [Service.refreshNow_of_running hrunning]; exact hb
    | none => rw [Service.refreshNow_of_none hrunning]; exact hrun reason
  | fire =>
    obtain ⟨reason, -, rfl⟩ := Option.map_eq_some_iff.mp h
    exact hrun reason
  | refreshed id outcome =>
    obtain ⟨p, -, hrest⟩ := Option.bind_eq_some_iff.mp h
    split_ifs at hrest <;> exact Option.some.inj hrest ▸ hb
  | versioned id version =>
    obtain ⟨p, -, rfl⟩ := Option.map_eq_some_iff.mp h
    cases version with
    | none => exact hb
    | some version => exact (believed_append _ _).trans hb
  | finish id =>
    obtain ⟨p, -, rfl⟩ := Option.map_eq_some_iff.mp h
    cases s.again with
    | none => exact believed_append _ _
    | some reason =>
      simp only [Service.schedule_events, Service.refreshing, Service.schedule_running]
      exact believed_append _ _
  | idle => exact Option.some.inj h ▸ hb

/-- A screen that has heard all events shows its spinner exactly while a pass is in flight. -/
theorem believed_of_behaviour {b : Behaviour step} (h₀ : b.state 0 = boot) (n : ℕ) :
    believed (b.state n).events = (b.state n).refreshing :=
  b.invariant (I := fun s => believed s.events = s.refreshing) (fun _ _ _ => believed_step)
    (by rw [h₀]; rfl) n

/-- While the pass of the button runs, and once it has ended. -/
theorem believed_pressed : ∃ b : Behaviour step, b.state 0 = boot ∧
    believed (b.state 2).events = true ∧ believed (b.state 5).events = false :=
  ⟨.ofRun .idle (fun _ => rfl) run_pressed, rfl, believed_of_behaviour rfl 2,
    believed_of_behaviour rfl 5⟩

end MediaCenterSync.CatalogueCache
