import MediaCenterSync.Lib.LabelledRun
import MediaCenterSync.Lib.Lists
import MediaCenterSync.ServiceManager.Indexing

/-!
# Every request is answered by a pass

A request that finds no pass running starts one of its own kind, and one that meets a running pass
joins it (`Answered`): in any order of requests, landings and ends of passes at most one pass runs,
and when none does every request was answered: `answered_of_run`.  A request that joins starts
nothing, so a scan that meets a refresh is answered by the refresh (`swallowed`).
-/

namespace MediaCenterSync.ServiceManager.Indexing

open LabelledRun (Free Run)

/-! ### What the log says -/

/-- The pass that runs after some events. -/
def running (log : List Event) : Option Bool :=
  log.foldl
    (fun current event =>
      match event with
      | .started full => some full
      | .ended => none
      | _ => current)
    none

/-- The pass that ran ended, and none was started before it did. -/
def PassEnds (after : List Event) : Prop :=
  ∃ mid rest, after = mid ++ .ended :: rest ∧ ∀ full, .started full ∉ mid

/-- A request is followed at once by the start of a pass of its kind, or it came while a pass ran,
and that pass ended. -/
def Answered (before : List Event) (r : Request) (after : List Event) : Prop :=
  (running before = none ∧ ∃ rest, after = .started r.full :: rest) ∨
    ((running before).isSome ∧ PassEnds after)

/-- A request that came while a pass ran, which still runs. -/
def Joined (before after : List Event) : Prop :=
  (running before).isSome ∧ ∀ full, .started full ∉ after

theorem running_append (log events : List Event) :
    running (log ++ events) = events.foldl
      (fun current event =>
        match event with
        | .started full => some full
        | .ended => none
        | _ => current)
      (running log) :=
  List.foldl_append

theorem PassEnds.append {after : List Event} (h : PassEnds after) (events : List Event) :
    PassEnds (after ++ events) := by
  obtain ⟨mid, rest, rfl, hmid⟩ := h
  exact ⟨mid, rest ++ events, by rw [List.append_assoc, List.cons_append], hmid⟩

theorem Answered.append {before after : List Event} {r : Request} (h : Answered before r after)
    (events : List Event) : Answered before r (after ++ events) := by
  rcases h with ⟨hnone, rest, rfl⟩ | ⟨hsome, hends⟩
  · exact .inl ⟨hnone, rest ++ events, List.cons_append⟩
  · exact .inr ⟨hsome, hends.append events⟩

/-- Every request so far is answered, or joined a pass that still runs. -/
def Served (log : List Event) : Prop :=
  ∀ before r after, log = before ++ .accepted r :: after →
    Answered before r after ∨ (running log).isSome ∧ Joined before after

theorem served_landed {log : List Event} (h : Served log) (announced : Announced) :
    Served (log ++ [.landed announced]) := by
  intro before r after heq
  have hrunning : running (log ++ [.landed announced]) = running log := running_append log _
  rcases History.append_eq_append_cons heq with ⟨after', hlog, rfl⟩ | ⟨before', -, hevents⟩
  · refine (h before r after' hlog).imp (·.append _) fun ⟨hsome, hbefore, hafter⟩ => ?_
    exact ⟨by rwa [hrunning], hbefore, by simpa using hafter⟩
  · rcases before' with _ | ⟨_, _ | _⟩ <;> simp at hevents

theorem served_ended {log : List Event} (h : Served log) : Served (log ++ [.ended]) := by
  intro before r after heq
  rcases History.append_eq_append_cons heq with ⟨after', hlog, rfl⟩ | ⟨before', -, hevents⟩
  · rcases h before r after' hlog with hanswered | ⟨-, hbefore, hafter⟩
    · exact .inl (hanswered.append _)
    · exact .inl (.inr ⟨hbefore, after', [], rfl, hafter⟩)
  · rcases before' with _ | ⟨_, _ | _⟩ <;> simp at hevents

theorem served_joined {log : List Event} (h : Served log) (hsome : (running log).isSome)
    (r : Request) : Served (log ++ [.accepted r]) := by
  intro before other after heq
  have hrunning : running (log ++ [.accepted r]) = running log := running_append log _
  rcases History.append_eq_append_cons heq with ⟨after', hlog, rfl⟩ | ⟨before', rfl, hevents⟩
  · refine (h before other after' hlog).imp (·.append _) fun ⟨_, hbefore, hafter⟩ => ?_
    exact ⟨by rwa [hrunning], hbefore, by simpa using hafter⟩
  · rcases before' with _ | ⟨_, _ | _⟩ <;> simp at hevents
    obtain ⟨-, rfl⟩ := hevents
    refine .inr ⟨by rwa [hrunning], ?_, by simp⟩
    rwa [List.append_nil]

theorem served_started {log : List Event} (h : Served log) (hnone : running log = none)
    (r : Request) : Served (log ++ [.accepted r, .started r.full]) := by
  intro before other after heq
  rcases History.append_eq_append_cons heq with ⟨after', hlog, rfl⟩ | ⟨before', rfl, hevents⟩
  · rcases h before other after' hlog with hanswered | ⟨hsome, -⟩
    · exact .inl (hanswered.append _)
    · rw [hnone] at hsome
      exact absurd hsome (by decide)
  · rcases before' with _ | ⟨_, _ | ⟨_, _ | _⟩⟩ <;> simp at hevents
    obtain ⟨rfl, rfl⟩ := hevents
    exact .inl (.inl ⟨by rwa [List.append_nil], [], rfl⟩)

/-! ### One action -/

structure Inv (s : State) : Prop where
  one : s.passes.length ≤ 1
  has : s.indexing = true ↔ s.passes ≠ []
  running : running s.log = s.passes.head?.map Pass.full
  served : Served s.log
  landed : ∀ before announced after, s.log = before ++ .landed announced :: after →
    announced.settles → s.settling = true ∨ .accepted .rescan ∈ after

theorem inv_empty : Inv {} where
  one := by decide
  has := by decide
  running := rfl
  served := by
    intro before r after h
    exact absurd h (by simp)
  landed := by
    intro before announced after h
    exact absurd h (by simp)

theorem request_cases (s : State) (r : Request) :
    (s.indexing = true ∧ s.request r = { s with log := s.log ++ [.accepted r] }) ∨
      (s.indexing = false ∧ s.request r =
        { s with
          passes := s.passes ++ [⟨r.full, .walking⟩]
          indexing := true
          log := s.log ++ [.accepted r, .started r.full] }) := by
  unfold State.request State.start
  rcases hindexing : s.indexing with _ | _
  · exact .inr ⟨rfl, by simp⟩
  · exact .inl ⟨rfl, by simp⟩

/-- A request keeps the invariant, where the landings so far are waited for or asked for by it. -/
theorem inv_request {s : State} (hone : s.passes.length ≤ 1)
    (hhas : s.indexing = true ↔ s.passes ≠ [])
    (hrunning : running s.log = s.passes.head?.map Pass.full) (hserved : Served s.log) (r : Request)
    (hlanded : ∀ before announced after, s.log = before ++ .landed announced :: after →
      announced.settles → s.settling = true ∨ .accepted .rescan ∈ after ∨ r = .rescan) :
    Inv (s.request r) := by
  have hlanded : ∀ events, (∀ announced, .landed announced ∉ events) → .accepted r ∈ events →
      ∀ before announced after, s.log ++ events = before ++ .landed announced :: after →
        announced.settles → s.settling = true ∨ .accepted .rescan ∈ after := by
    intro events hnot hin before announced after heq hsettles
    rcases History.append_eq_append_cons heq with ⟨after', hlog, rfl⟩ | ⟨before', -, rfl⟩
    · rcases hlanded before announced after' hlog hsettles with hset | hmem | rfl
      · exact .inl hset
      · exact .inr (List.mem_append_left _ hmem)
      · exact .inr (List.mem_append_right _ hin)
    · exact absurd (List.mem_append_right _ List.mem_cons_self) (hnot announced)
  rcases request_cases s r with ⟨hindexing, heq⟩ | ⟨hindexing, heq⟩
  · -- A pass runs.
    obtain ⟨pass, rest, hpasses⟩ := List.exists_cons_of_ne_nil (hhas.mp hindexing)
    have hsome : (Indexing.running s.log).isSome := by rw [hrunning, hpasses]; rfl
    rw [heq]
    refine ⟨hone, hhas, ?_, served_joined hserved hsome r, hlanded _ (by simp) (by simp)⟩
    exact (running_append s.log _).trans hrunning
  · have hpasses : s.passes = [] := by
      by_contra hne
      rw [hhas.mpr hne] at hindexing
      exact absurd hindexing (by decide)
    have hnone : Indexing.running s.log = none := by rw [hrunning, hpasses]; rfl
    rw [heq, hpasses]
    refine ⟨Nat.le_refl 1, by simp, running_append s.log _, served_started hserved hnone r, ?_⟩
    exact hlanded _ (by simp) (by simp)

theorem inv_set {s : State} (h : Inv s) {i : ℕ} {pass pass' : Pass} (hpass : s.passes[i]? = some pass)
    (hfull : pass'.full = pass.full) : Inv { s with passes := s.passes.set i pass' } := by
  have hhead : (s.passes.set i pass').head?.map Pass.full = s.passes.head?.map Pass.full := by
    rcases hpasses : s.passes with _ | ⟨first, rest⟩
    · rfl
    · rcases i with _ | i
      · rw [hpasses] at hpass
        cases hpass
        exact congrArg some hfull
      · rfl
  refine ⟨by simpa using h.one, ?_, h.running.trans hhead.symm, h.served, h.landed⟩
  rw [h.has, Ne, Ne, List.set_eq_nil_iff]

theorem Pass.full_afterWalk {pass pass' : Pass} {walked : Walked}
    (h : pass.afterWalk walked = some pass') : pass'.full = pass.full := by
  unfold Pass.afterWalk at h
  split at h <;> simp at h <;> rw [← h]

theorem Pass.full_afterRelocate {pass pass' : Pass} {moved : Bool}
    (h : pass.afterRelocate moved = some pass') : pass'.full = pass.full := by
  unfold Pass.afterRelocate at h
  split at h <;> simp at h
  rw [← h]

theorem inv_step (s : State) (a : Action) (s' : State) (h : Inv s) (_ : Free s a)
    (hstep : step s a = some s') : Inv s' := by
  have hrequest : ∀ r, Inv (s.request r) := fun r =>
    inv_request h.one h.has h.running h.served r fun before announced after hlog hsettles =>
      (h.landed before announced after hlog hsettles).imp_right .inl
  cases a with
  | scan known =>
    cases hstep
    split_ifs
    · exact hrequest .scan
    · exact h
  | refresh known =>
    cases hstep
    split_ifs
    · exact hrequest .refresh
    · exact h
  | land announced =>
    cases hstep
    refine ⟨h.one, h.has, (running_append s.log _).trans h.running, served_landed h.served announced,
      fun before other after heq hsettles => ?_⟩
    rcases History.append_eq_append_cons heq with ⟨after', hlog, rfl⟩ | ⟨before', -, hevents⟩
    · refine (h.landed before other after' hlog hsettles).imp (fun hset => ?_)
        (List.mem_append_left _)
      simp [hset]
    · -- The landing is this one, and it sets the timer.
      rcases before' with _ | ⟨_, _ | _⟩ <;> simp at hevents
      obtain ⟨rfl, -⟩ := hevents
      exact .inl (by simp [hsettles])
  | fire =>
    obtain ⟨-, hs'⟩ := Option.ite_none_right_eq_some.mp hstep
    cases hs'
    exact inv_request (s := { s with settling := false }) h.one h.has h.running h.served .rescan
      fun _ _ _ _ _ => .inr (.inr rfl)
  | walk i walked =>
    obtain ⟨pass, hpass, hrest⟩ := Option.bind_eq_some_iff.mp hstep
    obtain ⟨pass', hpass', hs'⟩ := Option.bind_eq_some_iff.mp hrest
    cases hs'
    exact inv_set h hpass (Pass.full_afterWalk hpass')
  | relocate i moved =>
    obtain ⟨pass, hpass, hrest⟩ := Option.bind_eq_some_iff.mp hstep
    obtain ⟨pass', hpass', hs'⟩ := Option.bind_eq_some_iff.mp hrest
    cases hs'
    exact inv_set h hpass (Pass.full_afterRelocate hpass')
  | forget i =>
    obtain ⟨pass, hpass, hrest⟩ := Option.bind_eq_some_iff.mp hstep
    obtain ⟨-, hs'⟩ := Option.ite_none_right_eq_some.mp hrest
    cases hs'
    have hempty : s.passes.eraseIdx i = [] := by
      have hi : i < s.passes.length := (List.getElem?_eq_some_iff.mp hpass).1
      have hlength := List.length_eraseIdx_of_lt hi
      have hone := h.one
      exact List.eq_nil_of_length_eq_zero (by omega)
    rw [hempty]
    refine ⟨Nat.zero_le 1, by simp, running_append s.log _, served_ended h.served, ?_⟩
    intro before announced after heq hsettles
    rcases History.append_eq_append_cons heq with ⟨after', hlog, rfl⟩ | ⟨before', -, hevents⟩
    · exact (h.landed before announced after' hlog hsettles).imp_right (List.mem_append_left _)
    · rcases before' with _ | ⟨_, _ | _⟩ <;> simp at hevents

/-! ### Every run -/

/-- **No request is dropped.**  At most one pass runs at a time; whenever none does, every request
was answered; and every landing whose server was asked to look is still waited for or was followed by
a request. -/
theorem answered_of_run {as : List Action} {s : State} (h : Run step Free {} as s) :
    s.passes.length ≤ 1 ∧
      (s.passes = [] → ∀ before r after, s.log = before ++ .accepted r :: after →
        Answered before r after) ∧
      ∀ before announced after, s.log = before ++ .landed announced :: after →
        announced.settles → s.settling = true ∨ .accepted .rescan ∈ after := by
  have hinv := h.invariant inv_step inv_empty
  refine ⟨hinv.one, fun hnone before r after hlog => ?_, hinv.landed⟩
  refine (hinv.served before r after hlog).resolve_right fun ⟨hsome, _⟩ => ?_
  rw [hinv.running, hnone] at hsome
  exact absurd hsome (by decide)

/-- A request while a refresh runs: of a person, or of the timer a landing set. -/
def duringRefresh : Request → List Action
  | .scan => [.refresh true, .scan true, .walk 0 .done, .forget 0]
  | .refresh => [.refresh true, .refresh true, .walk 0 .done, .forget 0]
  | .rescan => [.land .LIBRARY, .refresh true, .fire, .walk 0 .done, .forget 0]

theorem answered_duringRefresh : ∃ s, Run step Free {} (duringRefresh .rescan) s ∧
    (∃ before after, s.log = before ++ .accepted .rescan :: after ∧
      Answered before .rescan after) ∧
    ∃ before after, s.log = before ++ .landed .LIBRARY :: after ∧
      (s.settling = true ∨ .accepted .rescan ∈ after) := by
  have hrun : Run step Free {} (duringRefresh .rescan)
      { log := [.landed .LIBRARY, .accepted .refresh, .started false, .accepted .rescan,
          .ended] } := Run.ofExec rfl
  obtain ⟨-, hanswered, hlanded⟩ := answered_of_run hrun
  exact ⟨_, hrun, ⟨[.landed .LIBRARY, .accepted .refresh, .started false], _, rfl,
    hanswered rfl _ _ _ rfl⟩, [], _, rfl, hlanded [] .LIBRARY _ rfl rfl⟩

/-- The request is accepted, no pass is started after it, and none runs in the end. -/
def Swallowed (r : Request) : Prop :=
  ∃ s, Run step Free {} (duringRefresh r) s ∧ s.passes = [] ∧
    ∃ before after, s.log = before ++ .accepted r :: after ∧ ∀ full, .started full ∉ after

/-- **A request of any kind starts no pass**, where a refresh runs. -/
theorem swallowed : Swallowed .scan ∧ Swallowed .refresh ∧ Swallowed .rescan := by
  refine ⟨⟨_, Run.ofExec rfl, rfl, [.accepted .refresh, .started false], [.ended], rfl, ?_⟩,
    ⟨_, Run.ofExec rfl, rfl, [.accepted .refresh, .started false], [.ended], rfl, ?_⟩,
    ⟨_, Run.ofExec rfl, rfl, [.landed .LIBRARY, .accepted .refresh, .started false], [.ended],
      rfl, ?_⟩⟩
  all_goals simp

end MediaCenterSync.ServiceManager.Indexing
