import Mathlib.Data.List.Basic
import Mathlib.Data.Nat.Find
import Mathlib.Data.Option.Basic
import Mathlib.Order.Monotone.Basic

/-!
# Runs of a labelled partial step

A system is given by `step : σ → α → Option σ`: in state `s` the action `a` is impossible (`none`)
or leads to one next state.  Whatever the environment decides is part of the action, so a
nondeterministic system is still a function.

`Run step ok s as s'` says that the actions `as` lead from `s` to `s'` and that each of them met the
guard `ok` in the state it was taken in.  The guard singles out the runs a theorem is about; `Free`
is the guard that every step meets.

Two rules turn a step lemma into a run lemma: `Run.invariant` for a property that guarded steps
keep, and `Run.guarded_or_lost` for runs that break the guard and cannot recover.
-/

namespace LabelledRun

variable {σ α : Type*} {step : σ → α → Option σ} {ok : σ → α → Prop}

/-- The guard every step meets. -/
def Free : σ → α → Prop := fun _ _ => True

/-- `as` leads from `s` to `s'`, each action meeting the guard where it is taken. -/
inductive Run (step : σ → α → Option σ) (ok : σ → α → Prop) : σ → List α → σ → Prop
  | nil (s : σ) : Run step ok s [] s
  | cons {s s' s'' : σ} {a : α} {as : List α} : ok s a → step s a = some s' →
      Run step ok s' as s'' → Run step ok s (a :: as) s''

/-- The state the actions lead to, when none of them is impossible or breaks the guard. -/
def exec (step : σ → α → Option σ) (ok : σ → α → Prop) [∀ s a, Decidable (ok s a)] :
    σ → List α → Option σ
  | s, [] => some s
  | s, a :: as => if ok s a then (step s a).bind fun s' => exec step ok s' as else none

instance (s : σ) (a : α) : Decidable (Free s a) := inferInstanceAs (Decidable True)

theorem Run.ofExec [∀ s a, Decidable (ok s a)] {s s' : σ} {as : List α}
    (h : exec step ok s as = some s') : Run step ok s as s' := by
  induction as generalizing s with
  | nil => obtain rfl := Option.some.inj h; exact .nil s
  | cons a as ih =>
    rw [exec, Option.ite_none_right_eq_some] at h
    obtain ⟨m, hm, hr⟩ := Option.bind_eq_some_iff.mp h.2
    exact .cons h.1 hm (ih hr)

theorem Run.mono {ok' : σ → α → Prop} (hok : ∀ s a, ok s a → ok' s a) {s s' : σ} {as : List α}
    (h : Run step ok s as s') : Run step ok' s as s' := by
  induction h with
  | nil s => exact .nil s
  | cons ho hs _ ih => exact .cons (hok _ _ ho) hs ih

theorem Run.unique {ok' : σ → α → Prop} {s a b : σ} {as : List α} (h : Run step ok s as a)
    (h' : Run step ok' s as b) : a = b := by
  induction h with
  | nil s =>
    cases h'
    rfl
  | cons _ hs _ ih =>
    obtain _ | ⟨_, hs', hr'⟩ := h'
    obtain rfl := Option.some.inj (hs.symm.trans hs')
    exact ih hr'

theorem Run.append {s m s' : σ} {as bs : List α} (h : Run step ok s as m)
    (h' : Run step ok m bs s') : Run step ok s (as ++ bs) s' := by
  induction h with
  | nil s => exact h'
  | cons ho hs _ ih => exact .cons ho hs (ih h')

/-- A run is a run of its first actions, and of the others from where those end. -/
theorem Run.split {s s' : σ} {as bs : List α} (h : Run step ok s (as ++ bs) s') :
    ∃ m, Run step ok s as m ∧ Run step ok m bs s' := by
  induction as generalizing s with
  | nil => exact ⟨s, .nil s, h⟩
  | cons a as ih =>
    obtain _ | ⟨ho, hs, hr⟩ := h
    obtain ⟨m, hfirst, hrest⟩ := ih hr
    exact ⟨m, .cons ho hs hfirst, hrest⟩

/-- **Invariant rule.**  What holds at the start and is kept by every step that meets the guard
holds wherever a guarded run ends. -/
theorem Run.invariant {I : σ → Prop}
    (hstep : ∀ s a s', I s → ok s a → step s a = some s' → I s') {s s' : σ} {as : List α}
    (h : Run step ok s as s') (h₀ : I s) : I s' := by
  induction h with
  | nil s => exact h₀
  | cons ho hs _ ih => exact ih (hstep _ _ _ h₀ ho hs)

/-- The actions lead through states with a property only. -/
def Always (step : σ → α → Option σ) (P : σ → Prop) (s : σ) (as : List α) : Prop :=
  ∀ before after m, as = before ++ after → Run step Free s before m → P m

/-- **A guard that is exact.**  When a guarded step keeps an invariant, which gives a property, and
a step that breaks the guard loses the property, the states of a run all have the property exactly
when its steps all meet the guard. -/
theorem Run.always_iff_of_invariant {I P : σ → Prop} (hprop : ∀ s, I s → P s)
    (hstep : ∀ s a s', I s → ok s a → step s a = some s' → I s')
    (hbreak : ∀ s a s', I s → ¬ ok s a → step s a = some s' → ¬ P s') {s s' : σ} {as : List α}
    (h : Run step Free s as s') (h₀ : I s) : Always step P s as ↔ Run step ok s as s' := by
  constructor
  · intro hall
    induction h with
    | nil s => exact .nil s
    | @cons s m s' a as _ hs hr ih =>
      have hm : P m := hall [a] as m rfl (.cons trivial hs (.nil m))
      have hok : ok s a := by
        by_contra hnot
        exact hbreak s a m h₀ hnot hs hm
      refine .cons hok hs (ih (hstep s a m h₀ hok hs) fun before after m' heq hrun => ?_)
      exact hall (a :: before) after m' (by rw [heq, List.cons_append]) (.cons trivial hs hrun)
  · rintro hrun before after m rfl hbefore
    obtain ⟨m', hfirst, -⟩ := hrun.split
    obtain rfl := hbefore.unique hfirst
    exact hprop _ (hfirst.invariant hstep h₀)

theorem Run.always_iff {I : σ → Prop}
    (hstep : ∀ s a s', I s → ok s a → step s a = some s' → I s')
    (hbreak : ∀ s a s', I s → ¬ ok s a → step s a = some s' → ¬ I s') {s s' : σ} {as : List α}
    (h : Run step Free s as s') (h₀ : I s) : Always step I s as ↔ Run step ok s as s' :=
  h.always_iff_of_invariant (fun _ hI => hI) hstep hbreak h₀

/-- **A guard that decides.**  When a step that breaks the guard leads from an invariant state to a
lost one, and lost states stay lost, a run meets the guard or ends lost. -/
theorem Run.guarded_or_lost {ok' : σ → α → Prop} {I Lost : σ → Prop}
    (hstep : ∀ s a s', I s → ok s a → step s a = some s' → I s')
    (hbreak : ∀ s a s', I s → ¬ ok s a → step s a = some s' → Lost s')
    (hlost : ∀ s a s', Lost s → step s a = some s' → Lost s') {s s' : σ} {as : List α}
    (h : Run step ok' s as s') (h₀ : I s) : Run step ok s as s' ∨ Lost s' := by
  have hstay : ∀ {s s' as}, Run step ok' s as s' → Lost s → Lost s' := by
    intro s s' as h
    induction h with
    | nil s => exact id
    | cons _ hs _ ih => exact fun hl => ih (hlost _ _ _ hl hs)
  induction h with
  | nil s => exact .inl (.nil s)
  | @cons s m s' a as _ hs hr ih =>
    by_cases ho : ok s a
    · exact (ih (hstep _ _ _ h₀ ho hs)).imp_left (.cons ho hs)
    · exact .inr (hstay hr (hbreak _ _ _ h₀ ho hs))

end LabelledRun

/-!
## Endless runs

A finite run says what has not happened yet; that something does happen is a statement about a run
that goes on forever.  `Behaviour step` is such a run of a labelled partial step, and properties of
its moments are predicates on `ℕ`.

`LeadsTo P Q` says that whenever `P` holds, `Q` holds then or later.  What fairness gives is that a
`P` does not last; `LeadsTo.of_ends` turns it into `LeadsTo P Q` when `P` can only stop by `Q`.
-/

/-- A run that goes on forever. -/
structure Behaviour {σ α : Type*} (step : σ → α → Option σ) where
  state : ℕ → σ
  act : ℕ → α
  next : ∀ n, step (state n) (act n) = some (state (n + 1))

namespace Behaviour

variable {σ α : Type*} {step : σ → α → Option σ}

/-- **Invariant rule.**  What holds at the start and is kept by every step holds at every moment. -/
theorem invariant (b : Behaviour step) {I : σ → Prop}
    (hstep : ∀ s a s', I s → step s a = some s' → I s') (h₀ : I (b.state 0)) (n : ℕ) :
    I (b.state n) := by
  induction n with
  | zero => exact h₀
  | succ n ih => exact hstep _ _ _ ih (b.next n)

theorem monotone (b : Behaviour step) {rank : σ → ℕ}
    (hstep : ∀ s a s', step s a = some s' → rank s ≤ rank s') :
    Monotone fun n => rank (b.state n) :=
  monotone_nat_of_le_succ fun n => hstep _ _ _ (b.next n)

/-! ### A run after which nothing happens -/

/-- The states along these actions, and the last of them from there on. -/
def along (step : σ → α → Option σ) : List α → σ → ℕ → σ
  | [], s, _ => s
  | _ :: _, s, 0 => s
  | a :: as, s, n + 1 =>
    match step s a with
    | some s' => along step as s' n
    | none => s

theorem along_zero (as : List α) (s : σ) : along step as s 0 = s := by
  cases as <;> rfl

theorem along_cons {s s' : σ} {a : α} (h : step s a = some s') (as : List α) (n : ℕ) :
    along step (a :: as) s (n + 1) = along step as s' n := by
  rw [along, h]

theorem along_next {idle : α} (hidle : ∀ s, step s idle = some s) {s s' : σ} {as : List α}
    (h : LabelledRun.Run step LabelledRun.Free s as s') (n : ℕ) :
    step (along step as s n) (as.getD n idle) = some (along step as s (n + 1)) := by
  induction h generalizing n with
  | nil s => exact hidle s
  | @cons s m s' a as _ hs _ ih =>
    cases n with
    | zero => rw [along_cons hs, along_zero, along_zero]; exact hs
    | succ n => rw [along_cons hs, along_cons hs]; exact ih n

/-- A run goes on forever by an action that changes nothing. -/
def ofRun (idle : α) (hidle : ∀ s, step s idle = some s) {s s' : σ} {as : List α}
    (h : LabelledRun.Run step LabelledRun.Free s as s') : Behaviour step where
  state := along step as s
  act n := as.getD n idle
  next := along_next hidle h

theorem along_of_le {s s' : σ} {as : List α} (h : LabelledRun.Run step LabelledRun.Free s as s')
    {n : ℕ} (hn : as.length ≤ n) : along step as s n = s' := by
  induction h generalizing n with
  | nil s => rfl
  | @cons s m s' a as _ hs _ ih =>
    cases n with
    | zero => simp at hn
    | succ n => rw [along_cons hs]; exact ih (by simpa using hn)

/-! ### Leading to -/

/-- Whenever `P` holds, `Q` holds then or later. -/
def LeadsTo (P Q : ℕ → Prop) : Prop := ∀ n, P n → ∃ m, n ≤ m ∧ Q m

namespace LeadsTo

variable {P Q : ℕ → Prop}

theorem of_succ (h : LeadsTo P Q) {n : ℕ} (hn : P (n + 1)) : ∃ m, n ≤ m ∧ Q m := by
  obtain ⟨m, hm, hq⟩ := h (n + 1) hn
  exact ⟨m, by omega, hq⟩

/-- What does not last and can only stop by `Q` leads to `Q`. -/
theorem of_ends (hstep : ∀ n, P n → P (n + 1) ∨ Q n) (hends : ∀ n, P n → ∃ m, n ≤ m ∧ ¬ P m) :
    LeadsTo P Q := by
  intro n hn
  by_contra hnever
  -- as long as there is no `Q` every step keeps `P`
  have hstays : ∀ m, n ≤ m → P m := by
    intro m hm
    induction m, hm using Nat.le_induction with
    | base => exact hn
    | succ m hm ih =>
      rcases hstep m ih with hnext | hq
      · exact hnext
      · exact absurd ⟨m, hm, hq⟩ hnever
  obtain ⟨m, hm, hnot⟩ := hends n hn
  exact hnot (hstays m hm)

/-- What can only stop by `Q` lasts until the first `Q`. -/
theorem lasts (h : LeadsTo P Q) (hstep : ∀ n, P n → P (n + 1) ∨ Q n) {n : ℕ} (hn : P n) :
    ∃ m, n ≤ m ∧ Q m ∧ ∀ k, n ≤ k → k ≤ m → P k := by
  classical
  have hsome : ∃ m, n ≤ m ∧ Q m := h n hn
  refine ⟨Nat.find hsome, (Nat.find_spec hsome).1, (Nat.find_spec hsome).2, fun k hnk hk => ?_⟩
  induction k, hnk using Nat.le_induction with
  | base => exact hn
  | succ k hnk ih =>
    rcases hstep k (ih (by omega)) with hnext | hq
    · exact hnext
    · exact absurd ⟨hnk, hq⟩ (Nat.find_min hsome hk)

end LeadsTo

end Behaviour
