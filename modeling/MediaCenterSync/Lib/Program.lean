import MediaCenterSync.Lib.LabelledRun

/-!
# Programs that talk to a world that may fail

A `Program` is a tree of operations: it performs one, reads the answer and goes on.  What an
operation does is left to a relation `W s op s' r`, read as: performed in the state `s`, the
operation `op` may leave the state `s'` and answer `r`.  A relation rather than a function,
because a world may refuse, stop half-way or answer late, and a program has to be right whatever
it does.

Two notions are of interest.  `Exec` relates the start of a complete execution to its end.
`Visits` names every state in which an execution may be cut: a stopped process leaves one of
them behind.  `Always W I Q p s` is the weakest precondition for both at once, `I` in every visited
state and `Q` at the end (`always_iff`), and it goes through a program by recursion
(`always_bind`, `always_perform`).
-/

universe u v w

/-- A tree of operations with results in `α`. -/
inductive Program (Op : Type u) (Answer : Op → Type v) (α : Type w) where
  | pure (a : α)
  | perform (op : Op) (next : Answer op → Program Op Answer α)

namespace Program

variable {Op : Type u} {Answer : Op → Type v} {α β σ : Type w}

/-- Performing `p` and then, with its result, `f`. -/
protected def bind : Program Op Answer α → (α → Program Op Answer β) → Program Op Answer β
  | .pure a, f => f a
  | .perform op next, f => .perform op fun r => (next r).bind f

instance : Monad (Program Op Answer) where
  pure := .pure
  bind := Program.bind

/-- The program that performs one operation and answers what it answered. -/
def ask {Op : Type u} {Answer : Op → Type w} (op : Op) : Program Op Answer (Answer op) :=
  .perform op .pure

/-! ### Executions -/

/-- The complete executions of a program, from a state to a state and a result. -/
inductive Exec (W : σ → (op : Op) → σ → Answer op → Prop) :
    σ → Program Op Answer α → σ → α → Prop
  | pure (s : σ) (a : α) : Exec W s (.pure a) s a
  | perform {s s'' : σ} {op : Op} {next : Answer op → Program Op Answer α} {a : α} (s' : σ)
      (r : Answer op) : W s op s' r → Exec W s' (next r) s'' a → Exec W s (.perform op next) s'' a

/-- The states in which an execution of a program may be cut. -/
inductive Visits (W : σ → (op : Op) → σ → Answer op → Prop) : σ → Program Op Answer α → σ → Prop
  | here (s : σ) (p : Program Op Answer α) : Visits W s p s
  | later {s s'' : σ} {op : Op} {next : Answer op → Program Op Answer α} (s' : σ)
      (r : Answer op) : W s op s' r → Visits W s' (next r) s'' → Visits W s (.perform op next) s''

/-- An execution of a sequence is an execution of its first part, and one of the rest. -/
theorem exec_bind {W : σ → (op : Op) → σ → Answer op → Prop} {p : Program Op Answer α}
    {f : α → Program Op Answer β} {s s'' : σ} {b : β} :
    Exec W s (p >>= f) s'' b ↔ ∃ s' a, Exec W s p s' a ∧ Exec W s' (f a) s'' b := by
  induction p generalizing s with
  | pure a =>
    constructor
    · exact fun h => ⟨s, a, .pure s a, h⟩
    · rintro ⟨s', a', h, hf⟩
      cases h
      exact hf
  | perform op next ih =>
    constructor
    · intro h
      cases h with
      | perform s' r hw hrest =>
        obtain ⟨m, a, hp, hf⟩ := (ih r).mp hrest
        exact ⟨m, a, .perform s' r hw hp, hf⟩
    · rintro ⟨m, a, hp, hf⟩
      cases hp with
      | perform s' r hw hrest => exact .perform s' r hw ((ih r).mpr ⟨m, a, hrest, hf⟩)

theorem Exec.visits {W : σ → (op : Op) → σ → Answer op → Prop} {p : Program Op Answer α}
    {s s' : σ} {a : α} (h : Exec W s p s' a) : Visits W s p s' := by
  induction h with
  | pure s a => exact .here s _
  | perform s' r hw _ ih => exact .later s' r hw ih

/-! ### The weakest precondition -/

variable {W : σ → (op : Op) → σ → Answer op → Prop} {I : σ → Prop} {Q : α → σ → Prop}

/-- `I` holds in every state the program visits from here, and `Q` where it ends. -/
def Always (W : σ → (op : Op) → σ → Answer op → Prop) (I : σ → Prop) (Q : α → σ → Prop) :
    Program Op Answer α → σ → Prop
  | .pure a, s => I s ∧ Q a s
  | .perform op next, s => I s ∧ ∀ s' r, W s op s' r → Always W I Q (next r) s'

@[simp]
theorem always_pure {a : α} {s : σ} :
    Always W I Q (Pure.pure a : Program Op Answer α) s ↔ I s ∧ Q a s :=
  Iff.rfl

theorem Always.here {p : Program Op Answer α} {s : σ} (h : Always W I Q p s) : I s := by
  cases p with
  | pure a => exact h.1
  | perform op next => exact h.1

/-- Weakening what holds on the way and what holds at the end. -/
theorem Always.mono {I' : σ → Prop} {Q' : α → σ → Prop} (hI : ∀ s, I s → I' s)
    (hQ : ∀ a s, I s → Q a s → Q' a s) {p : Program Op Answer α} {s : σ} (h : Always W I Q p s) :
    Always W I' Q' p s := by
  induction p generalizing s with
  | pure a => exact ⟨hI _ h.1, hQ _ _ h.1 h.2⟩
  | perform op next ih => exact ⟨hI _ h.1, fun s' r hr => ih r (h.2 s' r hr)⟩

/-- **Sequencing.** -/
theorem always_bind {Q : β → σ → Prop} {p : Program Op Answer α} {f : α → Program Op Answer β}
    {s : σ} : Always W I Q (p >>= f) s ↔ Always W I (fun a s' => Always W I Q (f a) s') p s := by
  induction p generalizing s with
  | pure a => exact ⟨fun h => ⟨h.here, h⟩, And.right⟩
  | perform op next ih =>
    exact and_congr_right fun _ => forall_congr' fun s' => forall_congr' fun r =>
      imp_congr_right fun _ => ih r

theorem Always.bind {R : α → σ → Prop} {Q : β → σ → Prop} {p : Program Op Answer α}
    {f : α → Program Op Answer β} {s : σ} (hp : Always W I R p s)
    (hf : ∀ a s', R a s' → Always W I Q (f a) s') : Always W I Q (p >>= f) s :=
  always_bind.mpr (hp.mono (fun _ h => h) fun a s' _ h => hf a s' h)

theorem always_ask_bind {Answer : Op → Type w} {W : σ → (op : Op) → σ → Answer op → Prop}
    {Q : β → σ → Prop} {op : Op} {f : Answer op → Program Op Answer β} {s : σ} :
    Always W I Q (ask op >>= f) s ↔ I s ∧ ∀ s' r, W s op s' r → Always W I Q (f r) s' :=
  Iff.rfl

theorem Always.visits {p : Program Op Answer α} {s s' : σ} (h : Always W I Q p s)
    (hv : Visits W s p s') : I s' := by
  induction hv with
  | here s p => exact h.here
  | later s' r hw _ ih => exact ih (h.2 s' r hw)

theorem Always.exec {p : Program Op Answer α} {s s' : σ} {a : α} (h : Always W I Q p s)
    (he : Exec W s p s' a) : Q a s' := by
  induction he with
  | pure s a => exact h.2
  | perform s' r hw _ ih => exact ih (h.2 s' r hw)

/-- **Adequacy**: `Always` says exactly what the visited states and the ends satisfy. -/
theorem always_iff {p : Program Op Answer α} {s : σ} :
    Always W I Q p s ↔ (∀ s', Visits W s p s' → I s') ∧ ∀ s' a, Exec W s p s' a → Q a s' := by
  constructor
  · intro h
    exact ⟨fun _ hv => h.visits hv, fun _ _ he => h.exec he⟩
  · rintro ⟨hI, hQ⟩
    induction p generalizing s with
    | pure a => exact ⟨hI s (.here s _), hQ s a (.pure s a)⟩
    | perform op next ih =>
      exact ⟨hI s (.here s _), fun s' r hw =>
        ih r (fun _ hv => hI _ (.later s' r hw hv)) fun _ _ he => hQ _ _ (.perform s' r hw he)⟩

/-! ### What a program keeps track of -/

section Tracks

variable {τ : Type*} {may : (op : Op) → Answer op → Prop} {pre : τ → Op → Prop}
  {after : τ → (op : Op) → Answer op → τ}

/-- A program that never performs an operation unless `pre` allows it, where `τ` is what it keeps
track of (`after`), and that ends with `Q`.  Of the world it is only said what it may answer. -/
def Tracks (may : (op : Op) → Answer op → Prop) (pre : τ → Op → Prop)
    (after : τ → (op : Op) → Answer op → τ) (Q : α → τ → Prop) : Program Op Answer α → τ → Prop
  | .pure a, t => Q a t
  | .perform op next, t =>
    pre t op ∧ ∀ r, may op r → Tracks may pre after Q (next r) (after t op r)

@[simp]
theorem tracks_pure {Q : α → τ → Prop} {a : α} {t : τ} :
    Tracks may pre after Q (Pure.pure a : Program Op Answer α) t ↔ Q a t :=
  Iff.rfl

theorem Tracks.mono {Q Q' : α → τ → Prop} (hQ : ∀ a t, Q a t → Q' a t) {p : Program Op Answer α}
    {t : τ} (h : Tracks may pre after Q p t) : Tracks may pre after Q' p t := by
  induction p generalizing t with
  | pure a => exact hQ a t h
  | perform op next ih => exact ⟨h.1, fun r hr => ih r (h.2 r hr)⟩

theorem Tracks.bind {R : α → τ → Prop} {Q : β → τ → Prop} {p : Program Op Answer α}
    {f : α → Program Op Answer β} {t : τ} (hp : Tracks may pre after R p t)
    (hf : ∀ a t', R a t' → Tracks may pre after Q (f a) t') :
    Tracks may pre after Q (p >>= f) t := by
  induction p generalizing t with
  | pure a => exact hf a t hp
  | perform op next ih => exact ⟨hp.1, fun r hr => ih r (hp.2 r hr)⟩

theorem tracks_ask_bind {Answer : Op → Type w} {may : (op : Op) → Answer op → Prop}
    {after : τ → (op : Op) → Answer op → τ} {Q : β → τ → Prop} {op : Op}
    {f : Answer op → Program Op Answer β} {t : τ} :
    Tracks may pre after Q (ask op >>= f) t ↔
      pre t op ∧ ∀ r, may op r → Tracks may pre after Q (f r) (after t op r) :=
  Iff.rfl

end Tracks

/-! ### The operations a program performs -/

/-- Every operation of the program is one of these. -/
def Only (P : Op → Prop) : Program Op Answer α → Prop
  | .pure _ => True
  | .perform op next => P op ∧ ∀ r, Only P (next r)

theorem only_pure {P : Op → Prop} {a : α} : Only P (Pure.pure a : Program Op Answer α) :=
  trivial

theorem only_ask {Answer : Op → Type w} {P : Op → Prop} {op : Op} (h : P op) :
    Only P (ask op : Program Op Answer (Answer op)) :=
  ⟨h, fun _ => trivial⟩

theorem Only.mono {P P' : Op → Prop} (hP : ∀ op, P op → P' op) {p : Program Op Answer α}
    (h : Only P p) : Only P' p := by
  induction p with
  | pure a => trivial
  | perform op next ih => exact ⟨hP op h.1, fun r => ih r (h.2 r)⟩

theorem Only.bind {P : Op → Prop} {p : Program Op Answer α} {f : α → Program Op Answer β}
    (hp : Only P p) (hf : ∀ a, Only P (f a)) : Only P (p >>= f) := by
  induction p with
  | pure a => exact hf a
  | perform op next ih => exact ⟨hp.1, fun r => ih r (hp.2 r)⟩

/-- A program whose operations are allowed and change nothing that is kept track of. -/
theorem Only.tracks {τ : Type*} {may : (op : Op) → Answer op → Prop} {pre : τ → Op → Prop}
    {after : τ → (op : Op) → Answer op → τ} {P : Op → Prop} {Q : α → τ → Prop}
    {p : Program Op Answer α} {t : τ} (h : Only P p) (hpre : ∀ op, P op → pre t op)
    (hafter : ∀ op r, P op → after t op r = t) (hQ : ∀ a, Q a t) :
    Tracks may pre after Q p t := by
  induction p with
  | pure a => exact hQ a
  | perform op next ih =>
    refine ⟨hpre op h.1, fun r _ => ?_⟩
    rw [hafter op r h.1]
    exact ih r (h.2 r)

/-- The program may come to an operation, without one before it that ends the matter. -/
inductive Comes (goal ends : Op → Prop) : Program Op Answer α → Prop
  | here {op : Op} {next : Answer op → Program Op Answer α} : goal op →
      Comes goal ends (.perform op next)
  | later {op : Op} {next : Answer op → Program Op Answer α} (r : Answer op) : ¬ ends op →
      Comes goal ends (next r) → Comes goal ends (.perform op next)

/-! ### Looking only -/

/-- What a program answers where every answer is known. -/
def eval (look : (op : Op) → Answer op) : Program Op Answer α → α
  | .pure a => a
  | .perform op next => eval look (next (look op))

theorem eval_bind (look : (op : Op) → Answer op) (p : Program Op Answer α)
    (f : α → Program Op Answer β) : (p >>= f).eval look = (f (p.eval look)).eval look := by
  induction p with
  | pure a => rfl
  | perform op next ih => exact ih _

theorem Only.always {P : Op → Prop} {look : (op : Op) → Answer op}
    (hW : ∀ op s s' r, P op → W s op s' r → s' = s ∧ r = look op) {p : Program Op Answer α} {s : σ}
    (h : Only P p) (hI : I s) : Always W I (fun a s' => s' = s ∧ a = p.eval look) p s := by
  induction p with
  | pure a => exact ⟨hI, rfl, rfl⟩
  | perform op next ih =>
    refine ⟨hI, fun s' r hw => ?_⟩
    obtain ⟨rfl, rfl⟩ := hW op s s' r h.1 hw
    exact ih _ (h.2 _)

theorem exists_exec (hW : ∀ s op, ∃ s' r, W s op s' r) (p : Program Op Answer α) (s : σ) :
    ∃ s' a, Exec W s p s' a := by
  induction p generalizing s with
  | pure a => exact ⟨s, a, .pure s a⟩
  | perform op next ih =>
    obtain ⟨s', r, hw⟩ := hW s op
    obtain ⟨s'', a, hexec⟩ := ih r s'
    exact ⟨s'', a, .perform s' r hw hexec⟩

/-! ### A world that answers by a function -/

section Follow

variable (answer : σ → (op : Op) → Answer op) (after : σ → (op : Op) → Answer op → σ)
  (check : σ → Op → Bool)

/-- The state after so many operations, where every one of them passes the check. -/
def follow : ℕ → Program Op Answer α → σ → Option σ
  | 0, _, s => some s
  | _ + 1, .pure _, _ => none
  | n + 1, .perform op next, s =>
    if check s op then follow n (next (answer s op)) (after s op (answer s op)) else none

variable {answer after check}

theorem visits_follow {W : σ → (op : Op) → σ → Answer op → Prop}
    (hW : ∀ s op, check s op = true → W s op (after s op (answer s op)) (answer s op)) {n : ℕ}
    {p : Program Op Answer α} {s s' : σ} (h : follow answer after check n p s = some s') :
    Visits W s p s' := by
  induction n generalizing p s with
  | zero =>
    obtain rfl := Option.some.inj h
    exact .here s p
  | succ n ih =>
    cases p with
    | pure a => cases h
    | perform op next =>
      obtain ⟨hcheck, hrest⟩ := Option.ite_none_right_eq_some.mp h
      exact .later _ _ (hW s op hcheck) (ih hrest)

end Follow

end Program

/-!
## Programs that run beside each other

A pool is a shared state and the programs that are being run on it, each begun by a call.  An action
begins one more, where the state of the pool lets it, or performs the next operation of one of them:
what it does to the state and what it answers is `perform`'s, from what the world would answer.

What every program says of the state (`Rely`) holds on, if the one that acts leaves it so for itself
and for each of the others: `inv_of_run`.
-/

namespace Threads

variable {Op : Type u} {Answer : Op → Type v} {σ : Type w} {Call : Type}

/-- A call and what is left of its program. -/
structure Thread (Op : Type u) (Answer : Op → Type v) (Call : Type) where
  call : Call
  rest : Program Op Answer Unit

/-- The state everybody shares, and who runs on it. -/
structure Pool (Op : Type u) (Answer : Op → Type v) (σ : Type w) (Call : Type) where
  state : σ
  threads : List (Thread Op Answer Call)

inductive Action (Op : Type u) (Answer : Op → Type v) (Call : Type) where
  | start (call : Call)
  /-- The next operation of a thread, in a world that gives these answers. -/
  | act (i : ℕ) (world : (op : Op) → Answer op)

variable (script : Call → Program Op Answer Unit)
  (may : List (Thread Op Answer Call) → Call → Bool)
  (perform : Call → σ → (op : Op) → Answer op → σ × Answer op)

def step (pool : Pool Op Answer σ Call) :
    Action Op Answer Call → Option (Pool Op Answer σ Call)
  | .start call =>
    if may pool.threads call then
      some { pool with threads := pool.threads ++ [⟨call, script call⟩] }
    else none
  | .act i world =>
    match pool.threads[i]? with
    | some ⟨call, .perform op next⟩ =>
      let (state, answer) := perform call pool.state op (world op)
      some { state := state, threads := pool.threads.set i ⟨call, next answer⟩ }
    | _ => none

/-- Every operation is performed beside programs it does not disturb. -/
def Beside (free : Call → Op → Thread Op Answer Call → Prop) (pool : Pool Op Answer σ Call) :
    Action Op Answer Call → Prop
  | .start _ => True
  | .act i _ => ∀ call op next, pool.threads[i]? = some ⟨call, .perform op next⟩ →
      ∀ j thread, j ≠ i → pool.threads[j]? = some thread → free call op thread

def Thread.isOver : Thread Op Answer Call → Bool
  | ⟨_, .pure _⟩ => true
  | ⟨_, .perform _ _⟩ => false

/-- Every operation is performed by the one program that is not over. -/
def Alone (pool : Pool Op Answer σ Call) : Action Op Answer Call → Prop
  | .start _ => True
  | .act i _ => (pool.threads.eraseIdx i).all Thread.isOver = true

instance (pool : Pool Op Answer σ Call) : (a : Action Op Answer Call) → Decidable (Alone pool a)
  | .start _ => inferInstanceAs (Decidable True)
  | .act _ _ => inferInstanceAs (Decidable (_ = true))

theorem Alone.beside {free : Call → Op → Thread Op Answer Call → Prop}
    (hfree : ∀ call op thread, thread.isOver = true → free call op thread)
    {pool : Pool Op Answer σ Call} {a : Action Op Answer Call} (h : Alone pool a) :
    Beside free pool a := by
  cases a with
  | start call => trivial
  | act i world =>
    intro call op next _ j thread hj hthread
    refine hfree call op thread (List.all_eq_true.mp h thread ?_)
    exact List.mem_eraseIdx_iff_getElem?.mpr ⟨j, hj, hthread⟩

/-- What holds of the state, and what every thread says of it. -/
structure Inv (I : σ → Prop) (Rely : σ → Thread Op Answer Call → Prop)
    (pool : Pool Op Answer σ Call) : Prop where
  state : I pool.state
  rely : ∀ thread ∈ pool.threads, Rely pool.state thread

variable {script may perform} {I : σ → Prop} {Rely : σ → Thread Op Answer Call → Prop}
  {free : Call → Op → Thread Op Answer Call → Prop}

/-- **Rely and guarantee.**  What a program says of the state holds wherever a run gets to, if it
says nothing false when it begins, and whoever acts leaves it true for itself and for the others. -/
theorem inv_of_run
    (hstart : ∀ s call, I s → Rely s ⟨call, script call⟩)
    (hown : ∀ s call op next world, I s → Rely s ⟨call, .perform op next⟩ →
      I (perform call s op world).1 ∧
        Rely (perform call s op world).1 ⟨call, next (perform call s op world).2⟩)
    (hother : ∀ s call op next world thread, I s → Rely s ⟨call, .perform op next⟩ →
      free call op thread → Rely s thread → Rely (perform call s op world).1 thread)
    {pool pool' : Pool Op Answer σ Call} {as : List (Action Op Answer Call)}
    (h : LabelledRun.Run (step script may perform) (Beside free) pool as pool')
    (h₀ : Inv I Rely pool) : Inv I Rely pool' := by
  refine h.invariant (fun p a p' hinv hfree hstep => ?_) h₀
  cases a with
  | start call =>
    obtain ⟨-, hp'⟩ := Option.ite_none_right_eq_some.mp hstep
    cases hp'
    refine ⟨hinv.state, fun thread hthread => ?_⟩
    rcases List.mem_append.mp hthread with hold | hnew
    · exact hinv.rely thread hold
    · rw [List.mem_singleton.mp hnew]
      exact hstart _ call hinv.state
  | act i world =>
    simp only [step] at hstep
    split at hstep
    case h_2 => exact absurd hstep (by simp)
    case h_1 call op next hthread =>
      cases hstep
      have hrely := hinv.rely _ (List.mem_of_getElem? hthread)
      obtain ⟨hI, hnext⟩ := hown _ call op next (world op) hinv.state hrely
      refine ⟨hI, fun thread hin => ?_⟩
      obtain ⟨j, hj⟩ := List.getElem?_of_mem hin
      rw [List.getElem?_set] at hj
      by_cases hij : i = j
      · rw [if_pos hij] at hj
        obtain ⟨-, hset⟩ := Option.ite_none_right_eq_some.mp hj
        cases hset
        exact hnext
      · rw [if_neg hij] at hj
        exact hother _ call op next (world op) thread hinv.state hrely
          (hfree call op next hthread j thread (Ne.symm hij) hj)
          (hinv.rely thread (List.mem_of_getElem? hj))

end Threads
