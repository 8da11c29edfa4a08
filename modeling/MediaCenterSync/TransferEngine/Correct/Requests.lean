import MediaCenterSync.TransferEngine.Correct.Engine

/-!
# Whether a pause or a cancellation is kept

A pause or a cancellation that was answered should be what is left of the transfer when the engine
is done with it: the row reads paused, or cancelled for the reason given and the working file is
gone (`Answer.Kept`).  Which answers stand is a matter of the trace (`watch`): an answer is given
when the call returns, and withdrawn by a later operation that asks for something else.

`InOrder` is the guard under which answers are kept.  An answer is given in order when the run it
meets has yet to look at the request, and will look at it in the place that knows its reason, or
when no run is under way that would write the row; and it is kept in order while nothing else
writes the row once the run has, the run does not throw or fail, and no move completes that was to
be stopped.  Under it every standing answer either waits in the run (`Answered`) or is kept, and a
transfer that is nowhere in the engine has no run (`kept_of_inOrder`).
-/

namespace MediaCenterSync.TransferEngine

/-! ### Answers -/

inductive Answer where
  | paused
  | cancelled (kind : TransferErrorKind)
deriving DecidableEq, Repr

def Answer.Reads : Answer → Row → Prop
  | .paused, row => row.state = .PAUSED
  | .cancelled kind, row => row.state = .CANCELLED ∧ row.errorKind = some kind

instance (p : Answer) (row : Row) : Decidable (p.Reads row) := by
  cases p <;> unfold Answer.Reads <;> infer_instance

/-- **The answer is kept**: the row says so, and a cancellation has removed the working file. -/
def Answer.Kept (p : Answer) (s : Store) : Prop :=
  p.Reads s.row ∧ (p ≠ .paused → s.work = none)

instance (p : Answer) (s : Store) : Decidable (p.Kept s) := inferInstanceAs (Decidable (_ ∧ _))

namespace Engine

/-- A call that finds the transfer running returns at once. -/
def answersAtOnce (e : Engine) : Bool := e.registered.isSome ∧ e.store.row.state ≠ .DONE

def answers (e : Engine) : Act → Option Answer
  | .issue .pause => if e.answersAtOnce then some .paused else none
  | .issue (.cancel kind) => if e.answersAtOnce then some (.cancelled kind) else none
  | .call i =>
    match e.calls[i]? with
    | some (.setState .pause (some _)) => some .paused
    | some (.cancel kind .remove) => some (.cancelled kind)
    | _ => none
  | _ => none

/-- A later operation asks for something else. -/
def withdraws : Act → Answer → Bool
  | .issue .resume, _ | .issue .retry, _ => true
  | .issue .enqueue, .cancelled _ => true
  | .issue (.cancel _), .paused => true
  | _, _ => false

/-- The answers that stand after a step. -/
def watch (e : Engine) (a : Act) (ps : List Answer) : List Answer :=
  ps.filter (fun p => !withdraws a p) ++ (e.answers a).toList

def watched (content : ServiceId → List UInt8) (hash : List UInt8 → String) :
    Engine × List Answer → Act → Option (Engine × List Answer) :=
  fun (e, ps) a => (e.step content hash a).map fun e' => (e', e.watch a ps)

def OneProcess : Engine × List Answer → Act → Prop
  | _, .restart _ => False
  | _, _ => True

instance (s : Engine × List Answer) (a : Act) : Decidable (OneProcess s a) := by
  cases a <;> unfold OneProcess <;> infer_instance

end Engine

/-! ### In order -/

/-- The download looks at the request when it ends. -/
def RunPhase.early : RunPhase → Bool
  | .setState .DOWNLOADING _ | .downloading => true
  | _ => false

/-- The run does not write the row any more. -/
def RunPhase.final : RunPhase → Bool
  | .load | .cancelling _ .remove | .closing => true
  | _ => false

/-- The run is about to write that it is paused. -/
def RunPhase.holds : RunPhase → Bool
  | .setState .PAUSED _ => true
  | _ => false

/-- The run does not get to write the row, or writes that it is cancelled. -/
def RunPhase.yields (kind : TransferErrorKind) : RunPhase → Bool
  | .load | .closing => true
  | .cancelling kind' _ => kind' = kind
  | _ => false

/-- A request meets the run where it is looked at, and as it is meant. -/
def Run.Heeds (r : Run) : Answer → Prop
  | .paused => r.cancelling = false ∧ r.phase.early = true ∨
      r.phase.late = true ∧ r.aborted ≠ some .cancel ∨ r.phase.holds = true
  | .cancelled kind => r.phase.early = true ∨
      r.phase.late = true ∧ kind = .CANCELLED ∧ r.aborted ≠ some .stop

instance (r : Run) (p : Answer) : Decidable (r.Heeds p) := by
  cases p <;> unfold Run.Heeds <;> infer_instance

/-- The run ends with an error, or with the move. -/
def Run.breaksOff (hash : List UInt8 → String) (s : Store) (r : Run) : RunAct → Bool
  | .moved | .throws => true
  | .next => r.phase = .verifying ∧ MAX_REPAIR_PASSES ≤ r.pass ∧
      (verify hash s.workFile (r.plan.chunks.map (·.verifiable)) (some r.plan.bytesTotal) none).ok =
        false
  | _ => false

def Run.fetchThrows (r : Run) (f : Fetch) : Bool :=
  match f.stage with
  | .saving _ true => (r.plan.chunks[f.chunk]?).any (·.state = .FAILED)
  | _ => false

namespace Engine

/-- The row a step saves that is no step of the main thread of a run. -/
def savesRow (e : Engine) : Act → Option Row
  | .call i => (e.calls[i]?).bind Call.saves
  | .flush k => (e.runs[k]?).map (·.transfer)
  | _ => none

/-- No run is going to write the row. -/
def Settled (e : Engine) : Prop := ∀ r ∈ e.runs, r.phase ≠ .ended → r.phase.final = true

instance (e : Engine) : Decidable e.Settled := inferInstanceAs (Decidable (∀ r ∈ e.runs, _))

def Respects (hash : List UInt8 → String) (e : Engine) (p : Answer) : Act → Prop
  | .issue (.cancel kind) => e.registered ≠ none → p = .paused ∨ p = .cancelled kind
  | .call i => ∀ row ∈ e.savesRow (.call i), e.Settled → p.Reads row
  | .flush k => ∀ row ∈ e.savesRow (.flush k), e.Settled → p.Reads row
  | .settings _ false => p ≠ .paused
  | .run k a => ∀ r ∈ e.runs[k]?, r.breaksOff hash e.store a = false
  | .work k w (some .save) => ∀ r ∈ e.runs[k]?, ∀ f ∈ (r.workers[w]?).bind Worker.fetch,
      r.phase = .downloading → r.fetchThrows f = false
  | .refetch k .save => ∀ r ∈ e.runs[k]?, ∀ f ∈ r.phase.fetch, r.fetchThrows f = false
  | _ => True

instance (hash : List UInt8 → String) (e : Engine) (p : Answer) (a : Act) :
    Decidable (e.Respects hash p a) := by
  cases a with
  | issue operation => cases operation <;> dsimp only [Respects] <;> infer_instance
  | settings i queuePaused => cases queuePaused <;> dsimp only [Respects] <;> infer_instance
  | work k w a =>
    cases a with
    | none => dsimp only [Respects]; infer_instance
    | some a => cases a <;> dsimp only [Respects] <;> infer_instance
  | refetch k a => cases a <;> dsimp only [Respects] <;> infer_instance
  | _ => dsimp only [Respects]; infer_instance

/-- An answer is given where it will be kept: by a run that looks at it, or when the row is the
last word. -/
def Sound (e : Engine) (p : Answer) : Act → Prop
  | .call _ =>
    match p with
    | .paused => e.queued = 0 ∧ ∀ r ∈ e.runs, r.phase ≠ .ended → r.phase = .closing
    | .cancelled kind => p.Reads e.store.row ∧
        ∀ r ∈ e.runs, r.phase ≠ .ended → r.phase.yields kind = true
  | _ => ∀ k ∈ e.registered, ∀ r ∈ e.runs[k]?, r.Heeds p ∨ r.phase = .closing ∧ p.Kept e.store

instance (e : Engine) (p : Answer) (a : Act) : Decidable (e.Sound p a) := by
  cases a <;> cases p <;> unfold Sound <;> infer_instance

/-- **In order**: the tests of `enqueue` hold, every standing answer is respected, and the one that
is given is sound. -/
def InOrder (hash : List UInt8 → String) : Engine × List Answer → Act → Prop :=
  fun (e, ps) a => e.TestHolds a ∧ OneProcess (e, ps) a ∧
    (∀ p ∈ ps, withdraws a p = false → e.Respects hash p a) ∧ ∀ p ∈ e.answers a, e.Sound p a

instance (hash : List UInt8 → String) (s : Engine × List Answer) (a : Act) :
    Decidable (InOrder hash s a) := inferInstanceAs (Decidable (_ ∧ _ ∧ _ ∧ _))

end Engine

/-! ### The invariant -/

/-- A run that is under way will answer, or has answered. -/
inductive Answered (s : Store) (r : Run) : Answer → Prop
  | pausing : r.phase.early = true → r.pausing = true → r.cancelling = false →
      Answered s r .paused
  | stopping : r.phase.late = true → r.aborted = some .stop → Answered s r .paused
  | holding {copy : Option Row} : r.phase = .setState .PAUSED copy → Answered s r .paused
  | cancelling {kind : TransferErrorKind} : r.phase.early = true → r.cancelling = true →
      r.cancelKind = kind → Answered s r (.cancelled kind)
  | discarding :
      r.phase.late = true → r.aborted = some .cancel → Answered s r (.cancelled .CANCELLED)
  | removing {kind : TransferErrorKind} {stage : CancelStage} : r.phase = .cancelling kind stage →
      (stage = .remove → (Answer.cancelled kind).Reads s.row) → Answered s r (.cancelled kind)
  | loading {p : Answer} : r.phase = .load → p ≠ .paused → p.Kept s → Answered s r p
  | closing {p : Answer} : r.phase = .closing → p.Kept s → Answered s r p

structure Engine.Stands (e : Engine) (p : Answer) : Prop where
  queued : p = .paused → e.queued = 0
  answered : ∀ r ∈ e.runs, r.Live → Answered e.store r p
  kept : (∀ r ∈ e.runs, ¬ r.Live) → p.Kept e.store

/-! ### What a step does to an answer -/

section

variable {s s' : Store} {r r' : Run} {p : Answer}

theorem Answer.Kept.mono (h : p.Kept s) (hrow : p.Reads s.row → p.Reads s'.row)
    (hwork : s'.work = s.work ∨ s'.work = none) : p.Kept s' := by
  refine ⟨hrow h.1, fun hp => ?_⟩
  obtain hwork | hwork := hwork
  · rw [hwork]
    exact h.2 hp
  · exact hwork

/-- Somebody else writes the row: that matters once the run does not. -/
theorem Answered.mono (h : Answered s r p)
    (hrow : r.phase.final = true → p.Reads s.row → p.Reads s'.row)
    (hwork : s'.work = s.work ∨ s'.work = none) : Answered s' r p := by
  cases h with
  | pausing hphase hpausing hcancelling => exact .pausing hphase hpausing hcancelling
  | stopping hphase haborted => exact .stopping hphase haborted
  | holding hphase => exact .holding hphase
  | cancelling hphase hcancelling hkind => exact .cancelling hphase hcancelling hkind
  | discarding hphase haborted => exact .discarding hphase haborted
  | removing hphase hreads =>
    refine .removing hphase fun hstage => hrow ?_ (hreads hstage)
    rw [hphase, hstage]
    rfl
  | loading hphase hp hkept =>
    exact .loading hphase hp (hkept.mono (hrow (by rw [hphase]; rfl)) hwork)
  | closing hphase hkept =>
    exact .closing hphase (hkept.mono (hrow (by rw [hphase]; rfl)) hwork)

/-- Only the main thread and the flags of a run matter. -/
theorem Answered.congr (h : Answered s r p) (hphase : r'.phase = r.phase)
    (haborted : r'.aborted = r.aborted) (hpausing : r'.pausing = r.pausing)
    (hcancelling : r'.cancelling = r.cancelling) (hkind : r'.cancelKind = r.cancelKind) :
    Answered s r' p := by
  cases h with
  | pausing hearly hp hc => exact .pausing (hphase ▸ hearly) (hpausing ▸ hp) (hcancelling ▸ hc)
  | stopping hlate ha => exact .stopping (hphase ▸ hlate) (haborted ▸ ha)
  | holding h => exact .holding (hphase.trans h)
  | cancelling hearly hc hk =>
    exact .cancelling (hphase ▸ hearly) (hcancelling ▸ hc) (hkind.trans hk)
  | discarding hlate ha => exact .discarding (hphase ▸ hlate) (haborted ▸ ha)
  | removing h hreads => exact .removing (hphase.trans h) hreads
  | loading h hp hkept => exact .loading (hphase.trans h) hp hkept
  | closing h hkept => exact .closing (hphase.trans h) hkept

theorem Answered.alike (h : Answered s r p) (hr : r.Alike r') : Answered s r' p :=
  h.congr hr.phase hr.aborted hr.pausing hr.cancelling hr.cancelKind

variable {hash : List UInt8 → String} {a : RunAct} {effect : Effect}

/-- A flagged run goes on downloading until it looks at its flags. -/
theorem Run.Step.early (hs : Run.Step hash s r a s' r' effect) (h : r.phase.early = true) :
    r'.phase.early = true ∧ r'.pausing = r.pausing ∧ r'.cancelling = r.cancelling ∧
        r'.cancelKind = r.cancelKind ∨
      r.cancelling = true ∧ r'.phase = .cancelling r.cancelKind .load ∨
      r.cancelling = false ∧ r.pausing = true ∧ r'.phase = .setState .PAUSED none ∨
      r.cancelling = false ∧ r.pausing = false := by
  cases hs with
  | @setLoad state hphase =>
    rw [hphase] at h
    refine .inl ⟨?_, rfl, rfl, rfl⟩
    cases state <;> first | rfl | cases h
  | @setSave state copy hphase =>
    rw [hphase] at h
    refine .inl ?_
    cases state <;> first | exact ⟨rfl, rfl, rfl, rfl⟩ | cases h
  | downloadedCancel _ _ hcancelling => exact .inr (.inl ⟨hcancelling, rfl⟩)
  | downloadedPause _ _ hcancelling hpausing =>
    exact .inr (.inr (.inl ⟨hcancelling, hpausing, rfl⟩))
  | downloaded _ _ hcancelling hpausing => exact .inr (.inr (.inr ⟨hcancelling, hpausing⟩))
  | loadEnded hphase | load hphase | plan hphase | persist hphase | inserted hphase
  | insert hphase | insertFails hphase | «open» hphase | cancelLoad hphase | cancelSave hphase
  | cancelRemove hphase | verified hphase | repair hphase | giveUp hphase | assign hphase
  | fails hphase | placeStops hphase | place hphase | finish hphase | catchLoad hphase
  | close hphase | noSource hphase | prepared hphase | moved hphase | stops hphase
  | fail hphase => simp [hphase, RunPhase.early] at h
  | throws hphase =>
      obtain hphase | hphase | hphase := hphase <;> simp [hphase, RunPhase.early] at h

theorem Run.Step.late (hs : Run.Step hash s r a s' r' effect) (h : r.phase.late = true)
    {reason : AbortReason} (haborted : r.aborted = some reason)
    (hbreaks : r.breaksOff hash s a = false) :
    r'.phase.late = true ∧ r'.aborted = some reason ∨
      reason = .cancel ∧ r'.phase = .cancelling .CANCELLED .load ∨
      reason = .stop ∧ r'.phase = .setState .PAUSED none := by
  cases hs with
  | @setLoad state hphase =>
    rw [hphase] at h
    refine .inl ⟨?_, haborted⟩
    cases state <;> first | rfl | cases h
  | @setSave state copy hphase =>
    rw [hphase] at h
    refine .inl ?_
    cases state <;> first | exact ⟨rfl, haborted⟩ | cases h
  | verified => exact .inl ⟨rfl, haborted⟩
  | repair => exact .inl ⟨rfl, haborted⟩
  | giveUp hphase hreport hpass =>
    simp only [Run.breaksOff, hphase, hpass, hreport, and_self, decide_true] at hbreaks
    cases hbreaks
  | @assign rest =>
    refine .inl ⟨?_, (r.alike_assign rest).aborted.trans haborted⟩
    obtain hphase | ⟨_, hphase⟩ | ⟨_, _, hphase⟩ := r.phase_assign rest <;> rw [hphase] <;> rfl
  | placeStops _ hreason | stops _ hreason =>
    obtain rfl := Option.some.inj (haborted.symm.trans hreason)
    cases reason with
    | cancel => exact .inr (.inl ⟨rfl, rfl⟩)
    | stop => exact .inr (.inr ⟨rfl, rfl⟩)
  | place _ hnone => simp [hnone] at haborted
  | moved | throws => cases hbreaks
  | loadEnded hphase | load hphase | plan hphase | persist hphase | inserted hphase
  | insert hphase | insertFails hphase | «open» hphase | downloadedCancel hphase
  | downloadedPause hphase | downloaded hphase | cancelLoad hphase | cancelSave hphase
  | cancelRemove hphase | fails hphase | finish hphase | catchLoad hphase | close hphase
  | noSource hphase | prepared hphase | fail hphase => simp [hphase, RunPhase.late] at h

/-- **Main thread**: an answer that waits in the run comes through. -/
theorem Answered.step (h : Answered s r p) (hs : Run.Step hash s r a s' r' effect)
    (hbreaks : r.breaksOff hash s a = false) :
    Answered s' r' p ∨ r'.phase = .ended ∧ p.Kept s' := by
  cases h with
  -- Before the download ends, a pause waits for the test at its end.
  | pausing hearly hpausing hcancelling =>
    obtain ⟨he, hp, hc, _⟩ | ⟨hc, _⟩ | ⟨_, _, hphase⟩ | ⟨_, hp⟩ := hs.early hearly
    · exact .inl (.pausing he (hp.trans hpausing) (hc.trans hcancelling))
    · simp [hcancelling] at hc
    · exact .inl (.holding hphase)
    · simp [hpausing] at hp
  | cancelling hearly hcancelling hkind =>
    obtain ⟨he, _, hc, hk⟩ | ⟨_, hphase⟩ | ⟨hc, _⟩ | ⟨hc, _⟩ := hs.early hearly
    · exact .inl (.cancelling he (hc.trans hcancelling) (hk.trans hkind))
    · rw [hkind] at hphase
      exact .inl (.removing hphase nofun)
    · simp [hcancelling] at hc
    · simp [hcancelling] at hc
  -- After it, the signal of the move is what stops the run.
  | stopping hlate haborted =>
    obtain ⟨hl, ha⟩ | ⟨hreason, _⟩ | ⟨_, hphase⟩ := hs.late hlate haborted hbreaks
    · exact .inl (.stopping hl ha)
    · cases hreason
    · exact .inl (.holding hphase)
  | discarding hlate haborted =>
    obtain ⟨hl, ha⟩ | ⟨_, hphase⟩ | ⟨hreason, _⟩ := hs.late hlate haborted hbreaks
    · exact .inl (.discarding hl ha)
    · exact .inl (.removing hphase nofun)
    · cases hreason
  | holding hphase =>
    cases hs
    case setLoad state hphase' =>
      obtain ⟨rfl, _⟩ : state = .PAUSED ∧ _ := by simpa [hphase, eq_comm] using hphase'
      exact .inl (.holding rfl)
    case setSave state copy hphase' =>
      obtain ⟨rfl, _⟩ : state = .PAUSED ∧ _ := by simpa [hphase, eq_comm] using hphase'
      exact .inl (.closing rfl ⟨rfl, fun hp => absurd rfl hp⟩)
    all_goals simp_all
  | removing hphase hreads =>
    cases hs
    case cancelLoad kind hphase' =>
      obtain ⟨rfl, _⟩ : _ = kind ∧ _ := by simpa [hphase] using hphase'
      exact .inl (.removing rfl nofun)
    case cancelSave kind copy hphase' =>
      obtain ⟨rfl, _⟩ : _ = kind ∧ _ := by simpa [hphase] using hphase'
      exact .inl (.removing rfl fun _ => ⟨rfl, rfl⟩)
    case cancelRemove kind hphase' =>
      obtain ⟨rfl, hstage⟩ : _ = kind ∧ _ := by simpa [hphase] using hphase'
      exact .inl (.closing rfl ⟨hreads hstage, fun _ => rfl⟩)
    all_goals simp_all
  -- The run that the request came to before it had read its row.
  | loading hphase hp hkept =>
    cases hs
    case loadEnded => exact .inl (.closing rfl hkept)
    case load hcancelled _ =>
      cases p with
      | paused => exact absurd rfl hp
      | cancelled kind => exact absurd hkept.1.1 hcancelled
    all_goals simp_all
  | closing hphase hkept =>
    cases hs
    case close => exact .inr ⟨rfl, hkept⟩
    all_goals simp_all

theorem Answered.pauseRun (h : Answered s r p) : Answered s (Engine.pauseRun r) p := by
  cases h with
  | pausing hphase _ hcancelling => exact .pausing hphase rfl hcancelling
  | stopping hphase haborted => exact .stopping hphase (by simp [Engine.pauseRun, haborted])
  | holding hphase => exact .holding hphase
  | cancelling hphase hcancelling hkind => exact .cancelling hphase hcancelling hkind
  | discarding hphase haborted => exact .discarding hphase (by simp [Engine.pauseRun, haborted])
  | removing hphase hreads => exact .removing hphase hreads
  | loading hphase hp hkept => exact .loading hphase hp hkept
  | closing hphase hkept => exact .closing hphase hkept

theorem Answered.cancelRun {kind : TransferErrorKind} (h : Answered s r (.cancelled kind)) :
    Answered s (Engine.cancelRun kind r) (.cancelled kind) := by
  cases h with
  | cancelling hphase => exact .cancelling hphase rfl rfl
  | discarding hphase haborted => exact .discarding hphase (by simp [Engine.cancelRun, haborted])
  | removing hphase hreads => exact .removing hphase hreads
  | loading hphase hp hkept => exact .loading hphase hp hkept
  | closing hphase hkept => exact .closing hphase hkept

theorem Answered.flagged (h : Answered s r p) (hphase : r.phase = .downloading) :
    r.pausing = true ∨ r.cancelling = true := by
  cases h with
  | pausing _ hpausing => exact .inl hpausing
  | cancelling _ hcancelling => exact .inr hcancelling
  | stopping hlate | discarding hlate => simp [hphase, RunPhase.late] at hlate
  | holding h | removing h | loading h | closing h => simp [hphase] at h

theorem Answered.refetching (h : Answered s r p) {f : Fetch} {rest : List RepairAssignment}
    (hphase : r.phase = .refetching f rest) {r' : Run} (hlate : r'.phase.late = true)
    (haborted : r'.aborted = r.aborted) : Answered s r' p := by
  cases h with
  | stopping _ h => exact .stopping hlate (haborted.trans h)
  | discarding _ h => exact .discarding hlate (haborted.trans h)
  | pausing hearly | cancelling hearly => simp [hphase, RunPhase.early] at hearly
  | holding h | removing h | loading h | closing h => simp [hphase] at h

end

/-! ### Standing answers -/

theorem Fetch.Step.threw {content : ServiceId → List UInt8} {s s' : Store} {r r' : Run} {f : Fetch}
    {chunk : PlannedChunk} {source : RuntimeSource} {result : FetchResult} {a : FetchAct}
    (hchunk : r.plan.chunks[f.chunk]? = some chunk)
    (h : Step content s r f chunk source a s' r' result) (hresult : result = .threw) :
    a = .save ∧ r.fetchThrows f = true := by
  cases h with
  | @save patch threw hstage =>
    split at hresult
    · rename_i hthrew
      simp only [Run.fetchThrows, hstage, hthrew.1, hchunk, Option.any_some, hthrew.2, decide_true,
        and_self]
    · cases hresult
  | fails => simp [Run.failFetch] at hresult
  | succeeds => simp [Run.succeedFetch] at hresult
  | answer | piece | write | writeNowhere => cases hresult

namespace Engine

variable {content : ServiceId → List UInt8} {hash : List UInt8 → String} {e e' : Engine}
  {p : Answer}

/-- Somebody else writes the row, which fits the answer when the runs are done with it. -/
theorem Stands.mono (h : Stands e p) (hx : Exclusive e) {s : Store} {queued : ℕ}
    {calls : List Call} (hqueued : p = .paused → queued = 0)
    (hrow : e.Settled → p.Reads e.store.row → p.Reads s.row)
    (hwork : s.work = e.store.work ∨ s.work = none) :
    Stands { e with store := s, queued := queued, calls := calls } p where
  queued := hqueued
  answered r hr hlive := by
    refine (h.answered r hr hlive).mono (fun hfinal => hrow fun t ht htlive => ?_) hwork
    -- There is no other run.
    obtain ⟨i, hi⟩ := List.mem_iff_getElem?.mp hr
    obtain ⟨j, hj⟩ := List.mem_iff_getElem?.mp ht
    obtain rfl := hx.one i j r t hi hj hlive htlive
    obtain rfl := Option.some.inj (hi.symm.trans hj)
    exact hfinal
  kept hdead := (h.kept hdead).mono (hrow fun r hr hlive => absurd hlive (hdead r hr)) hwork

theorem Stands.set (h : Stands e p) {k : ℕ} {r r' : Run} {s : Store} (hr : e.runs[k]? = some r)
    (hlive : r'.Live ↔ r.Live) (hanswered : Answered e.store r p → r.Live → Answered e.store r' p)
    (hrow : s.row = e.store.row) (hwork : s.work = e.store.work) :
    Stands { e with store := s, runs := e.runs.set k r' } p where
  queued := h.queued
  answered t ht htlive := by
    have hkeep : Answered e.store t p := by
      obtain ht | rfl := List.mem_or_eq_of_mem_set ht
      · exact h.answered t ht htlive
      · have hrlive := hlive.mp htlive
        exact hanswered (h.answered r (List.mem_of_getElem? hr) hrlive) hrlive
    exact hkeep.mono (fun _ => by rw [hrow]; exact id) (.inl hwork)
  kept hdead := by
    refine (h.kept fun t ht htlive => ?_).mono (by rw [hrow]; exact id) (.inl hwork)
    obtain ⟨j, hj⟩ := List.mem_iff_getElem?.mp ht
    have hnot := hdead _ (List.mem_of_getElem? (getElem?_set_of (i := k) (a := r') hj))
    split at hnot
    · rename_i hkj
      subst hkj
      obtain rfl := Option.some.inj (hr.symm.trans hj)
      exact hnot (hlive.mpr htlive)
    · exact hnot htlive

/-- A run is asked to stop, and waits as it did. -/
theorem Stands.modify (h : Stands e p) {k : ℕ} {f : Run → Run} {draining : Bool}
    (hlive : ∀ r, (f r).Live ↔ r.Live) (hanswered : ∀ r, Answered e.store r p →
      Answered e.store (f r) p) :
    Stands { e with draining := draining, runs := e.runs.modify k f } p where
  queued := h.queued
  answered t ht htlive := by
    obtain ⟨i, hi⟩ := List.mem_iff_getElem?.mp ht
    obtain ⟨r, hr, ⟨_, rfl⟩ | ⟨_, rfl⟩⟩ := getElem?_modify_cases hi
    · exact hanswered r (h.answered r (List.mem_of_getElem? hr) ((hlive r).mp htlive))
    · exact h.answered t (List.mem_of_getElem? hr) htlive
  kept hdead := by
    refine h.kept fun t ht htlive => ?_
    obtain ⟨j, hj⟩ := List.mem_iff_getElem?.mp ht
    have hmem : (e.runs.modify k f)[j]? = some (if k = j then f t else t) := by
      simp [List.getElem?_modify, hj]
    have hnot := hdead _ (List.mem_of_getElem? hmem)
    split at hnot
    · exact hnot ((hlive t).mpr htlive)
    · exact hnot htlive

@[simp] theorem settle_queued (e : Engine) (i : ℕ) (result : CallResult) :
    (e.settle i result).queued = e.queued := by
  cases result with
  | goes | returned => rfl
  | enqueues =>
    simp only [settle, enqueue]
    split <;> rfl

theorem Stands.congr (h : Stands e p) (hqueued : p = .paused → e'.queued = 0)
    (hruns : e'.runs = e.runs) (hstore : e'.store = e.store) : Stands e' p where
  queued := hqueued
  answered := by rw [hruns, hstore]; exact h.answered
  kept := by rw [hruns, hstore]; exact h.kept

theorem Stands.issue (h : Stands e p) {operation : Operation}
    (ho : e.Respects hash p (.issue operation)) (hkeep : withdraws (.issue operation) p = false) :
    Stands (e.issue operation) p := by
  cases operation with
  | enqueue =>
    refine h.congr (fun hp => ?_) (enqueue_runs e) (enqueue_store e)
    simp only [Engine.issue, Engine.enqueue]
    split <;> exact h.queued hp
  | pause =>
    simp only [Engine.issue]
    split
    · exact h.modify (fun _ => Iff.rfl) fun r => Answered.pauseRun
    · exact h.congr (fun hp => by simp [h.queued hp]) rfl rfl
  | cancel kind =>
    cases p with
    | paused => cases hkeep
    | cancelled kind' =>
      simp only [Engine.issue]
      split
      · rename_i k hregistered
        obtain hp | hp := ho (by simp [hregistered])
        · cases hp
        · cases hp
          exact h.modify (fun _ => Iff.rfl) fun r => Answered.cancelRun
      · exact h.congr (by simp) rfl rfl
  | resume | retry => cases p <;> cases hkeep
  | repair => exact h.congr h.queued rfl rfl

/-- **Step**: an answer that is respected stands. -/
theorem Stands.step {a : Act} (h : Stands e p) (hx : Exclusive e)
    (hs : Step content hash e a e') {ps : List Answer} (hone : OneProcess (e, ps) a)
    (ho : e.Respects hash p a) (hkeep : withdraws a p = false) : Stands e' p := by
  cases hs with
  | issue operation => exact h.issue ho hkeep
  | @call i call s result hcall hstep =>
    have hdoes := Call.does_of_step hstep
    have hmono : Stands { e with store := s } p :=
      h.mono hx h.queued (fun hsettled hreads => by
        obtain hrow | hsaves := hdoes.row
        · rwa [hrow]
        · exact ho s.row (by simp [savesRow, hcall, hsaves]) hsettled) hdoes.work
    exact hmono.congr (fun hp => by rw [settle_queued]; exact hmono.queued hp) (settle_runs ..)
      (settle_store ..)
  | hold => exact h.congr h.queued rfl rfl
  | push => exact h.congr (fun hp => absurd hp ho) rfl rfl
  | @start settings hqueued =>
    have hdead : ∀ r ∈ e.runs, ¬ r.Live := fun r hr hlive => by
      obtain ⟨i, hi⟩ := List.mem_iff_getElem?.mp hr
      have := (hx.started i r hi hlive).2
      omega
    have hp : p ≠ .paused := fun hp => by have := h.queued hp; omega
    refine ⟨fun h => absurd h hp, fun r hr hlive => ?_, fun hnone => ?_⟩
    · obtain hr | hr := List.mem_append.mp hr
      · exact absurd hlive (hdead r hr)
      · obtain rfl := List.mem_singleton.mp hr
        exact .loading rfl hp (h.kept hdead)
    · exact absurd (by rintro ⟨⟩) (hnone (Run.boot settings) (by simp))
  | @run k a r r' s effect hr hstep =>
    have hlive := hstep.live.1
    have hmem := List.mem_of_getElem? hr
    have hothers : ∀ t ∈ e.runs.set k r', t.Live → t = r' := by
      intro t ht htlive
      obtain ⟨j, hj⟩ := List.mem_iff_getElem?.mp ht
      obtain ⟨_, rfl⟩ | ⟨hne, hj⟩ := getElem?_set_cases hj
      · rfl
      · exact absurd (hx.one j k t r hj hr htlive hlive) hne
    have hr' : r' ∈ e.runs.set k r' :=
      List.mem_of_getElem? (by simpa using getElem?_set_of (i := k) (a := r') hr)
    have hanswered := (h.answered r hmem hlive).step hstep (ho r hr)
    refine ⟨fun hp => ?_, ?_, ?_⟩
    · have := h.queued hp
      cases effect <;> simp [Engine.apply, this]
    · rw [apply_runs, apply_store]
      intro t ht htlive
      obtain rfl := hothers t ht htlive
      exact hanswered.resolve_right fun hended => htlive hended.1
    · rw [apply_runs, apply_store]
      intro hdead
      obtain hanswered | ⟨_, hkept⟩ := hanswered
      · -- An answered run is live.
        exfalso
        refine hdead r' hr' fun hended => ?_
        cases hanswered <;> simp_all [RunPhase.early, RunPhase.late]
      · exact hkept
  | @turn k w r hr hlooping =>
    refine h.set hr (Run.live_iff_of_phase (Run.phase_turn ..)) (fun ha _ => ?_) rfl rfl
    have hsame := r.alike_turn e.draining w
    refine ha.congr ?_ hsame.aborted hsame.pausing hsame.cancelling hsame.cancelKind
    obtain hphase | ⟨hdownloading, _⟩ := r.phase_turn e.draining w
    · exact hphase
    · have hflagged := ha.flagged hdownloading
      rw [Run.turn, if_pos (by tauto)]
  | @work k w a r r' f chunk source s result hr hw hchunk hsource hfetch =>
    obtain ⟨hrow, hwork, _⟩ := hfetch.store
    refine h.set hr ((Run.live_iff_of_phase (Run.phase_settleWork ..)).trans hfetch.alike.live)
      (fun ha _ => ?_) hrow hwork
    have hsame := r'.alike_settleWork w f result
    refine (ha.alike hfetch.alike).congr ?_ hsame.aborted hsame.pausing hsame.cancelling
      hsame.cancelKind
    obtain hphase | ⟨hdownloading, hcatching⟩ := r'.phase_settleWork w f result
    · exact hphase
    · -- A worker that ends the download throws.
      exfalso
      have hthrew : result = .threw := by
        cases result with
        | goes | returned => simp [Run.settleWork, hdownloading] at hcatching
        | threw => rfl
      obtain ⟨rfl, hthrows⟩ := hfetch.threw hchunk hthrew
      rw [hfetch.alike.phase] at hdownloading
      have := ho r hr f (by simp [hw, Worker.fetch]) hdownloading
      simp [hthrows] at this
  | @refetch k a r r' f rest chunk source s result hr hphase hchunk hsource hfetch =>
    obtain ⟨hrow, hwork, _⟩ := hfetch.store
    have hlive : r.Live := by rw [Run.Live, hphase]; simp
    refine h.set hr ⟨fun _ => hlive, fun _ => r'.settleRefetch_live f rest result⟩ (fun ha _ => ?_)
      hrow hwork
    cases result with
    | goes | returned => exact ha.refetching hphase rfl hfetch.alike.aborted
    | threw =>
      exfalso
      obtain ⟨rfl, hthrows⟩ := hfetch.threw hchunk rfl
      have := ho r hr f (by simp [hphase, RunPhase.fetch])
      simp [hthrows] at this
  | @flush k r hr hsaves =>
    have hmono : Stands { e with store := { e.store with row := r.transfer } } p :=
      h.mono hx h.queued
        (fun hsettled _ => ho r.transfer (by simp [savesRow, hr]) hsettled) (.inl rfl)
    exact hmono.set hr Iff.rfl (fun ha _ => ha.congr rfl rfl rfl rfl rfl) rfl rfl
  | drainRun => exact h.modify (fun _ => Iff.rfl) fun r => Answered.pauseRun
  | drain => exact h.congr h.queued rfl rfl
  | restart => exact absurd hone id

theorem stands_modify (hx : Exclusive e) {k : ℕ} {r : Run} {f : Run → Run}
    (hr : e.runs[k]? = some r) (hlive : r.Live) (hf : (f r).phase = r.phase)
    (hanswered : Answered e.store (f r) p) : Stands { e with runs := e.runs.modify k f } p where
  queued _ := (hx.started k r hr hlive).2
  answered t ht htlive := by
    obtain ⟨i, hi⟩ := List.mem_iff_getElem?.mp ht
    obtain ⟨u, hu, ⟨rfl, rfl⟩ | ⟨hne, rfl⟩⟩ := getElem?_modify_cases hi
    · obtain rfl := Option.some.inj (hr.symm.trans hu)
      exact hanswered
    · exact absurd (hx.one i k t r hu hr htlive hlive) hne
  kept hdead := by
    have hmem : (e.runs.modify k f)[k]? = some (f r) := by simp [hr]
    exact absurd (by rwa [Run.Live, hf]) (hdead _ (List.mem_of_getElem? hmem))

/-- **A sound answer** stands once it is given. -/
theorem stands_of_sound {a : Act} (hx : Exclusive e) (hs : Step content hash e a e')
    (hp : p ∈ e.answers a) (ho : e.Sound p a) : Stands e' p := by
  cases hs with
  | issue operation =>
    cases operation with
    | pause =>
      obtain ⟨hatonce, heq⟩ := Option.ite_none_right_eq_some.mp hp
      cases heq
      obtain ⟨k, hk⟩ : ∃ k, e.registered = some k :=
        Option.isSome_iff_exists.mp (by simp [answersAtOnce] at hatonce; exact hatonce.1)
      obtain ⟨r, hr, hlive⟩ := hx.registered k hk
      simp only [Engine.issue, hk]
      refine (stands_modify (f := Engine.pauseRun) hx hr hlive rfl ?_).congr
        (fun _ => (hx.started k r hr hlive).2) rfl rfl
      obtain (⟨hcancelling, hearly⟩ | ⟨hlate, haborted⟩ | hholds) | ⟨hphase, hkept⟩ := ho k hk r hr
      · exact .pausing hearly rfl hcancelling
      · refine .stopping hlate ?_
        cases ha : r.aborted with
        | none => simp [pauseRun, ha]
        | some reason =>
          cases reason with
          | stop => simp [pauseRun, ha]
          | cancel => exact absurd ha haborted
      · obtain ⟨copy, hphase⟩ : ∃ copy, r.phase = .setState .PAUSED copy := by
          revert hholds
          unfold RunPhase.holds
          split
          · rename_i copy hphase
            exact fun _ => ⟨copy, hphase⟩
          · simp
        exact .holding hphase
      · exact .closing hphase hkept
    | cancel kind =>
      obtain ⟨hatonce, heq⟩ := Option.ite_none_right_eq_some.mp hp
      cases heq
      obtain ⟨k, hk⟩ : ∃ k, e.registered = some k :=
        Option.isSome_iff_exists.mp (by simp [answersAtOnce] at hatonce; exact hatonce.1)
      obtain ⟨r, hr, hlive⟩ := hx.registered k hk
      simp only [Engine.issue, hk]
      refine (stands_modify (f := Engine.cancelRun kind) hx hr hlive rfl ?_).congr
        (fun _ => (hx.started k r hr hlive).2) rfl rfl
      obtain (hearly | ⟨hlate, rfl, haborted⟩) | ⟨hphase, hkept⟩ := ho k hk r hr
      · exact .cancelling hearly rfl rfl
      · refine .discarding hlate ?_
        cases ha : r.aborted with
        | none => simp [cancelRun, ha]
        | some reason =>
          cases reason with
          | cancel => simp [cancelRun, ha]
          | stop => exact absurd ha haborted
      · exact .closing hphase hkept
    | enqueue | resume | retry | repair => cases hp
  | @call i call s result hcall hstep =>
    simp only [answers, hcall] at hp
    split at hp
    · -- The row of a pause was saved.
      rename_i copy hcopy
      cases hp
      cases hcopy
      cases hstep
      obtain ⟨hqueued, hclosing⟩ := ho
      have hkept : Answer.paused.Kept { e.store with row := { copy with state := .PAUSED } } :=
        ⟨rfl, fun h => absurd rfl h⟩
      exact ⟨fun _ => hqueued, fun r hr hlive => .closing (hclosing r hr hlive) hkept,
        fun _ => hkept⟩
    · -- The file of a cancellation was removed.
      rename_i kind hkind
      cases hp
      cases hkind
      cases hstep
      obtain ⟨hreads, hyields⟩ := ho
      have hkept : (Answer.cancelled kind).Kept { e.store with work := none } :=
        ⟨hreads, fun _ => rfl⟩
      refine ⟨(by simp), fun r hr hlive => ?_, fun _ => hkept⟩
      have hyield := hyields r hr hlive
      revert hyield
      unfold RunPhase.yields
      split
      · rename_i hphase
        exact fun _ => .loading hphase (by simp) hkept
      · rename_i hphase
        exact fun _ => .closing hphase hkept
      · rename_i kind' stage hphase
        intro hkind
        obtain rfl : kind' = kind := by simpa using hkind
        exact .removing hphase fun _ => hreads
      · simp
    · cases hp
  | hold | push | start | run | turn | work | refetch | flush | drainRun | drain | restart =>
      cases hp

/-- **Pauses and cancellations are kept**, when everything is in order. -/
theorem kept_of_inOrder {store : Store} {as : List Act} {ps : List Answer}
    (h : LabelledRun.Run (watched content hash) (InOrder hash) (boot store, []) as (e, ps))
    (hidle : e.Idle) : ∀ p ∈ ps, p.Kept e.store := by
  have hstands : Exclusive e ∧ ∀ p ∈ ps, Stands e p := by
    refine h.invariant (I := fun s => Exclusive s.1 ∧ ∀ p ∈ s.2, Stands s.1 p) ?_
      ⟨exclusive_boot store, nofun⟩
    rintro ⟨e, ps⟩ a ⟨e', ps'⟩ ⟨hx, hstands⟩ ⟨htests, hone, hrespects, hsound⟩ hs
    obtain ⟨e'', hstep, heq⟩ := Option.map_eq_some_iff.mp hs
    cases heq
    have hstep := Step.of_step hstep
    refine ⟨hx.step htests hstep, fun p hp => ?_⟩
    obtain hp | hp := List.mem_append.mp hp
    · obtain ⟨hp, hkeep⟩ := List.mem_filter.mp hp
      have hkeep : withdraws a p = false := by simpa using hkeep
      exact (hstands p hp).step hx hstep hone (hrespects p hp hkeep) hkeep
    · have hp : p ∈ e.answers a := by simpa using hp
      exact stands_of_sound hx hstep hp (hsound p hp)
  intro p hp
  refine (hstands.2 p hp).kept fun r hr hlive => ?_
  -- A run that is live keeps its transfer in the engine.
  obtain ⟨i, hi⟩ := List.mem_iff_getElem?.mp hr
  have hstarting := (hstands.1.started i r hi hlive).1
  simp [hidle.2.1] at hstarting

def pausedDownload : List Act :=
  started ++ untilDownloading (some 3) 1 ++
    [.work 0 0 none, .work 0 0 (some (.answer false)), .issue .pause,
      .work 0 0 (some (.piece 3)), .work 0 0 (some .save), .work 0 0 none,
      .run 0 .next, .run 0 .next, .run 0 .next, .run 0 .next]

/-- The transfer is cancelled after its run has read the row, before it is registered. -/
def cancelledStart : List Act :=
  started ++ [.run 0 .next, .issue (.cancel .CANCELLED), .call 0, .call 0, .call 0] ++
    (untilDownloading (some 3) 1).drop 1 ++ oneFetch false 3 ++ [.work 0 0 none] ++ untilPlaced

theorem kept_of_inOrder_pausedDownload :
    let s := (LabelledRun.exec (watched threeBytes noHash) (InOrder noHash) (boot freshStore, [])
      pausedDownload).get (by decide)
    s.2 = [.paused] ∧ ∀ p ∈ s.2, p.Kept s.1.store := by
  intro s
  have hrun : LabelledRun.Run (watched threeBytes noHash) (InOrder noHash) (boot freshStore, [])
      pausedDownload s := .ofExec (Option.some_get _).symm
  exact ⟨by decide, kept_of_inOrder hrun (by decide)⟩

/-- A transfer that was cancelled while it was starting is done all the same. -/
theorem answers_fail : ¬ ∀ (content : ServiceId → List UInt8) (hash : List UInt8 → String)
    (store : Store) (as : List Act) (e : Engine) (ps : List Answer),
    LabelledRun.Run (watched content hash) OneProcess (boot store, []) as (e, ps) → e.Idle →
    ∀ p ∈ ps, p.Kept e.store := by
  intro h
  let s := (LabelledRun.exec (watched threeBytes noHash) OneProcess (boot freshStore, [])
    cancelledStart).get (by decide)
  have hrun : LabelledRun.Run (watched threeBytes noHash) OneProcess (boot freshStore, [])
      cancelledStart s := .ofExec (Option.some_get _).symm
  have hkept := h threeBytes noHash freshStore cancelledStart s.1 s.2 hrun (by decide)
  exact absurd (hkept (.cancelled .CANCELLED) (by decide)) (by decide)

end Engine

end MediaCenterSync.TransferEngine
