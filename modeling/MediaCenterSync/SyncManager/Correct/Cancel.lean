import MediaCenterSync.SyncManager.Correct.Job

/-!
# When a cancelled run stays cancelled

A report that reads the job while `cancel` is under way reads it as running.  It finishes the job if
no line is open by then, which the cancelled transfers themselves bring about; and one that has read
the job before `cancel` saves it puts back what it has read.  Where neither happens, the job is
cancelled for good once `cancel` has saved it, and nothing is announced as done from the call on
(`Stays.step`).
-/

namespace MediaCenterSync.SyncManager

open LabelledRun

def Emission.isDone : Emission → Bool
  | .jobState job _ => job.state = .DONE
  | .notify event _ _ _ => event = .SYNC_FINISHED

/-- The report is about to announce the run as done. -/
def Call.announcesDone : Call → Bool
  | .saved job finished => finished ∨ job.state = .DONE
  | _ => false

def Call.held : Call → Option SyncJob
  | .read job | .counted job _ _ => some job
  | _ => none

namespace CancelRun

variable {s s' : CancelRun}

/-- The job was read and is not saved yet. -/
def isUnderWay (s : CancelRun) : Bool :=
  match s.cancel with
  | .read _ | .stopping _ _ | .skipped _ => true
  | _ => false

/-- The job was saved as cancelled. -/
def isDone (s : CancelRun) : Bool :=
  match s.cancel with
  | .saved _ | .returned => true
  | _ => false

/-- No report finishes the job while `cancel` is under way, or was about to announce it when
`cancel` was called; and none has read the job and not saved it when `cancel` does. -/
def Undisturbed (s : CancelRun) : Action → Prop
  | .report (.saveJob call) =>
    match s.run.calls[call]? with
    | some (.counted job progress _) =>
      s.isUnderWay → job.state ≠ .DONE ∧ ¬ finishing job progress
    | _ => True
  | .call => ∀ call ∈ s.run.calls, call.announcesDone = false
  | .save _ => ∀ call ∈ s.run.calls, call.held = none
  | _ => True

instance (s : CancelRun) (action : Action) : Decidable (s.Undisturbed action) := by
  cases action with
  | report step =>
    cases step with
    | saveJob call =>
      dsimp only [Undisturbed]
      cases s.run.calls[call]? with
      | none => infer_instance
      | some call => cases call <;> infer_instance
    | _ => dsimp only [Undisturbed]; infer_instance
  | _ => dsimp only [Undisturbed]; infer_instance

/-- What was emitted since `cancel` was called. -/
def emittedSince (s : CancelRun) : List Emission := s.run.emitted.drop s.emittedBefore

/-- Nothing is announced as done from the call on, and the job is cancelled once it was saved. -/
structure Stays (s : CancelRun) : Prop where
  length : s.emittedBefore ≤ s.run.emitted.length
  calls : ∀ call ∈ s.run.calls, call.announcesDone = false
  emitted : ∀ emission ∈ s.emittedSince, emission.isDone = false
  job : s.isDone → s.run.job.state = .CANCELLED
  held : s.isDone → ∀ call ∈ s.run.calls, ∀ job ∈ call.held, job.state = .CANCELLED
  model : ∀ job, s.cancel = .saved job → job.state = .CANCELLED

/-- `cancel` was called, and the job was not over. -/
def isCalled (s : CancelRun) : Bool := s.isUnderWay || s.isDone

theorem Stays.of_run {run : JobRun} {more : List Emission} (h : s.Stays)
    (hcalls : ∀ call ∈ run.calls, call ∈ s.run.calls ∨
      call.announcesDone = false ∧ (s.isDone → ∀ job ∈ call.held, job.state = .CANCELLED))
    (hemitted : run.emitted = s.run.emitted ++ more)
    (hmore : ∀ emission ∈ more, emission.isDone = false)
    (hjob : s.isDone → run.job.state = .CANCELLED) : Stays { s with run := run } := by
  constructor
  case length =>
    change s.emittedBefore ≤ run.emitted.length
    rw [hemitted, List.length_append]
    exact Nat.le_trans h.length (Nat.le_add_right _ _)
  case calls =>
    intro call hcall
    obtain hold | ⟨hnew, -⟩ := hcalls call hcall
    · exact h.calls call hold
    · exact hnew
  case emitted =>
    intro emission hemission
    change emission ∈ run.emitted.drop s.emittedBefore at hemission
    rw [hemitted, List.drop_append_of_le_length h.length] at hemission
    obtain hold | hnew := List.mem_append.mp hemission
    · exact h.emitted emission hold
    · exact hmore emission hnew
  case job => exact hjob
  case held =>
    intro hdone call hcall
    obtain hold | ⟨-, hnew⟩ := hcalls call hcall
    · exact h.held hdone call hold
    · exact hnew hdone
  case model => exact h.model

theorem isDone_transferFailed (transfer : Transfer) :
    ∀ emission ∈ transferFailed transfer, emission.isDone = false := by
  unfold transferFailed
  split
  · simp [Emission.isDone]
  · simp

theorem isDone_settled {job : SyncJob} {finished : Bool} (planName : Option String)
    (h : (Call.saved job finished).announcesDone = false) :
    ∀ emission ∈ settled job planName finished, emission.isDone = false := by
  simp only [Call.announcesDone, decide_eq_false_iff_not, not_or] at h
  obtain ⟨hfinished, hstate⟩ := h
  unfold settled
  simp [hfinished, Emission.isDone, hstate]

theorem settle_state {job : SyncJob} {progress : Progress} (now : ℤ)
    (h : ¬ finishing job progress) : (job.settle progress now).state = job.state := by
  unfold SyncJob.settle
  exact if_neg h

theorem Stays.report {action : JobRun.Action} {run : JobRun} (h : s.Stays) (hcalled : s.isCalled)
    (hguard : s.Undisturbed (.report action)) (hstep : s.run.step action = some run) :
    Stays { s with run := run } := by
  -- a call that replaces another, and one that is dropped
  have hset : ∀ {i : ℕ} {new : Call}, new.announcesDone = false →
      (s.isDone → ∀ job ∈ new.held, job.state = .CANCELLED) → ∀ call ∈ s.run.calls.set i new,
      call ∈ s.run.calls ∨
        call.announcesDone = false ∧ (s.isDone → ∀ job ∈ call.held, job.state = .CANCELLED) := by
    intro i new hnew hheld call hcall
    obtain hold | rfl := List.mem_or_eq_of_mem_set hcall
    · exact .inl hold
    · exact .inr ⟨hnew, hheld⟩
  have herase : ∀ {i : ℕ}, ∀ call ∈ s.run.calls.eraseIdx i, call ∈ s.run.calls ∨
      call.announcesDone = false ∧ (s.isDone → ∀ job ∈ call.held, job.state = .CANCELLED) :=
    fun call hcall => .inl (List.mem_of_mem_eraseIdx hcall)
  cases action with
  | report transfer =>
    simp only [JobRun.step] at hstep
    split at hstep
    · cases hstep
      refine h.of_run (fun call hcall => ?_) rfl (isDone_transferFailed transfer) h.job
      refine (List.mem_append.mp hcall).imp_right fun hnew => ?_
      rw [List.mem_singleton.mp hnew]
      exact ⟨rfl, (by intros; contradiction)⟩
    · cases hstep
      exact h.of_run (fun _ hcall => .inl hcall) rfl (isDone_transferFailed transfer) h.job
  | findLine i transfer =>
    simp only [JobRun.step] at hstep
    split at hstep
    · obtain ⟨-, hstep⟩ := Option.ite_none_right_eq_some.mp hstep
      split at hstep
      · cases hstep
        exact h.of_run herase (List.append_nil _).symm (by simp) h.job
      · cases hstep
        exact h.of_run (hset rfl (by intros; contradiction)) (List.append_nil _).symm (by simp) h.job
    · cases hstep
  | saveLine i =>
    simp only [JobRun.step] at hstep
    split at hstep
    · cases hstep
      exact h.of_run (hset rfl (by intros; contradiction)) (List.append_nil _).symm (by simp) h.job
    · cases hstep
  | readJob i =>
    simp only [JobRun.step] at hstep
    split at hstep
    · cases hstep
      refine h.of_run (hset rfl ?_) (List.append_nil _).symm (by simp) h.job
      rintro hdone _ ⟨⟩
      exact h.job hdone
    · cases hstep
  | count i now =>
    simp only [JobRun.step] at hstep
    split at hstep
    · next job hi =>
      cases hstep
      have hread : s.isDone → ∀ other ∈ (Call.read job).held, other.state = .CANCELLED :=
        fun hdone => h.held hdone _ (List.mem_of_getElem? hi)
      exact h.of_run (hset rfl hread) (List.append_nil _).symm (by simp) h.job
    · cases hstep
  | saveJob i =>
    simp only [JobRun.step] at hstep
    split at hstep
    · next job progress now hi =>
      cases hstep
      simp only [Undisturbed, hi] at hguard
      -- what is saved was read as cancelled, or is not finished
      have hkeeps : (s.isDone → job.state = .CANCELLED) ∧ job.state ≠ .DONE ∧
          ¬ finishing job progress := by
        cases hdone : s.isDone with
        | true =>
          have hcancelled : job.state = .CANCELLED :=
            h.held hdone _ (List.mem_of_getElem? hi) job rfl
          exact ⟨fun _ => hcancelled, by simp [hcancelled], by simp [finishing, hcancelled]⟩
        | false =>
          rw [isCalled, hdone, Bool.or_false] at hcalled
          exact ⟨(by simp), hguard hcalled⟩
      obtain ⟨hcancelled, hstate, hfinishing⟩ := hkeeps
      have hsame := settle_state now hfinishing
      refine h.of_run (hset ?_ (by intros; contradiction)) (List.append_nil _).symm (by simp) ?_
      · simp only [Call.announcesDone, decide_eq_false_iff_not, not_or]
        exact ⟨hfinishing, by rwa [hsame]⟩
      · exact fun hdone => hsame.trans (hcancelled hdone)
    · cases hstep
  | announce i =>
    simp only [JobRun.step] at hstep
    split at hstep
    · next job finished hi =>
      cases hstep
      exact h.of_run herase rfl (isDone_settled _ (h.calls _ (List.mem_of_getElem? hi))) h.job
    · cases hstep

/-- `cancel` goes on before the job is saved, and nothing else changes. -/
theorem Stays.of_underWay {cancel : Cancelling} {transfers : List Transfer} (h : s.Stays)
    (hdone : isDone { s with cancel := cancel } = false) :
    Stays { s with cancel := cancel, transfers := transfers } := by
  constructor
  case length => exact h.length
  case calls => exact h.calls
  case emitted => exact h.emitted
  case job => exact fun hyes => absurd (hyes.symm.trans hdone) (by simp)
  case held => exact fun hyes => absurd (hyes.symm.trans hdone) (by simp)
  case model =>
    rintro job rfl
    cases hdone

/-- **One step** keeps the run from being announced as done, and cancelled once it is. -/
theorem Stays.step {action : Action} (h : s.isCalled → s.Stays) (hguard : s.Undisturbed action)
    (hstep : s.step action = some s') : s'.isCalled → s'.Stays := by
  intro hcalled'
  cases action with
  | report action =>
    obtain ⟨run, hrun, rfl⟩ := Option.map_eq_some_iff.mp hstep
    exact (h hcalled').report hcalled' hguard hrun
  | engine transfer =>
    cases hstep
    have hstays := h hcalled'
    exact { hstays with }
  | call =>
    simp only [CancelRun.step] at hstep
    split at hstep
    · split at hstep
      · cases hstep
        cases hcalled'
      · -- the call itself: nothing was emitted since
        cases hstep
        constructor
        case length => exact Nat.le_refl _
        case calls => exact hguard
        case emitted =>
          intro emission hemission
          unfold emittedSince at hemission
          rw [List.drop_length] at hemission
          cases hemission
        case job => exact nofun
        case held => exact nofun
        case model => exact nofun
    · cases hstep
  | list =>
    simp only [CancelRun.step] at hstep
    split at hstep
    · next job hcancel =>
      cases hstep
      have hstays := h (by simp [isCalled, isUnderWay, hcancel])
      exact hstays.of_underWay rfl
    · cases hstep
  | cancelTransfer running now =>
    simp only [CancelRun.step] at hstep
    split at hstep
    · next job transfer rest hcancel =>
      have hstays := h (by simp [isCalled, isUnderWay, hcancel])
      have hnext : Stays { s with cancel := .stopping job rest } := hstays.of_underWay rfl
      split at hstep
      · cases hstep
        exact hnext
      · split at hstep
        · cases hstep
        · next row hrow =>
          obtain ⟨run, hrun, rfl⟩ := Option.map_eq_some_iff.mp hstep
          have hguard : Undisturbed { s with cancel := .stopping job rest }
              (.report (.report (cancelled row now))) := trivial
          have hreported := hnext.report rfl hguard hrun
          exact { hreported with }
    · cases hstep
  | skipUnfinished now =>
    simp only [CancelRun.step] at hstep
    split at hstep
    · next job hcancel =>
      cases hstep
      have hstays := h (by simp [isCalled, isUnderWay, hcancel])
      have hnext : Stays { s with cancel := .skipped job } := hstays.of_underWay rfl
      exact { hnext with }
    · cases hstep
  | save now =>
    simp only [CancelRun.step] at hstep
    split at hstep
    · next job hcancel =>
      cases hstep
      have hstays := h (by simp [isCalled, isUnderWay, hcancel])
      constructor
      case length => exact hstays.length
      case calls => exact hstays.calls
      case emitted => exact hstays.emitted
      case job => exact fun _ => rfl
      case held =>
        intro _ call hcall other hother
        rw [hguard call hcall] at hother
        cases hother
      case model => rintro _ ⟨⟩; rfl
    · cases hstep
  | finish =>
    simp only [CancelRun.step] at hstep
    split at hstep
    · next job hcancel =>
      cases hstep
      have hdone : s.isDone := by simp [isDone, hcancel]
      have hstays := h (by simp [isCalled, hdone])
      have hmodel := hstays.model job hcancel
      have hannounced : Stays { s with run := { s.run with
          emitted := s.run.emitted ++ [.jobState job s.run.planName] } } :=
        hstays.of_run (fun _ hcall => .inl hcall) rfl (by simp [Emission.isDone, hmodel]) hstays.job
      constructor
      case length => exact hannounced.length
      case calls => exact hannounced.calls
      case emitted => exact hannounced.emitted
      case job => exact fun _ => hannounced.job hdone
      case held => exact fun _ => hannounced.held hdone
      case model => exact nofun
    · cases hstep

/-- **A cancelled run stays cancelled**, as long as no report finishes the job while `cancel` is
under way, and none has read the job and not saved it when `cancel` does: once `cancel` has returned
the job is cancelled, and nothing that was emitted since it was called announces the run as done. -/
theorem cancelled_of_run {s₀ : CancelRun} {actions : List Action}
    (hrun : Run step Undisturbed s₀ actions s) (h₀ : s₀.cancel = .notCalled) :
    (s.cancel = .returned → s.run.job.state = .CANCELLED) ∧
      (s.isCalled → ∀ emission ∈ s.emittedSince, emission.isDone = false) := by
  have hstart : s₀.isCalled → s₀.Stays := by
    simp [isCalled, isUnderWay, isDone, h₀]
  have hstays := hrun.invariant (fun _ _ _ h hguard hstep => Stays.step h hguard hstep) hstart
  constructor
  · intro hreturned
    have hdone : s.isDone := by simp [isDone, hreturned]
    exact (hstays (by simp [isCalled, hdone])).job hdone
  · exact fun hcalled => (hstays hcalled).emitted

end CancelRun

/-! ### One episode that is cancelled -/

def oneEpisode (state : TransferEngine.TransferState) : CancelRun :=
  { run := { twoEpisodes with lines := [pendingLine "a"] }
    transfers := [{ arrived "a" with state := state }]
    cancel := .notCalled
    emittedBefore := 0 }

/-- A report from its line to its announcement. -/
def reportOf (transfer : Transfer) : List CancelRun.Action :=
  [.report (.findLine 0 transfer), .report (.saveLine 0), .report (.readJob 0),
    .report (.count 0 3), .report (.saveJob 0), .report (.announce 0)]

/-- The transfer is running, and reports once `cancel` has returned. -/
def cancelledLater : List CancelRun.Action :=
  [.call, .list, .cancelTransfer true 1, .skipUnfinished 2, .save 2, .finish,
    .report (.report (CancelRun.cancelled (arrived "a") 3))] ++
    reportOf (CancelRun.cancelled (arrived "a") 3)

/-- The transfer is queued, and its report overtakes `cancel`. -/
def overtaken : List CancelRun.Action :=
  [.call, .list, .cancelTransfer false 1] ++ reportOf (CancelRun.cancelled (arrived "a") 1) ++
    [.skipUnfinished 2, .save 2, .finish]

/-- Reported late, the run stays cancelled. -/
theorem cancelled_of_run_later :
    ∃ s,
      exec CancelRun.step CancelRun.Undisturbed (oneEpisode .DOWNLOADING) cancelledLater = some s ∧
      s.run.job.state = .CANCELLED ∧ ∀ emission ∈ s.emittedSince, emission.isDone = false := by
  have hreturned : (exec CancelRun.step CancelRun.Undisturbed (oneEpisode .DOWNLOADING)
      cancelledLater).any (fun s => s.cancel = .returned ∧ s.isCalled) = true := by decide +kernel
  obtain ⟨s, hexec, hend⟩ := (Option.any_eq_true _ _).mp hreturned
  obtain ⟨hcancel, hcalled⟩ := of_decide_eq_true hend
  obtain ⟨hstate, hemitted⟩ := CancelRun.cancelled_of_run (.ofExec hexec) rfl
  exact ⟨s, hexec, hstate hcancel, hemitted hcalled⟩

/-- Overtaken, it is announced as finished while it is being cancelled. -/
theorem not_cancelled_of_run :
    ¬ ∀ (s₀ : CancelRun) (actions : List CancelRun.Action) (s : CancelRun),
    s₀.cancel = .notCalled → s₀.run.job.state ∈ LIVE_STATES →
    (∃ transfer ∈ s₀.transfers, CancelRun.isOver transfer.state = false) →
    Run CancelRun.step Free s₀ actions s →
    (s.cancel = .returned → s.run.job.state = .CANCELLED) ∧
      (s.isCalled → ∀ emission ∈ s.emittedSince, emission.isDone = false) := by
  intro h
  have hannounced : (exec CancelRun.step Free (oneEpisode .QUEUED) overtaken).any
      (fun s => s.isCalled ∧ ∃ emission ∈ s.emittedSince, emission.isDone) = true := by
    decide +kernel
  obtain ⟨s, hexec, hend⟩ := (Option.any_eq_true _ _).mp hannounced
  obtain ⟨hcalled, emission, hemission, hdone⟩ := of_decide_eq_true hend
  have hquiet := (h (oneEpisode .QUEUED) overtaken s rfl (by decide) (by decide) (.ofExec hexec)).2
  exact absurd (hdone.symm.trans (hquiet hcalled emission hemission)) (by simp)

end MediaCenterSync.SyncManager
