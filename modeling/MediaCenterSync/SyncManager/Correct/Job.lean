import Mathlib.Algebra.BigOperators.Group.List.Basic
import MediaCenterSync.Lib.LabelledRun
import MediaCenterSync.SyncManager.Job

/-!
# What is left of a run when its reports are done

A report counts the lines after it has saved its own, so the last report to count has the counts the
lines end up with (`Call.IsFresh`).  Nothing makes it the last to save: a report that counted before
may save after it.  Where it does not, unless yet another report is still to save what the lines
say, the job has the counts of its lines as soon as no report is under way, and is over when they
are (`Recorded.step`).
-/

namespace MediaCenterSync.SyncManager

open LabelledRun

/-! ### Counting -/

theorem foldl_add (lines : List SyncJobItem) (counted : Progress) :
    lines.foldl Progress.add counted =
      ⟨counted.done + lines.countP (·.state = .DONE),
        counted.failed + lines.countP (·.state = .FAILED),
        counted.bytesDone + (lines.map (·.bytesDone)).sum,
        counted.open + lines.countP (·.state ∈ [SyncJobItemState.PENDING, .RUNNING])⟩ := by
  induction lines generalizing counted with
  | nil => rfl
  | cons line lines ih =>
    rw [List.foldl_cons, ih]
    unfold Progress.add
    cases hstate : line.state <;> simp [hstate, Nat.add_assoc, Nat.add_comm]

theorem progressOf_eq (lines : List SyncJobItem) :
    progressOf lines = ⟨lines.countP (·.state = .DONE), lines.countP (·.state = .FAILED),
      (lines.map (·.bytesDone)).sum,
      lines.countP (·.state ∈ [SyncJobItemState.PENDING, .RUNNING])⟩ := by
  unfold progressOf
  rw [foldl_add]
  simp

def SyncJobItem.isFinished (line : SyncJobItem) : Bool :=
  line.state ∈ [SyncJobItemState.DONE, .FAILED, .SKIPPED]

theorem open_eq_zero {lines : List SyncJobItem} (h : ∀ line ∈ lines, line.isFinished) :
    (progressOf lines).open = 0 := by
  rw [progressOf_eq]
  refine List.countP_eq_zero.mpr fun line hline => ?_
  have hfinished := h line hline
  unfold SyncJobItem.isFinished at hfinished
  cases hstate : line.state <;> simp [hstate] at hfinished ⊢

/-! ### Reports under way -/

/-- The report will save what the lines say now. -/
def Call.IsFresh (lines : List SyncJobItem) : Call → Prop
  | .found _ | .recorded | .read _ => True
  | .counted _ progress _ => progress = progressOf lines
  | .reported _ | .saved _ _ => False

instance (lines : List SyncJobItem) : (call : Call) → Decidable (call.IsFresh lines)
  | .found _ | .recorded | .read _ => .isTrue trivial
  | .counted _ progress _ => inferInstanceAs (Decidable (progress = progressOf lines))
  | .reported _ | .saved _ _ => .isFalse id

def Call.job? : Call → Option SyncJob
  | .read job | .counted job _ _ | .saved job _ => some job
  | _ => none

def SyncJob.IsGoing (job : SyncJob) : Prop := job.state = .RUNNING ∨ job.state = .DONE

namespace JobRun

variable {s s' : JobRun}

/-- The job says what its lines say, and is over if they are. -/
structure Matches (s : JobRun) : Prop where
  done : s.job.itemsDone = (progressOf s.lines).done
  failed : s.job.itemsFailed = (progressOf s.lines).failed
  bytes : s.job.bytesDone = (progressOf s.lines).bytesDone
  going : s.job.state = .RUNNING → (progressOf s.lines).open ≠ 0

/-- The job matches its lines, or a report under way will make it. -/
structure Recorded (s : JobRun) : Prop where
  job : s.job.IsGoing
  calls : ∀ call ∈ s.calls, ∀ job ∈ call.job?, job.IsGoing
  matches_or : s.Matches ∨ ∃ call ∈ s.calls, call.IsFresh s.lines

/-- A report saves the job with the counts the lines have, or while another one is still to. -/
def Counted (s : JobRun) : Action → Prop
  | .saveJob call =>
    match s.calls[call]? with
    | some (.counted _ progress _) =>
      progress = progressOf s.lines ∨ ∃ other ∈ s.calls.eraseIdx call, other.IsFresh s.lines
    | _ => True
  | _ => True

instance (s : JobRun) : (action : Action) → Decidable (s.Counted action)
  | .saveJob call =>
    match h : s.calls[call]? with
    | some (.counted _ progress _) =>
      decidable_of_iff (progress = progressOf s.lines ∨
        ∃ other ∈ s.calls.eraseIdx call, other.IsFresh s.lines) (by unfold Counted; simp only [h])
    | some (.reported _) | some (.found _) | some .recorded | some (.read _) | some (.saved _ _)
    | none =>
      .isTrue (by unfold Counted; simp only [h])
  | .report _ | .findLine _ _ | .saveLine _ | .readJob _ | .count _ _ | .announce _ =>
      .isTrue trivial

/-! ### What one step leaves of the reports -/

theorem mem_eraseIdx_of_ne {α : Type*} {l : List α} {i : ℕ} {old a : α} (hi : l[i]? = some old)
    (ha : a ∈ l) (hne : a ≠ old) : a ∈ l.eraseIdx i := by
  obtain ⟨j, hj, rfl⟩ := List.mem_iff_getElem.mp ha
  refine List.mem_eraseIdx_iff_getElem?.mpr ⟨j, ?_, List.getElem?_eq_getElem hj⟩
  rintro rfl
  exact hne (Option.some.inj ((List.getElem?_eq_getElem hj).symm.trans hi))

theorem mem_set_of_eraseIdx {α : Type*} {l : List α} {i : ℕ} {new a : α} (ha : a ∈ l.eraseIdx i) :
    a ∈ l.set i new := by
  obtain ⟨j, hj, hget⟩ := List.mem_eraseIdx_iff_getElem?.mp ha
  exact List.mem_of_getElem? (by rw [List.getElem?_set_ne (Ne.symm hj)]; exact hget)

/-- The reports are as they were, apart from one that has not touched the job or has done with
it. -/
theorem Recorded.of_calls (h : s.Recorded) (hjob : s'.job = s.job) (hlines : s'.lines = s.lines)
    (hcalls : ∀ call ∈ s'.calls, call ∈ s.calls ∨ call.job? = none)
    (hfresh : ∀ call ∈ s.calls, call.IsFresh s.lines → call ∈ s'.calls) : s'.Recorded := by
  refine ⟨hjob ▸ h.job, fun call hcall job hread => ?_, ?_⟩
  · obtain hold | hnone := hcalls call hcall
    · exact h.calls call hold job hread
    · rw [hnone] at hread
      cases hread
  · refine h.matches_or.imp (fun hmatches => ?_) ?_
    · constructor
      · rw [hjob, hlines]; exact hmatches.done
      · rw [hjob, hlines]; exact hmatches.failed
      · rw [hjob, hlines]; exact hmatches.bytes
      · rw [hjob, hlines]; exact hmatches.going
    · rintro ⟨call, hcall, hwill⟩
      exact ⟨call, hfresh call hcall hwill, hlines ▸ hwill⟩

/-- One report goes on to what will save what the lines say. -/
theorem Recorded.of_fresh {i : ℕ} {before after : Call} {lines : List SyncJobItem} (h : s.Recorded)
    (hi : s.calls[i]? = some before) (hafter : after.IsFresh lines)
    (hread : ∀ job ∈ after.job?, job.IsGoing) :
    Recorded { s with lines := lines, calls := s.calls.set i after } := by
  have hlt : i < s.calls.length := (List.getElem?_eq_some_iff.mp hi).1
  refine ⟨h.job, fun call hcall job hjob => ?_, .inr ⟨after, List.mem_set hlt after, hafter⟩⟩
  obtain hold | rfl := List.mem_or_eq_of_mem_set hcall
  · exact h.calls call hold job hjob
  · exact hread job hjob

theorem settle_isGoing {job : SyncJob} (h : job.IsGoing) (progress : Progress) (now : ℤ) :
    (job.settle progress now).IsGoing := by
  unfold SyncJob.settle SyncJob.IsGoing
  dsimp only
  split
  · exact .inr rfl
  · exact h

theorem matches_settle {job : SyncJob} {now : ℤ} {calls : List Call} :
    Matches { s with job := job.settle (progressOf s.lines) now, calls := calls } := by
  refine ⟨rfl, rfl, rfl, fun hrunning hzero => ?_⟩
  dsimp only at hrunning hzero
  unfold SyncJob.settle at hrunning
  dsimp only at hrunning
  split at hrunning
  · cases hrunning
  · next hfinishing => exact hfinishing (decide_eq_true ⟨hrunning, hzero⟩)

/-- **One step** keeps the job recorded, where it is saved with the counts of its lines or another
report is still to. -/
theorem Recorded.step {action : Action} (h : s.Recorded) (hguard : s.Counted action)
    (hstep : s.step action = some s') : s'.Recorded := by
  cases action with
  | report transfer =>
    change (if _ then _ else _) = some s' at hstep
    split at hstep
    · cases hstep
      refine h.of_calls rfl rfl
        (fun call hcall => ?_) fun call hcall _ => List.mem_append_left _ hcall
      refine (List.mem_append.mp hcall).imp_right fun hnew => ?_
      rw [List.mem_singleton.mp hnew]
      rfl
    · cases hstep
      exact h.of_calls rfl rfl (fun _ hcall => .inl hcall) fun _ hcall _ => hcall
  | findLine i transfer =>
    simp only [JobRun.step] at hstep
    split at hstep
    · next before hi =>
      -- a report that has not found its line will not save the job yet
      have hne : ∀ call : Call, call.IsFresh s.lines → call ≠ .reported before := by
        rintro _ hfresh rfl
        exact hfresh
      obtain ⟨-, hstep⟩ := Option.ite_none_right_eq_some.mp hstep
      split at hstep
      · cases hstep
        exact h.of_calls rfl rfl (fun _ hcall => .inl (List.mem_of_mem_eraseIdx hcall))
          fun call hcall hfresh => mem_eraseIdx_of_ne hi hcall (hne call hfresh)
      · cases hstep
        exact h.of_fresh hi trivial nofun
    · cases hstep
  | saveLine i =>
    simp only [JobRun.step] at hstep
    split at hstep
    · next line hi =>
      cases hstep
      exact h.of_fresh hi trivial nofun
    · cases hstep
  | readJob i =>
    simp only [JobRun.step] at hstep
    split at hstep
    · next hi =>
      cases hstep
      refine h.of_fresh hi trivial ?_
      rintro _ ⟨⟩
      exact h.job
    · cases hstep
  | count i now =>
    simp only [JobRun.step] at hstep
    split at hstep
    · next job hi =>
      cases hstep
      have hread : ∀ other ∈ (Call.read job).job?, other.IsGoing :=
        h.calls _ (List.mem_of_getElem? hi)
      exact h.of_fresh hi rfl hread
    · cases hstep
  | saveJob i =>
    simp only [JobRun.step] at hstep
    split at hstep
    · next job progress now hi =>
      cases hstep
      have hjob : job.IsGoing := h.calls _ (List.mem_of_getElem? hi) job rfl
      refine ⟨settle_isGoing hjob progress now, fun call hcall other hother => ?_, ?_⟩
      · obtain hold | rfl := List.mem_or_eq_of_mem_set hcall
        · exact h.calls call hold other hother
        · cases hother
          exact settle_isGoing hjob progress now
      · simp only [Counted, hi] at hguard
        obtain rfl | ⟨other, hother, hfresh⟩ := hguard
        · exact .inl matches_settle
        · exact .inr ⟨other, mem_set_of_eraseIdx hother, hfresh⟩
    · cases hstep
  | announce i =>
    simp only [JobRun.step] at hstep
    split at hstep
    · next job finished hi =>
      cases hstep
      refine h.of_calls rfl rfl (fun _ hcall => .inl (List.mem_of_mem_eraseIdx hcall)) ?_
      intro call hcall hfresh
      refine mem_eraseIdx_of_ne hi hcall ?_
      rintro rfl
      exact hfresh
    · cases hstep

/-- A run as it is started: every line is still to be done or was dropped, and it is over if all
were. -/
structure Starts (s : JobRun) : Prop where
  calls : s.calls = []
  lines : ∀ line ∈ s.lines, (line.state = .PENDING ∨ line.state = .SKIPPED) ∧ line.bytesDone = 0
  state : s.job.state = if ∃ line ∈ s.lines, line.state = .PENDING then .RUNNING else .DONE
  counters : s.job.itemsDone = 0 ∧ s.job.itemsFailed = 0 ∧ s.job.bytesDone = 0

theorem Starts.recorded (h : s.Starts) : s.Recorded := by
  have hdone : (progressOf s.lines).done = 0 := by
    rw [progressOf_eq]
    refine List.countP_eq_zero.mpr fun line hline => ?_
    obtain hpending | hskipped := (h.lines line hline).1
    · simp [hpending]
    · simp [hskipped]
  have hfailed : (progressOf s.lines).failed = 0 := by
    rw [progressOf_eq]
    refine List.countP_eq_zero.mpr fun line hline => ?_
    obtain hpending | hskipped := (h.lines line hline).1
    · simp [hpending]
    · simp [hskipped]
  have hbytes : (progressOf s.lines).bytesDone = 0 := by
    rw [progressOf_eq]
    refine List.sum_eq_zero fun bytes hbytes => ?_
    obtain ⟨line, hline, rfl⟩ := List.mem_map.mp hbytes
    exact (h.lines line hline).2
  refine ⟨?_, ?_, .inl ⟨?_, ?_, ?_, ?_⟩⟩
  · unfold SyncJob.IsGoing
    rw [h.state]
    split
    · exact .inl rfl
    · exact .inr rfl
  · intro call hcall
    rw [h.calls] at hcall
    cases hcall
  · rw [h.counters.1, hdone]
  · rw [h.counters.2.1, hfailed]
  · rw [h.counters.2.2, hbytes]
  · intro hrunning
    rw [h.state] at hrunning
    split at hrunning
    · next hpending =>
      obtain ⟨line, hline, hstate⟩ := hpending
      rw [progressOf_eq]
      exact Nat.pos_iff_ne_zero.mp (List.countP_pos_iff.mpr ⟨line, hline, by simp [hstate]⟩)
    · cases hrunning

/-- **A finished run is recorded as finished**, as long as no report saves the job with counts its
lines no longer have unless another one is still to: once no report is under way and every line is
done, failed or skipped, the job is no longer running, its counters are the counts over its lines,
and its plan may run again. -/
theorem recorded_of_run {s₀ : JobRun} {actions : List Action} (hrun : Run step Counted s₀ actions s)
    (h₀ : s₀.Starts) (hcalls : s.calls = []) (hlines : ∀ line ∈ s.lines, line.isFinished) :
    s.job.state ≠ .RUNNING ∧
    s.job.itemsDone = s.lines.countP (·.state = .DONE) ∧
    s.job.itemsFailed = s.lines.countP (·.state = .FAILED) ∧
    s.job.bytesDone = (s.lines.map (·.bytesDone)).sum ∧
    ∀ planId, s.findLiveForPlan planId = none := by
  have hrecorded :=
    hrun.invariant (fun _ _ _ h hguard hstep => Recorded.step h hguard hstep) h₀.recorded
  obtain hmatches | ⟨call, hcall, -⟩ := hrecorded.matches_or
  · have hover : s.job.state ≠ .RUNNING :=
      fun hrunning => hmatches.going hrunning (open_eq_zero hlines)
    have hdone : s.job.state = .DONE := hrecorded.job.resolve_left hover
    obtain ⟨hitems, hfailed, hbytes, -⟩ := hmatches
    rw [progressOf_eq] at hitems hfailed hbytes
    refine ⟨hover, hitems, hfailed, hbytes, fun planId => ?_⟩
    refine if_neg fun hlive => ?_
    rw [hdone] at hlive
    exact absurd hlive.2 (by decide)
  · rw [hcalls] at hcall
    cases hcall

end JobRun

/-! ### Two episodes that arrive at the same time -/

def pendingLine (itemId : String) : SyncJobItem :=
  { id := "line-" ++ itemId, itemId := itemId, state := .PENDING, bytesDone := 0, transferId := none
    error := none, startedAt := none, finishedAt := none }

def arrived (itemId : String) : Transfer :=
  { id := "transfer-" ++ itemId, itemId := itemId, jobId := some "job", title := itemId
    state := .DONE
    bytesDone := 700, errorKind := none, error := none, startedAt := some 0, finishedAt := some 1 }

def twoEpisodes : JobRun :=
  { job := ⟨"job", some "plan", .RUNNING, 2, 0, 0, 0, none⟩
    lines := [pendingLine "a", pendingLine "b"]
    planName := none, calls := [], emitted := [] }

theorem twoEpisodes_starts : twoEpisodes.Starts := by
  constructor
  case calls => rfl
  case lines => decide
  case state => decide
  case counters => decide

def inTurn : List JobRun.Action :=
  ["a", "b"].flatMap fun itemId => [.report (arrived itemId), .findLine 0 (arrived itemId),
    .saveLine 0, .readJob 0, .count 0 2, .saveJob 0, .announce 0]

/-- Both have counted before either saves the job, and the one that counted first saves last. -/
def crossed : List JobRun.Action :=
  [.report (arrived "a"), .report (arrived "b"), .findLine 0 (arrived "a"), .saveLine 0, .readJob 0,
    .count 0 2, .findLine 1 (arrived "b"), .saveLine 1, .readJob 1, .count 1 2, .saveJob 1,
    .saveJob 0, .announce 1, .announce 0]

/-- In turn, the run is over. -/
theorem recorded_of_run_inTurn :
    ∃ s, exec JobRun.step JobRun.Counted twoEpisodes inTurn = some s ∧ s.job.state ≠ .RUNNING ∧
      s.findLiveForPlan "plan" = none := by
  have hquiet : (exec JobRun.step JobRun.Counted twoEpisodes inTurn).any
      (fun s => s.calls = [] ∧ ∀ line ∈ s.lines, line.isFinished) = true := by decide +kernel
  obtain ⟨s, hexec, hend⟩ := (Option.any_eq_true _ _).mp hquiet
  obtain ⟨hcalls, hlines⟩ := of_decide_eq_true hend
  obtain ⟨hover, -, -, -, hlive⟩ :=
    JobRun.recorded_of_run (.ofExec hexec) twoEpisodes_starts hcalls hlines
  exact ⟨s, hexec, hover, hlive "plan"⟩

/-- Crossed, it runs for ever, and its plan is refused. -/
theorem not_recorded_of_run : ¬ ∀ (s₀ : JobRun) (actions : List JobRun.Action) (s : JobRun),
    s₀.Starts → Run JobRun.step Free s₀ actions s → s.calls = [] →
    (∀ line ∈ s.lines, line.isFinished) →
    s.job.state ≠ .RUNNING ∧ ∀ planId, s.findLiveForPlan planId = none := by
  intro h
  have hstuck : (exec JobRun.step Free twoEpisodes crossed).any (fun s => s.calls = [] ∧
      (∀ line ∈ s.lines, line.isFinished) ∧ s.job.state = .RUNNING) = true := by decide +kernel
  obtain ⟨s, hexec, hend⟩ := (Option.any_eq_true _ _).mp hstuck
  obtain ⟨hcalls, hlines, hrunning⟩ := of_decide_eq_true hend
  exact (h twoEpisodes crossed s twoEpisodes_starts (.ofExec hexec) hcalls hlines).1 hrunning

end MediaCenterSync.SyncManager
