import MediaCenterSync.SyncManager.Correct.Job
import MediaCenterSync.SyncManager.Run

/-!
# When one run of a plan is live, and none is left behind

Two calls of `run` that look for a live job before either saves its own both find none.  A run that
fails with items that have no transfer leaves lines nothing will ever report, and a report that
saves what it has read too long ago brings a finished job back.  Where none of this happens
(`PlanRuns.Orderly`), at most one job of the plan is live, and the job of a run that failed is over
once its transfers are (`oneLive_of_run`).
-/

namespace MediaCenterSync.SyncManager

open LabelledRun
open CancelRun (isOver)
open JobRun (mem_eraseIdx_of_ne mem_set_of_eraseIdx)
open Planning (PlannedItem)

/-! ### Reports -/

def Call.item? : Call → Option String
  | .reported transfer => some transfer.itemId
  | .found line => some line.itemId
  | _ => none

/-- The report will save the line of an item as finished, if its transfer is. -/
def Call.Brings (itemId : String) : Call → Prop
  | .reported transfer => transfer.itemId = itemId
  | .found line => line.itemId = itemId ∧ line.isFinished
  | _ => False

instance (itemId : String) : (call : Call) → Decidable (call.Brings itemId)
  | .reported transfer => inferInstanceAs (Decidable (transfer.itemId = itemId))
  | .found line => inferInstanceAs (Decidable (line.itemId = itemId ∧ line.isFinished))
  | .recorded | .read _ | .counted _ _ _ | .saved _ _ => .isFalse id

theorem isFinished_record {line : SyncJobItem} {transfer : Transfer} (h : isOver transfer.state) :
    (line.record transfer).isFinished := by
  unfold isOver at h
  unfold SyncJobItem.isFinished SyncJobItem.record
  cases hstate : transfer.state <;> simp_all [jobItemStateOf]

/-- It is the job of a run of the plan, and nobody cancelled it. -/
def SyncJob.IsGoingFor (job : SyncJob) (planId : String) : Prop :=
  job.IsGoing ∧ job.planId = some planId

/-- The report is about the plan, and about a transfer of the job. -/
structure Call.Fits (planId : String) (transfers : List Transfer) (call : Call) : Prop where
  job : ∀ job ∈ call.job?, job.IsGoingFor planId
  row : ∀ itemId ∈ call.item?, ∃ row ∈ transfers, row.itemId = itemId
  named : ∀ line, call = .found line → line.id = line.itemId

/-! ### One job -/

/-- The items that are to have a transfer still. -/
def Starting.left : Starting → List PlannedItem
  | .saved planning => planning.items
  | .recorded left | .created left => left
  | .stamped | .returned | .rejected => []

namespace PlanJob

variable {j j' : PlanJob} {planId : String}

/-- A report does not save the line of a finished transfer as open, unless another report of the
transfer is to come. -/
def LineStands (j : PlanJob) (index : ℕ) : Call → Prop
  | .found line => line.isFinished ∨ ∀ row ∈ j.transfers, row.itemId = line.itemId →
      isOver row.state → ∃ other ∈ j.run.calls.eraseIdx index, other.Brings line.itemId
  | _ => True

/-- A report does not bring back a job that is over. -/
def JobStands (j : PlanJob) : Call → Prop
  | .counted job progress now => (job.settle progress now).state ∈ LIVE_STATES → j.isLive
  | _ => True

instance (j : PlanJob) (index : ℕ) : (call : Call) → Decidable (j.LineStands index call)
  | .found line => inferInstanceAs (Decidable (line.isFinished ∨ ∀ row ∈ j.transfers,
      row.itemId = line.itemId → isOver row.state →
        ∃ other ∈ j.run.calls.eraseIdx index, other.Brings line.itemId))
  | .reported _ | .recorded | .read _ | .counted _ _ _ | .saved _ _ => .isTrue trivial

instance (j : PlanJob) : (call : Call) → Decidable (j.JobStands call)
  | .counted job progress now =>
    inferInstanceAs (Decidable ((job.settle progress now).state ∈ LIVE_STATES → j.isLive))
  | .reported _ | .found _ | .recorded | .read _ | .saved _ _ => .isTrue trivial

/-- A run fails only once every item has its transfer, and no report brings back what is over. -/
def Orderly (j : PlanJob) : Action → Prop
  | .reject => j.starting.left = []
  | .report (.saveLine index) => ∀ call ∈ j.run.calls[index]?, j.LineStands index call
  | .report (.saveJob index) => ∀ call ∈ j.run.calls[index]?, j.JobStands call
  | _ => True

instance (j : PlanJob) : (action : Action) → Decidable (j.Orderly action)
  | .reject => inferInstanceAs (Decidable (j.starting.left = []))
  | .report (.saveLine index) =>
    inferInstanceAs (Decidable (∀ call ∈ j.run.calls[index]?, j.LineStands index call))
  | .report (.saveJob index) =>
    inferInstanceAs (Decidable (∀ call ∈ j.run.calls[index]?, j.JobStands call))
  | .recordLines | .saveTransfer _ | .enqueue | .stamp | .announce | .engine _
  | .report (.report _) | .report (.findLine _ _) | .report (.readJob _) | .report (.count _ _)
  | .report (.announce _) => .isTrue trivial

/-- The line is finished, or something will still finish it. -/
def Accounted (j : PlanJob) (line : SyncJobItem) : Prop :=
  line.isFinished ∨ line.itemId ∈ j.starting.left.map (·.itemId) ∨
    ∃ row ∈ j.transfers, row.itemId = line.itemId ∧
      (¬ isOver row.state ∨ ∃ call ∈ j.run.calls, call.Brings line.itemId)

/-- It is over, or something is open, or a report will save what the lines say. -/
def Ends (j : PlanJob) : Prop :=
  j.run.job.state = .DONE ∨ (∃ line ∈ j.run.lines, ¬ line.isFinished) ∨
    (∃ call ∈ j.run.calls, call.IsFresh j.run.lines) ∨
      ∃ planning, j.starting = .saved planning ∧ planning.items ≠ []

structure Sound (planId : String) (j : PlanJob) : Prop where
  job : j.run.job.IsGoingFor planId
  calls : ∀ call ∈ j.run.calls, call.Fits planId j.transfers
  ends : j.Ends
  saved : ∀ planning, j.starting = .saved planning →
    j.run.lines = [] ∧ j.transfers = [] ∧ j.run.calls = []
  lines : ∀ line ∈ j.run.lines, j.Accounted line
  named : ∀ line ∈ j.run.lines, line.id = line.itemId
  items : (j.transfers.map (·.itemId) ++ j.starting.left.map (·.itemId)).Nodup
  ids : (j.transfers.map (·.id)).Nodup

theorem Sound.of_calls (h : j.Sound planId) {run : JobRun} (hjob : run.job.IsGoingFor planId)
    (hlines : run.lines = j.run.lines) (hfits : ∀ call ∈ run.calls, call.Fits planId j.transfers)
    (hnone : j.run.calls = [] → run.calls = [])
    (hbrings : ∀ call ∈ j.run.calls, ∀ line ∈ j.run.lines, call.Brings line.itemId →
      (∃ row ∈ j.transfers, row.itemId = line.itemId ∧ ¬ isOver row.state) ∨
        ∃ call ∈ run.calls, call.Brings line.itemId)
    (hends : Ends { j with run := run }) : Sound planId { j with run := run } where
  job := hjob
  calls := hfits
  ends := hends
  saved := fun planning hplanning =>
    have hempty := h.saved planning hplanning
    ⟨hlines ▸ hempty.1, hempty.2.1, hnone hempty.2.2⟩
  lines := by
    intro line hline
    rw [hlines] at hline
    rcases h.lines line hline with hfinished | hleft | ⟨row, hrow, hitem, hover | ⟨call, hcall, hb⟩⟩
    · exact .inl hfinished
    · exact .inr (.inl hleft)
    · exact .inr (.inr ⟨row, hrow, hitem, .inl hover⟩)
    · rcases hbrings call hcall line hline hb with ⟨row', hrow', hitem', hover'⟩ | hother
      · exact .inr (.inr ⟨row', hrow', hitem', .inl hover'⟩)
      · exact .inr (.inr ⟨row, hrow, hitem, .inr hother⟩)
  named := hlines ▸ h.named
  items := h.items
  ids := h.ids

/-- What ends still does while the reports that will save what the lines say are there. -/
theorem Ends.of_fresh (h : j.Ends) {run : JobRun} (hjob : run.job = j.run.job)
    (hlines : run.lines = j.run.lines) (hfresh : ∀ call ∈ j.run.calls, call.IsFresh j.run.lines →
      ∃ call ∈ run.calls, call.IsFresh j.run.lines) : Ends { j with run := run } := by
  unfold Ends
  rw [hjob, hlines]
  rcases h with hover | hopen | ⟨call, hcall, hwill⟩ | hsaved
  · exact .inl hover
  · exact .inr (.inl hopen)
  · exact .inr (.inr (.inl (hfresh call hcall hwill)))
  · exact .inr (.inr (.inr hsaved))

section

variable {index : ℕ} {before : Call}

theorem mem_set_of_ne {after call : Call} (hi : j.run.calls[index]? = some before)
    (hcall : call ∈ j.run.calls) (hne : call ≠ before) : call ∈ j.run.calls.set index after :=
  mem_set_of_eraseIdx (mem_eraseIdx_of_ne hi hcall hne)

theorem set_eq_nil {after : Call} (hi : j.run.calls[index]? = some before) :
    j.run.calls = [] → j.run.calls.set index after = [] := by
  intro hnil
  rw [hnil] at hi
  cases hi

/-- One report goes on, and the job is saved by it or as it was. -/
theorem Sound.of_set (h : j.Sound planId) {after : Call} {job : SyncJob}
    (hi : j.run.calls[index]? = some before) (hjob : job.IsGoingFor planId)
    (hfits : after.Fits planId j.transfers)
    (hbrings : ∀ line ∈ j.run.lines, before.Brings line.itemId →
      (∃ row ∈ j.transfers, row.itemId = line.itemId ∧ ¬ isOver row.state) ∨
        after.Brings line.itemId)
    (hends : Ends { j with
      run := { j.run with job := job, calls := j.run.calls.set index after } }) :
    Sound planId { j with
      run := { j.run with job := job, calls := j.run.calls.set index after } } := by
  have hlt : index < j.run.calls.length := (List.getElem?_eq_some_iff.mp hi).1
  refine h.of_calls hjob rfl (fun call hcall => ?_) (set_eq_nil hi)
    (fun call hcall line hline hb => ?_) hends
  · obtain hold | rfl := List.mem_or_eq_of_mem_set hcall
    · exact h.calls call hold
    · exact hfits
  · by_cases hne : call = before
    · rw [hne] at hb
      exact (hbrings line hline hb).imp_right fun hb => ⟨after, List.mem_set hlt after, hb⟩
    · exact .inr ⟨call, mem_set_of_ne hi hcall hne, hb⟩

/-- One report goes on, and will save what the lines say if it would have. -/
theorem Ends.of_set (h : j.Ends) {after : Call} (hi : j.run.calls[index]? = some before)
    (hfresh : before.IsFresh j.run.lines → after.IsFresh j.run.lines) :
    Ends { j with run := { j.run with calls := j.run.calls.set index after } } := by
  have hlt : index < j.run.calls.length := (List.getElem?_eq_some_iff.mp hi).1
  refine h.of_fresh rfl rfl fun call hcall hf => ?_
  by_cases hne : call = before
  · rw [hne] at hf
    exact ⟨after, List.mem_set hlt after, hfresh hf⟩
  · exact ⟨call, mem_set_of_ne hi hcall hne, hf⟩

theorem Sound.of_erase (h : j.Sound planId) {emitted : List Emission}
    (hi : j.run.calls[index]? = some before)
    (hbrings : ∀ line ∈ j.run.lines, ¬ before.Brings line.itemId)
    (hfresh : ¬ before.IsFresh j.run.lines) :
    Sound planId { j with
      run := { j.run with calls := j.run.calls.eraseIdx index, emitted := emitted } } := by
  refine h.of_calls h.job rfl (fun call hcall => h.calls call (List.mem_of_mem_eraseIdx hcall))
    (fun hnil => by rw [hnil]; rfl) (fun call hcall line hline hb => ?_)
    (h.ends.of_fresh rfl rfl fun call hcall hf => ?_)
  · refine .inr ⟨call, mem_eraseIdx_of_ne hi hcall ?_, hb⟩
    rintro rfl
    exact hbrings line hline hb
  · refine ⟨call, mem_eraseIdx_of_ne hi hcall ?_, hf⟩
    rintro rfl
    exact hfresh hf

end

theorem findLine_eq_some {run : JobRun} {itemId : String} {line : SyncJobItem}
    (h : run.findLine itemId = some line) : line ∈ run.lines ∧ line.itemId = itemId := by
  have hthis := List.find?_some h
  exact ⟨List.mem_of_find?_eq_some h, of_decide_eq_true hthis⟩

theorem Sound.findLine (h : j.Sound planId) {index : ℕ} {transfer : Transfer} {run : JobRun}
    (hrow : transfer ∈ j.transfers) (hstep : j.run.step (.findLine index transfer) = some run) :
    Sound planId { j with run := run } := by
  simp only [JobRun.step] at hstep
  split at hstep
  · next before hi =>
    obtain ⟨⟨-, hitem⟩, hstep⟩ := Option.ite_none_right_eq_some.mp hstep
    split at hstep
    · next hnone =>
      cases hstep
      refine h.of_erase hi (fun line hline hb => ?_) id
      have hthis : line.itemId = transfer.itemId := hb.symm.trans hitem.symm
      exact List.find?_eq_none.mp hnone line hline (decide_eq_true hthis)
    · next line hline =>
      cases hstep
      obtain ⟨hin, hthis⟩ := findLine_eq_some hline
      refine h.of_set hi h.job ⟨(by intros; contradiction), ?_, ?_⟩ (fun other _ hb => ?_)
        (h.ends.of_set hi fun _ => trivial)
      · rintro itemId ⟨⟩
        exact ⟨transfer, hrow, hthis.symm⟩
      · rintro _ ⟨⟩
        exact h.named line hin
      · have hother : transfer.itemId = other.itemId := hitem.trans hb
        by_cases hover : isOver transfer.state
        · exact .inr ⟨hthis.trans hother, isFinished_record hover⟩
        · exact .inl ⟨transfer, hrow, hother, hover⟩
  · cases hstep

theorem Sound.saveLine (h : j.Sound planId) {index : ℕ} {run : JobRun}
    (hguard : j.Orderly (.report (.saveLine index)))
    (hstep : j.run.step (.saveLine index) = some run) : Sound planId { j with run := run } := by
  simp only [JobRun.step] at hstep
  split at hstep
  · next saved hi =>
    cases hstep
    have hmem : Call.found saved ∈ j.run.calls := List.mem_of_getElem? hi
    have hnamed := (h.calls _ hmem).named saved rfl
    have hlt : index < j.run.calls.length := (List.getElem?_eq_some_iff.mp hi).1
    have hrecorded : Call.recorded ∈ j.run.calls.set index .recorded := List.mem_set hlt _
    have hlines : ∀ line ∈ JobRun.saveLine j.run.lines saved,
        line = saved ∨ line ∈ j.run.lines ∧ line.id ≠ saved.id := by
      intro line hline
      obtain ⟨old, hold, rfl⟩ := List.mem_map.mp hline
      by_cases hid : old.id = saved.id
      · rw [if_pos hid]
        exact .inl rfl
      · rw [if_neg hid]
        exact .inr ⟨hold, hid⟩
    constructor
    case job => exact h.job
    case calls =>
      intro call hcall
      obtain hold | rfl := List.mem_or_eq_of_mem_set hcall
      · exact h.calls call hold
      · exact ⟨(by intros; contradiction), (by intros; contradiction), (by simp)⟩
    case ends => exact .inr (.inr (.inl ⟨_, hrecorded, trivial⟩))
    case saved =>
      intro planning hplanning
      rw [(h.saved planning hplanning).2.2] at hlt
      cases hlt
    case lines =>
      intro line hline
      obtain rfl | ⟨hold, hid⟩ := hlines line hline
      · obtain hfinished | hrows := hguard _ hi
        · exact .inl hfinished
        obtain ⟨row, hrow, hitem⟩ := (h.calls _ hmem).row _ rfl
        refine .inr (.inr ⟨row, hrow, hitem, ?_⟩)
        by_cases hover : isOver row.state
        · obtain ⟨other, hother, hb⟩ := hrows row hrow hitem hover
          exact .inr ⟨other, mem_set_of_eraseIdx hother, hb⟩
        · exact .inl hover
      · rcases h.lines line hold with hfinished | hleft | ⟨row, hrow, hitem, hover | ⟨call, hc, hb⟩⟩
        · exact .inl hfinished
        · exact .inr (.inl hleft)
        · exact .inr (.inr ⟨row, hrow, hitem, .inl hover⟩)
        · refine .inr (.inr ⟨row, hrow, hitem, .inr ⟨call, ?_, hb⟩⟩)
          refine mem_set_of_eraseIdx (mem_eraseIdx_of_ne hi hc ?_)
          -- it is another item's report
          rintro rfl
          exact hid ((h.named line hold).trans (hb.1.symm.trans hnamed.symm))
    case named =>
      intro line hline
      obtain rfl | ⟨hold, -⟩ := hlines line hline
      · exact hnamed
      · exact h.named line hold
    case items => exact h.items
    case ids => exact h.ids
  · cases hstep

theorem Sound.saveJob (h : j.Sound planId) {index : ℕ} {run : JobRun}
    (hguard : j.Orderly (.report (.saveJob index)))
    (hstep : j.run.step (.saveJob index) = some run) : Sound planId { j with run := run } := by
  simp only [JobRun.step] at hstep
  split at hstep
  · next job progress now hi =>
    cases hstep
    have hmem : Call.counted job progress now ∈ j.run.calls := List.mem_of_getElem? hi
    have hread : job.IsGoingFor planId := (h.calls _ hmem).job job rfl
    have hsettled : (job.settle progress now).IsGoingFor planId :=
      ⟨JobRun.settle_isGoing hread.1 progress now, hread.2⟩
    refine h.of_set hi hsettled ⟨by rintro _ ⟨⟩; exact hsettled, (by intros; contradiction), (by simp)⟩
      (fun _ _ hb => hb.elim) ?_
    rcases h.ends with hover | hopen | ⟨call, hcall, hfresh⟩ | ⟨planning, hplanning, -⟩
    · -- A job that is over is not brought back.
      have hstands : (job.settle progress now).state ∈ LIVE_STATES → j.isLive := hguard _ hi
      refine .inl (hsettled.1.resolve_left fun hrunning => ?_)
      have hlive := of_decide_eq_true (hstands (by rw [hrunning]; decide))
      rw [hover] at hlive
      exact absurd hlive (by decide)
    · exact .inr (.inl hopen)
    · by_cases hthis : call = .counted job progress now
      · -- The counts are those of the lines: the job ends with them.
        rw [hthis] at hfresh
        have hprogress : progress = progressOf j.run.lines := hfresh
        by_cases hopen : ∃ line ∈ j.run.lines, ¬ line.isFinished
        · exact .inr (.inl hopen)
        · push Not at hopen
          have hzero : progress.open = 0 := by rw [hprogress, open_eq_zero hopen]
          left
          change (if finishing job progress then SyncJobState.DONE else job.state) = .DONE
          split_ifs with hfinishing
          · rfl
          · refine hread.1.resolve_left fun hrunning => ?_
            exact hfinishing (decide_eq_true ⟨hrunning, hzero⟩)
      · exact .inr (.inr (.inl ⟨call, mem_set_of_ne hi hcall hthis, hfresh⟩))
    · rw [(h.saved planning hplanning).2.2] at hmem
      cases hmem
  · cases hstep

theorem Sound.report {action : JobRun.Action} (h : j.Sound planId)
    (hguard : j.Orderly (.report action)) (hstep : j.step (.report action) = some j') :
    j'.Sound planId := by
  cases action with
  | report transfer => cases hstep
  | findLine index transfer =>
    obtain ⟨hrow, hstep⟩ := Option.ite_none_right_eq_some.mp hstep
    obtain ⟨run, hrun, rfl⟩ := Option.map_eq_some_iff.mp hstep
    exact h.findLine hrow hrun
  | saveLine index =>
    obtain ⟨run, hrun, rfl⟩ := Option.map_eq_some_iff.mp hstep
    exact h.saveLine hguard hrun
  | readJob index =>
    obtain ⟨run, hrun, rfl⟩ := Option.map_eq_some_iff.mp hstep
    simp only [JobRun.step] at hrun
    split at hrun
    · next hi =>
      cases hrun
      refine h.of_set hi h.job ⟨?_, (by intros; contradiction), (by simp)⟩ (fun _ _ hb => hb.elim)
        (h.ends.of_set hi fun _ => trivial)
      rintro _ ⟨⟩
      exact h.job
    · cases hrun
  | count index now =>
    obtain ⟨run, hrun, rfl⟩ := Option.map_eq_some_iff.mp hstep
    simp only [JobRun.step] at hrun
    split at hrun
    · next job hi =>
      cases hrun
      have hread := (h.calls _ (List.mem_of_getElem? hi)).job
      exact h.of_set hi h.job ⟨hread, (by intros; contradiction), (by simp)⟩ (fun _ _ hb => hb.elim)
        (h.ends.of_set hi fun _ => rfl)
    · cases hrun
  | saveJob index =>
    obtain ⟨run, hrun, rfl⟩ := Option.map_eq_some_iff.mp hstep
    exact h.saveJob hguard hrun
  | announce index =>
    obtain ⟨run, hrun, rfl⟩ := Option.map_eq_some_iff.mp hstep
    simp only [JobRun.step] at hrun
    split at hrun
    · next job finished hi =>
      cases hrun
      exact h.of_erase hi (fun _ _ hb => hb) id
    · cases hrun

theorem mem_saveTransfer {transfers : List Transfer} {saved row : Transfer}
    (hids : (transfers.map (·.id)).Nodup) (hsaved : ∃ old ∈ transfers, old.id = saved.id ∧
      old.itemId = saved.itemId) (hrow : row ∈ transfers) :
    ∃ new ∈ CancelRun.saveTransfer transfers saved, new.itemId = row.itemId ∧
      (new = saved ∨ new = row) := by
  refine ⟨_, List.mem_map_of_mem hrow, ?_⟩
  by_cases hid : row.id = saved.id
  · obtain ⟨old, hold, hold_id, hitem⟩ := hsaved
    have hrow_eq : row = old := List.inj_on_of_nodup_map hids hrow hold (hid.trans hold_id.symm)
    rw [if_pos hid]
    exact ⟨hrow_eq ▸ hitem.symm, .inl rfl⟩
  · rw [if_neg hid]
    exact ⟨rfl, .inr rfl⟩

theorem map_itemId_saveTransfer {transfers : List Transfer} {saved : Transfer}
    (hids : (transfers.map (·.id)).Nodup) (hsaved : ∃ old ∈ transfers, old.id = saved.id ∧
      old.itemId = saved.itemId) :
    (CancelRun.saveTransfer transfers saved).map (·.itemId) = transfers.map (·.itemId) := by
  unfold CancelRun.saveTransfer
  rw [List.map_map]
  refine List.map_congr_left fun row hrow => ?_
  obtain ⟨old, hold, hold_id, hitem⟩ := hsaved
  by_cases hid : row.id = saved.id
  · have hrow_eq : row = old := List.inj_on_of_nodup_map hids hrow hold (hid.trans hold_id.symm)
    simp [hrow_eq, hold_id, hitem]
  · simp [hid]

theorem map_id_saveTransfer (transfers : List Transfer) (saved : Transfer) :
    (CancelRun.saveTransfer transfers saved).map (·.id) = transfers.map (·.id) := by
  unfold CancelRun.saveTransfer
  rw [List.map_map]
  refine List.map_congr_left fun row _ => ?_
  by_cases hid : row.id = saved.id <;> simp [hid]

theorem Sound.engine {transfer : Transfer} (h : j.Sound planId)
    (hstep : j.step (.engine transfer) = some j') : j'.Sound planId := by
  obtain ⟨⟨hsaved, hjobId⟩, hstep⟩ := Option.ite_none_right_eq_some.mp hstep
  obtain ⟨run, hrun, rfl⟩ := Option.map_eq_some_iff.mp hstep
  simp only [JobRun.step, if_pos hjobId] at hrun
  cases hrun
  have hrows : ∀ itemId, (∃ row ∈ j.transfers, row.itemId = itemId) →
      ∃ row ∈ CancelRun.saveTransfer j.transfers transfer, row.itemId = itemId := by
    rintro _ ⟨row, hrow, rfl⟩
    obtain ⟨new, hnew, hitem, -⟩ := mem_saveTransfer h.ids hsaved hrow
    exact ⟨new, hnew, hitem⟩
  constructor
  case job => exact h.job
  case calls =>
    intro call hcall
    obtain hold | hnew := List.mem_append.mp hcall
    · have hfits := h.calls call hold
      exact ⟨hfits.job, fun itemId hitem => hrows itemId (hfits.row itemId hitem), hfits.named⟩
    · rw [List.mem_singleton.mp hnew]
      refine ⟨(by intros; contradiction), ?_, (by simp)⟩
      rintro _ ⟨⟩
      obtain ⟨old, hold, -, hitem⟩ := hsaved
      exact hrows _ ⟨old, hold, hitem⟩
  case ends =>
    exact h.ends.of_fresh rfl rfl fun call hcall hf => ⟨call, List.mem_append_left _ hcall, hf⟩
  case saved =>
    intro planning hplanning
    obtain ⟨old, hold, -⟩ := hsaved
    rw [(h.saved planning hplanning).2.1] at hold
    cases hold
  case lines =>
    intro line hline
    rcases h.lines line hline with hfinished | hleft | ⟨row, hrow, hitem, hrest⟩
    · exact .inl hfinished
    · exact .inr (.inl hleft)
    · obtain ⟨new, hnew, hnew_item, rfl | rfl⟩ := mem_saveTransfer h.ids hsaved hrow
      · -- The transfer that was written has just been reported.
        refine .inr (.inr ⟨new, hnew, hnew_item.trans hitem, .inr ⟨.reported new, ?_, ?_⟩⟩)
        · exact List.mem_append_right _ (List.mem_singleton.mpr rfl)
        · exact hnew_item.trans hitem
      · refine .inr (.inr ⟨new, hnew, hitem, hrest.imp_right ?_⟩)
        rintro ⟨call, hcall, hb⟩
        exact ⟨call, List.mem_append_left _ hcall, hb⟩
  case named => exact h.named
  case items =>
    rw [map_itemId_saveTransfer h.ids hsaved]
    exact h.items
  case ids =>
    rw [map_id_saveTransfer]
    exact h.ids

theorem Sound.recordLines (h : j.Sound planId) (hstep : j.step .recordLines = some j') :
    j'.Sound planId := by
  simp only [PlanJob.step] at hstep
  split at hstep
  · next planning hplanning =>
    cases hstep
    obtain ⟨hlines, htransfers, hcalls⟩ := h.saved planning hplanning
    have hline : ∀ line ∈ linesOf planning, line.id = line.itemId ∧
        (line.isFinished ∨ line.itemId ∈ planning.items.map (·.itemId)) := by
      intro line hline
      obtain hitem | hdropped := List.mem_append.mp hline
      · obtain ⟨planned, hplanned, rfl⟩ := List.mem_map.mp hitem
        exact ⟨rfl, .inr (List.mem_map_of_mem hplanned)⟩
      · obtain ⟨planned, hplanned, rfl⟩ := List.mem_map.mp hdropped
        exact ⟨rfl, .inl rfl⟩
    constructor
    case job => exact h.job
    case calls =>
      intro call hcall
      rw [hcalls] at hcall
      cases hcall
    case ends =>
      rcases h.ends with hover | ⟨line, hin, -⟩ | ⟨call, hcall, -⟩ | ⟨other, hother, hitems⟩
      · exact .inl hover
      · rw [hlines] at hin
        cases hin
      · rw [hcalls] at hcall
        cases hcall
      · obtain rfl : planning = other := Starting.saved.inj (hplanning.symm.trans hother)
        obtain ⟨planned, hplanned⟩ := List.exists_mem_of_ne_nil _ hitems
        refine .inr (.inl ⟨line .PENDING planned, ?_, Bool.false_ne_true⟩)
        exact List.mem_append_left _ (List.mem_map_of_mem hplanned)
    case saved => exact nofun
    case lines => exact fun line hin => (hline line hin).2.imp_right .inl
    case named => exact fun line hin => (hline line hin).1
    case items =>
      have hitems := planning.nodup
      rw [List.map_append] at hitems
      rw [htransfers]
      exact (List.nodup_append.mp hitems).1
    case ids => exact h.ids
  · cases hstep

theorem Ends.of_starting (h : j.Ends) {starting : Starting}
    (hitems : ∀ planning, j.starting = .saved planning → planning.items = []) :
    Ends { j with starting := starting } := by
  rcases h with hover | hopen | hfresh | ⟨planning, hplanning, hne⟩
  · exact .inl hover
  · exact .inr (.inl hopen)
  · exact .inr (.inr (.inl hfresh))
  · exact absurd (hitems planning hplanning) hne

theorem Sound.of_starting (h : j.Sound planId) {starting : Starting} {emitted : List Emission}
    (hleft : starting.left = j.starting.left)
    (hitems : ∀ planning, j.starting = .saved planning → planning.items = [])
    (hsaved : ∀ planning, starting ≠ .saved planning) :
    Sound planId { j with
      run := { j.run with emitted := emitted }
      starting := starting } where
  job := h.job
  calls := h.calls
  ends :=
    have hends : Ends { j with starting := starting } := h.ends.of_starting hitems
    hends
  saved := fun planning hplanning => absurd hplanning (hsaved planning)
  lines := fun line hline => (h.lines line hline).imp_right (Or.imp_left fun hin => by rwa [hleft])
  named := h.named
  items := by rw [hleft]; exact h.items
  ids := h.ids

theorem Sound.saveTransfer {id : String} (h : j.Sound planId)
    (hstep : j.step (.saveTransfer id) = some j') : j'.Sound planId := by
  simp only [PlanJob.step] at hstep
  split at hstep
  · next planned left hstarting =>
    obtain ⟨hid, hstep⟩ := Option.ite_none_left_eq_some.mp hstep
    cases hstep
    have hends : Ends { j with starting := .created left } :=
      h.ends.of_starting fun planning hplanning => by rw [hstarting] at hplanning; cases hplanning
    have hitems := h.items
    have hlines := h.lines
    unfold Accounted at hlines
    rw [hstarting] at hitems hlines
    constructor
    case job => exact h.job
    case calls =>
      intro call hcall
      have hfits := h.calls call hcall
      refine ⟨hfits.job, fun itemId hitem => ?_, hfits.named⟩
      obtain ⟨row, hrow, hrow_item⟩ := hfits.row itemId hitem
      exact ⟨row, List.mem_append_left _ hrow, hrow_item⟩
    case ends => exact hends
    case saved => exact nofun
    case lines =>
      intro line hline
      rcases hlines line hline with hfinished | hleft | ⟨row, hrow, hrest⟩
      · exact .inl hfinished
      · obtain hthis | hlater := List.mem_cons.mp hleft
        · refine .inr (.inr ⟨transferOf j.row.id id planned, ?_, hthis.symm,
            .inl Bool.false_ne_true⟩)
          exact List.mem_append_right _ (List.mem_singleton.mpr rfl)
        · exact .inr (.inl hlater)
      · exact .inr (.inr ⟨row, List.mem_append_left _ hrow, hrest⟩)
    case named => exact h.named
    case items =>
      rw [List.map_append, List.append_assoc]
      exact hitems
    case ids =>
      rw [List.map_append]
      refine List.nodup_append.mpr ⟨h.ids, List.nodup_singleton _, fun a ha b hb hab => ?_⟩
      rw [hab, List.mem_singleton.mp hb] at ha
      exact hid ha
  · cases hstep

/-- **One step** of an orderly run, of the engine or of a report keeps the job's end from being
missed. -/
theorem Sound.step {action : Action} (h : j.Sound planId) (hguard : j.Orderly action)
    (hstep : j.step action = some j') : j'.Sound planId := by
  cases action with
  | recordLines => exact h.recordLines hstep
  | saveTransfer id => exact h.saveTransfer hstep
  | enqueue =>
    simp only [PlanJob.step] at hstep
    split at hstep
    · next left hstarting =>
      cases hstep
      refine h.of_starting (by rw [hstarting]; rfl) ?_ nofun
      rw [hstarting]
      exact nofun
    · cases hstep
  | stamp =>
    simp only [PlanJob.step] at hstep
    split at hstep
    · next hstarting =>
      cases hstep
      refine h.of_starting (by rw [hstarting]; rfl) ?_ nofun
      rw [hstarting]
      exact nofun
    · cases hstep
  | announce =>
    simp only [PlanJob.step] at hstep
    split at hstep
    · next hstarting =>
      cases hstep
      refine h.of_starting (by rw [hstarting]; rfl) ?_ nofun
      rw [hstarting]
      exact nofun
    · cases hstep
  | reject =>
    have hleft : j.starting.left = [] := hguard
    have hreject : j' = { j with starting := .rejected } := by
      simp only [PlanJob.step] at hstep
      split at hstep
      · cases hstep
      · cases hstep
      · exact (Option.some.inj hstep).symm
    rw [hreject]
    refine h.of_starting hleft.symm (fun planning hsaved => ?_) nofun
    rw [hsaved] at hleft
    exact hleft
  | engine transfer => exact h.engine hstep
  | report action => exact h.report hguard hstep

theorem job_of_step {run run' : JobRun} {action : JobRun.Action}
    (hstep : run.step action = some run') (hother : ∀ index, action ≠ .saveJob index) :
    run'.job = run.job := by
  cases action with
  | report transfer =>
    simp only [JobRun.step] at hstep
    split at hstep <;> exact Option.some.inj hstep ▸ rfl
  | findLine index transfer =>
    simp only [JobRun.step] at hstep
    split at hstep
    · obtain ⟨-, hstep⟩ := Option.ite_none_right_eq_some.mp hstep
      split at hstep <;> exact Option.some.inj hstep ▸ rfl
    · cases hstep
  | saveLine index =>
    simp only [JobRun.step] at hstep
    split at hstep
    · exact Option.some.inj hstep ▸ rfl
    · cases hstep
  | readJob index =>
    simp only [JobRun.step] at hstep
    split at hstep
    · exact Option.some.inj hstep ▸ rfl
    · cases hstep
  | count index now =>
    simp only [JobRun.step] at hstep
    split at hstep
    · exact Option.some.inj hstep ▸ rfl
    · cases hstep
  | saveJob index => exact absurd rfl (hother index)
  | announce index =>
    simp only [JobRun.step] at hstep
    split at hstep
    · exact Option.some.inj hstep ▸ rfl
    · cases hstep

theorem isLive_of_step {action : Action} (hguard : j.Orderly action)
    (hstep : j.step action = some j') (hlive : j'.isLive) : j.isLive := by
  have hsame : j'.run.job = j.run.job → j.isLive := by
    intro hjob
    unfold isLive at hlive ⊢
    rwa [← hjob]
  cases action with
  | recordLines | enqueue | stamp | announce | reject =>
    refine hsame ?_
    simp only [PlanJob.step] at hstep
    split at hstep <;> first | exact Option.some.inj hstep ▸ rfl | cases hstep
  | saveTransfer id =>
    refine hsame ?_
    simp only [PlanJob.step] at hstep
    split at hstep
    · obtain ⟨-, hstep⟩ := Option.ite_none_left_eq_some.mp hstep
      exact Option.some.inj hstep ▸ rfl
    · cases hstep
  | engine transfer =>
    obtain ⟨-, hstep⟩ := Option.ite_none_right_eq_some.mp hstep
    obtain ⟨run, hrun, rfl⟩ := Option.map_eq_some_iff.mp hstep
    exact hsame (job_of_step hrun (by simp))
  | report action =>
    cases action with
    | report transfer => cases hstep
    | findLine index transfer =>
      obtain ⟨-, hstep⟩ := Option.ite_none_right_eq_some.mp hstep
      obtain ⟨run, hrun, rfl⟩ := Option.map_eq_some_iff.mp hstep
      exact hsame (job_of_step hrun (by simp))
    | saveJob index =>
      obtain ⟨run, hrun, rfl⟩ := Option.map_eq_some_iff.mp hstep
      simp only [JobRun.step] at hrun
      split at hrun
      · next job progress now hi =>
        cases hrun
        have hstands : (job.settle progress now).state ∈ LIVE_STATES → j.isLive := hguard _ hi
        exact hstands (of_decide_eq_true hlive)
      · cases hrun
    | saveLine _ | readJob _ | count _ _ | announce _ =>
      obtain ⟨run, hrun, rfl⟩ := Option.map_eq_some_iff.mp hstep
      exact hsame (job_of_step hrun (by simp))

/-- **A job nothing is left of is over**: once every item has had its transfer, every transfer has
ended, and every report was made. -/
theorem Sound.not_isLive (h : j.Sound planId) (hleft : j.starting.left = [])
    (htransfers : ∀ row ∈ j.transfers, isOver row.state) (hcalls : j.run.calls = []) :
    ¬ j.isLive := by
  have hfinished : ∀ line ∈ j.run.lines, line.isFinished := by
    intro line hline
    rcases h.lines line hline with hfinished | hin | ⟨row, hrow, -, hopen | ⟨call, hcall, -⟩⟩
    · exact hfinished
    · rw [hleft] at hin
      cases hin
    · exact absurd (htransfers row hrow) hopen
    · rw [hcalls] at hcall
      cases hcall
  have hdone : j.run.job.state = .DONE := by
    rcases h.ends with hover | ⟨line, hline, hopen⟩ | ⟨call, hcall, -⟩ | ⟨planning, hsaved, hne⟩
    · exact hover
    · exact absurd (hfinished line hline) hopen
    · rw [hcalls] at hcall
      cases hcall
    · rw [hsaved] at hleft
      exact absurd hleft hne
  unfold isLive
  rw [hdone]
  decide

end PlanJob

/-! ### All jobs of a plan -/

namespace PlanRuns

variable {s s' : PlanRuns}

/-- No call looks for a live job while another is between looking and saving its own. -/
def Orderly (s : PlanRuns) : Action → Prop
  | .call => s.findLiveForPlan = none → s.testing = 0
  | .job index action => ∀ job ∈ s.jobs[index]?, job.Orderly action
  | .refuse | .saveJob _ _ _ => True

instance (s : PlanRuns) : (action : Action) → Decidable (s.Orderly action)
  | .call => inferInstanceAs (Decidable (s.findLiveForPlan = none → s.testing = 0))
  | .job index action => inferInstanceAs (Decidable (∀ job ∈ s.jobs[index]?, job.Orderly action))
  | .refuse | .saveJob _ _ _ => .isTrue trivial

/-- At most one job is live, those included that a call is about to save. -/
structure Sound (s : PlanRuns) : Prop where
  jobs : ∀ job ∈ s.jobs, job.Sound s.planId
  live : s.jobs.countP (·.isLive) + s.testing ≤ 1

theorem unused_sound (planId : String) (planName : Option String) :
    (unused planId planName).Sound :=
  ⟨fun _ hjob => absurd hjob List.not_mem_nil, Nat.zero_le 1⟩

theorem findLiveForPlan_eq_none (hjobs : ∀ job ∈ s.jobs, job.Sound s.planId) :
    s.findLiveForPlan = none ↔ s.jobs.countP (·.isLive) = 0 := by
  unfold findLiveForPlan
  rw [List.findSome?_eq_none_iff, List.countP_eq_zero]
  refine forall₂_congr fun job hjob => ?_
  have hplan := (hjobs job hjob).job.2
  simp [JobRun.findLiveForPlan, PlanJob.isLive, hplan]

theorem sound_saved (s : PlanRuns) (planning : SyncPlanning) (id : String) (now : ℤ) :
    PlanJob.Sound s.planId
      { run := ⟨s.jobOf planning id now, [], s.planName, [], []⟩
        transfers := []
        starting := .saved planning
        row := s.jobOf planning id now } := by
  constructor
  case job =>
    refine ⟨?_, rfl⟩
    unfold SyncJob.IsGoing jobOf
    split_ifs
    · exact .inr rfl
    · exact .inl rfl
  case calls => exact List.forall_mem_nil _
  case ends =>
    by_cases hitems : planning.items = []
    · exact .inl (if_pos hitems)
    · exact .inr (.inr (.inr ⟨planning, rfl, hitems⟩))
  case saved => exact fun _ _ => ⟨rfl, rfl, rfl⟩
  case lines => exact List.forall_mem_nil _
  case named => exact List.forall_mem_nil _
  case items =>
    have hitems := planning.nodup
    rw [List.map_append] at hitems
    exact (List.nodup_append.mp hitems).1
  case ids => exact List.nodup_nil

theorem countP_set_le {job job' : PlanJob} {index : ℕ} (hi : s.jobs[index]? = some job)
    (hlive : job'.isLive → job.isLive) :
    (s.jobs.set index job').countP (·.isLive) ≤ s.jobs.countP (·.isLive) := by
  obtain ⟨hlt, hget⟩ := List.getElem?_eq_some_iff.mp hi
  rw [List.countP_set hlt, hget]
  have hpos : job.isLive → 0 < s.jobs.countP (·.isLive) :=
    fun h => List.countP_pos_iff.mpr ⟨job, List.mem_of_getElem? hi, h⟩
  split_ifs with h h'
  · have hone := hpos h
    omega
  · omega
  · next h' => exact absurd (hlive h') h
  · omega

/-- **One step** keeps at most one job live. -/
theorem Sound.step {action : Action} (h : s.Sound) (hguard : s.Orderly action)
    (hstep : s.step action = some s') : s'.Sound := by
  cases action with
  | call =>
    simp only [PlanRuns.step] at hstep
    cases hfound : s.findLiveForPlan with
    | some job =>
      rw [hfound] at hstep
      exact Option.some.inj hstep ▸ h
    | none =>
      rw [hfound] at hstep
      cases hstep
      have hzero := (findLiveForPlan_eq_none h.jobs).mp hfound
      have hnobody : s.testing = 0 := hguard hfound
      refine ⟨h.jobs, ?_⟩
      dsimp only
      omega
  | refuse =>
    obtain ⟨-, hstep⟩ := Option.ite_none_left_eq_some.mp hstep
    cases hstep
    have hlive := h.live
    refine ⟨h.jobs, ?_⟩
    dsimp only
    omega
  | saveJob planning id now =>
    obtain ⟨htesting, hstep⟩ := Option.ite_none_left_eq_some.mp hstep
    cases hstep
    have hlive := h.live
    constructor
    · intro job hjob
      obtain hold | hnew := List.mem_append.mp hjob
      · exact h.jobs job hold
      · rw [List.mem_singleton.mp hnew]
        exact s.sound_saved planning id now
    · dsimp only
      rw [List.countP_append]
      have hone := List.countP_le_length (p := (·.isLive)) (l := [PlanJob.mk
        ⟨s.jobOf planning id now, [], s.planName, [], []⟩ [] (.saved planning)
        (s.jobOf planning id now)])
      rw [List.length_singleton] at hone
      omega
  | job index action =>
    simp only [PlanRuns.step] at hstep
    cases hi : s.jobs[index]? with
    | none => simp [hi] at hstep
    | some job =>
      simp only [hi] at hstep
      obtain ⟨job', hjob', rfl⟩ := Option.map_eq_some_iff.mp hstep
      have horderly : job.Orderly action := hguard job hi
      constructor
      · intro other hother
        obtain hold | rfl := List.mem_or_eq_of_mem_set hother
        · exact h.jobs other hold
        · exact (h.jobs job (List.mem_of_getElem? hi)).step horderly hjob'
      · have hle := countP_set_le hi (PlanJob.isLive_of_step horderly hjob')
        have hlive := h.live
        dsimp only
        omega

def OneLive (s : PlanRuns) : Prop := s.jobs.countP (·.isLive) ≤ 1

/-- A run that failed leaves no live job, once every transfer it made has ended and that was
reported. -/
def NoneLeft (s : PlanRuns) : Prop :=
  ∀ job ∈ s.jobs, job.starting = .rejected → (∀ row ∈ job.transfers, isOver row.state) →
    job.run.calls = [] → ¬ job.isLive

instance (s : PlanRuns) : Decidable s.OneLive := inferInstanceAs (Decidable (_ ≤ 1))

instance (s : PlanRuns) : Decidable s.NoneLeft :=
  inferInstanceAs (Decidable (∀ job ∈ s.jobs, job.starting = .rejected →
    (∀ row ∈ job.transfers, isOver row.state) → job.run.calls = [] → ¬ job.isLive))

/-- **One live run for each plan, and none left behind**: in every orderly run of calls, transfers
and reports, at most one job of the plan is live, and the job of a run that failed is over once its
transfers are. -/
theorem oneLive_of_run {planId : String} {planName : Option String} {actions : List Action}
    (hrun : Run step Orderly (unused planId planName) actions s) : s.OneLive ∧ s.NoneLeft := by
  have hsound : s.Sound :=
    hrun.invariant (fun _ _ _ h hguard hstep => h.step hguard hstep) (unused_sound _ _)
  constructor
  · have hlive := hsound.live
    unfold OneLive
    omega
  · intro job hjob hrejected htransfers hcalls
    exact (hsound.jobs job hjob).not_isLive (by rw [hrejected]; rfl) htransfers hcalls

end PlanRuns

/-! ### Two episodes -/

def missingEpisode (itemId : String) : PlannedItem :=
  { itemId := itemId, localItemId := none, title := itemId, kind := .EPISODE
    sourceServiceId := "friend", sourceServiceName := "Friend", targetLibraryId := "shows"
    targetLibraryName := "Shows", targetPath := ["mnt", "Shows", "From", "Season 04", itemId]
    placedBy := .DEFAULT_LIBRARY, lot := "from", bytes := 700, contentId := none
    state := .MISSING }

def twoMissing : SyncPlanning where
  items := [missingEpisode "a", missingEpisode "b"]
  dropped := []
  nodup := by decide

/-- The transfer of an episode, once it arrived. -/
def landed (id itemId : String) : Transfer :=
  { id := id, itemId := itemId, jobId := some "job", title := itemId, state := .DONE
    bytesDone := 700, errorKind := none, error := none, startedAt := some 0, finishedAt := some 1 }

/-- The last transfer is saved and cannot be enqueued; both arrive, and the plan is run again. -/
def failedLate : List PlanRuns.Action :=
  .call :: .saveJob twoMissing "job" 0 ::
    ([.recordLines, .saveTransfer "t-a", .enqueue, .saveTransfer "t-b", .reject,
      .engine (landed "t-a" "a"), .report (.findLine 0 (landed "t-a" "a")), .report (.saveLine 0),
      .report (.readJob 0), .report (.count 0 2), .report (.saveJob 0), .report (.announce 0),
      .engine (landed "t-b" "b"), .report (.findLine 0 (landed "t-b" "b")), .report (.saveLine 0),
      .report (.readJob 0), .report (.count 0 3), .report (.saveJob 0),
      .report (.announce 0)].map (PlanRuns.Action.job 0) ++ [.call, .saveJob twoMissing "next" 4])

/-- A run that fails late leaves no live job, and the next one is the only one. -/
theorem oneLive_of_run_failedLate :
    ∃ s, exec PlanRuns.step PlanRuns.Orderly (.unused "plan" none) failedLate = some s ∧
      s.jobs.map (·.run.job.state) = [.DONE, .RUNNING] ∧ s.OneLive ∧ s.NoneLeft := by
  have hends : (exec PlanRuns.step PlanRuns.Orderly (.unused "plan" none) failedLate).any
      (fun s => s.jobs.map (·.run.job.state) = [.DONE, .RUNNING]) = true := by decide +kernel
  obtain ⟨s, hexec, hstates⟩ := (Option.any_eq_true _ _).mp hends
  exact ⟨s, hexec, of_decide_eq_true hstates, PlanRuns.oneLive_of_run (.ofExec hexec)⟩

/-- Two calls that look before either saves both start; and a run that fails before its transfers
are made is live for ever. -/
theorem not_oneLive_of_run :
    (∃ actions s, Run PlanRuns.step Free (.unused "plan" none) actions s ∧ ¬ s.OneLive) ∧
      ∃ actions s, Run PlanRuns.step Free (.unused "plan" none) actions s ∧ ¬ s.NoneLeft := by
  constructor
  · have hboth : (exec PlanRuns.step Free (.unused "plan" none)
        [.call, .call, .saveJob twoMissing "job" 0, .saveJob twoMissing "other" 0]).any
          (fun s => ¬ s.OneLive) = true := by decide +kernel
    obtain ⟨s, hexec, hlive⟩ := (Option.any_eq_true _ _).mp hboth
    exact ⟨_, s, .ofExec hexec, of_decide_eq_true hlive⟩
  · have hleft : (exec PlanRuns.step Free (.unused "plan" none)
        [.call, .saveJob twoMissing "job" 0, .job 0 .recordLines, .job 0 .reject]).any
          (fun s => ¬ s.NoneLeft) = true := by decide +kernel
    obtain ⟨s, hexec, hlive⟩ := (Option.any_eq_true _ _).mp hleft
    exact ⟨_, s, .ofExec hexec, of_decide_eq_true hlive⟩

end MediaCenterSync.SyncManager
