import MediaCenterSync.TransferManager.Redirect

/-!
# When a change of destination is kept

A change that is answered should be in force when the run has ended: the row names the requested
path and library, and the file is there (`Kept`).  Both parties save whole copies, so the last one
to save decides, and the file goes where the entity says.

`kept_iff` gives the interleavings in which the change is kept: exactly those whose steps meet
`Timely`.  The change is saved before the run has read its entity, or after the run ended and the
file was moved; and no save the run did not wait for is made of an entity that names another
destination than the row.  Three kinds of states tell it: nothing was saved yet and every copy is
old (`Before`); the change was saved first and every copy is new (`AllNew`); or it was saved last
and the file follows it (`Late`).  A step that is not timely leads from there to a state that is
`Lost`, and from a lost one there is no way back.
-/

namespace MediaCenterSync.TransferManager

open TransferEngine LabelledRun

/-! ### Steps -/

inductive Redirect.Step (gateway : Gateway) (library : Library) (folder : Option Dir) :
    Redirect → RedirectAct → Redirect → Prop
  | loadEnded {s : Redirect} : s.run = .start →
      (s.row.state = .CANCELLED ∨ s.row.state = .DONE) →
      Step gateway library folder s .load { s with run := .ended }
  | load {s : Redirect} : s.run = .start → s.row.state ≠ .DONE →
      Step gateway library folder s .load { s with run := .loaded, held := some s.row }
  | setState {s : Redirect} {state : TransferState} : s.run.may state = true →
      Step gateway library folder s (.setState state) { s with run := .setting state s.row }
  | saveState {s : Redirect} {state : TransferState} {copy : Transfer} :
      s.run = .setting state copy → Step gateway library folder s .saveState
        { s with run := .after state, row := { copy with state := state } }
  | persistPlan {s : Redirect} {entity : Transfer} : s.run = .connecting → s.held = some entity →
      Step gateway library folder s .persistPlan { s with run := .planned, row := entity }
  | account {s : Redirect} : s.run.fetches = true →
      Step gateway library folder s .account { s with pending := s.pending + 1 }
  | flush {s : Redirect} {entity : Transfer} {pending : ℕ} : s.pending = pending + 1 →
      s.held = some entity →
      Step gateway library folder s .flush { s with pending := pending, row := entity }
  | place {s : Redirect} {entity : Transfer} : s.run = .placing → s.held = some entity →
      Step gateway library folder s .place
        { s with run := .placed, files := insert entity.targetPath s.files }
  | finish {s : Redirect} {entity : Transfer} : s.run = .placed → s.held = some entity →
      Step gateway library folder s .finish
        { s with
          run := .done, held := some { entity with state := .DONE },
          row := { entity with state := .DONE } }
  | fail {s : Redirect} {entity : Transfer} : s.run.mayFail = true → s.held = some entity →
      Step gateway library folder s .fail
        { s with
          run := .ended, held := some { entity with state := .FAILED },
          row := { entity with state := .FAILED } }
  | changeRead {s : Redirect} : s.change = .idle →
      Step gateway library folder s .changeRead { s with change := .asked s.row }
  | changeInForce {s : Redirect} {foreign : Bool} {transfer : Transfer} :
      s.change = .asked transfer →
      destinationPath gateway library folder transfer = transfer.targetPath →
      transfer.targetLibraryId = some library.id →
      Step gateway library folder s (.changeProbe foreign) { s with change := .returned false }
  | changeRefused {s : Redirect} {foreign : Bool} {transfer : Transfer} :
      s.change = .asked transfer →
      Step gateway library folder s (.changeProbe foreign) { s with change := .refused }
  | changeChecked {s : Redirect} {foreign : Bool} {transfer : Transfer} :
      s.change = .asked transfer →
      ¬ (destinationPath gateway library folder transfer = transfer.targetPath ∧
        transfer.targetLibraryId = some library.id) →
      Step gateway library folder s (.changeProbe foreign) { s with change := .checked transfer }
  | changePublish {s : Redirect} {transfer : Transfer} : s.change = .checked transfer →
      transfer.state = .DONE → Step gateway library folder s .changePublish
        { s with change := .published transfer, row := { transfer with state := .PLACING } }
  | changeMoveFails {s : Redirect} {succeeds : Bool} {transfer : Transfer} :
      s.change = .published transfer → Step gateway library folder s (.changeMove succeeds)
        { s with change := .refused, row := transfer }
  | changeMove {s : Redirect} {succeeds : Bool} {transfer : Transfer} :
      s.change = .published transfer → Step gateway library folder s (.changeMove succeeds)
        { s with
          change := .moved transfer,
          files := insert (destinationPath gateway library folder transfer)
            (s.files.erase transfer.targetPath) }
  | changeSave {s : Redirect} {transfer : Transfer} :
      (s.change = .checked transfer ∧ transfer.state ≠ .DONE ∨ s.change = .moved transfer) →
      Step gateway library folder s .changeSave
        { s with
          change := .returned true,
          row := retarget library (destinationPath gateway library folder transfer) transfer }

variable {gateway : Gateway} {library : Library} {folder : Option Dir}

/-- **Inversion**: every step is one of these. -/
theorem Redirect.Step.of_step {s s' : Redirect} {a : RedirectAct}
    (h : s.step gateway library folder a = some s') : Step gateway library folder s a s' := by
  cases a with
  | load =>
    simp only [step] at h
    split at h
    · rename_i hrun
      split at h
      · rename_i hstate
        cases h
        exact .loadEnded hrun hstate
      · rename_i hstate
        cases h
        exact .load hrun fun hdone => hstate (.inr hdone)
    · cases h
  | setState state =>
    simp only [step] at h
    split at h
    · rename_i hmay
      cases h
      exact .setState hmay
    · cases h
  | saveState =>
    simp only [step] at h
    split at h
    · rename_i state copy hrun
      cases h
      exact .saveState hrun
    · cases h
  | persistPlan =>
    simp only [step] at h
    split at h
    · rename_i entity hrun hheld
      cases h
      exact .persistPlan hrun hheld
    · cases h
  | account =>
    simp only [step] at h
    split at h
    · rename_i hfetches
      cases h
      exact .account hfetches
    · cases h
  | flush =>
    simp only [step] at h
    split at h
    · rename_i pending entity hpending hheld
      cases h
      exact .flush hpending hheld
    · cases h
  | place =>
    simp only [step] at h
    split at h
    · rename_i entity hrun hheld
      cases h
      exact .place hrun hheld
    · cases h
  | finish =>
    simp only [step] at h
    split at h
    · rename_i entity hrun hheld
      cases h
      exact .finish hrun hheld
    · cases h
  | fail =>
    simp only [step] at h
    split at h
    · rename_i entity hmay hheld
      cases h
      exact .fail hmay hheld
    · cases h
  | changeRead =>
    simp only [step] at h
    split at h
    · rename_i hchange
      cases h
      exact .changeRead hchange
    · cases h
  | changeProbe foreign =>
    simp only [step] at h
    split at h
    · rename_i transfer hchange
      split at h
      · rename_i hforce
        cases h
        exact .changeInForce hchange hforce.1 hforce.2
      · rename_i hforce
        split at h
        · cases h
          exact .changeRefused hchange
        · split at h
          · cases h
            exact .changeRefused hchange
          · cases h
            exact .changeChecked hchange hforce
    · cases h
  | changePublish =>
    simp only [step] at h
    split at h
    · rename_i transfer hchange
      split at h
      · rename_i hdone
        cases h
        exact .changePublish hchange hdone
      · cases h
    · cases h
  | changeMove succeeds =>
    simp only [step] at h
    split at h
    · rename_i transfer hchange
      split at h
      · cases h
        exact .changeMove hchange
      · cases h
        exact .changeMoveFails hchange
    · cases h
  | changeSave =>
    simp only [step] at h
    split at h
    · rename_i transfer hchange
      split at h
      · rename_i hdone
        cases h
        exact .changeSave (.inl ⟨hchange, hdone⟩)
      · cases h
    · rename_i transfer hchange
      cases h
      exact .changeSave (.inr hchange)
    · cases h

/-! ### Copies of the row -/

def RunPhase.copy : RunPhase → Option Transfer
  | .setting _ copy => some copy
  | _ => none

def ChangePhase.copy : ChangePhase → Option Transfer
  | .asked transfer | .checked transfer | .published transfer | .moved transfer => some transfer
  | _ => none

/-- The row and every copy of it have a property. -/
structure Everywhere (P : Transfer → Prop) (s : Redirect) : Prop where
  row : P s.row
  held : ∀ entity ∈ s.held, P entity
  run : ∀ copy ∈ s.run.copy, P copy
  change : ∀ copy ∈ s.change.copy, P copy

theorem copy_after (state : TransferState) : (RunPhase.after state).copy = none := by
  cases state <;> rfl

theorem Everywhere.step {P : Transfer → Prop} {s s' : Redirect} {a : RedirectAct}
    (hP : ∀ t state, P t → P { t with state := state }) (h : Everywhere P s)
    (hs : Redirect.Step gateway library folder s a s') (ha : a ≠ .changeSave) :
    Everywhere P s' := by
  obtain ⟨hrow, hheld, hrun, hchange⟩ := h
  cases hs with
  | loadEnded => exact ⟨hrow, hheld, fun _ h => (nomatch h), hchange⟩
  | load =>
    refine ⟨hrow, fun entity he => ?_, fun _ h => (nomatch h), hchange⟩
    obtain rfl : s.row = entity := Option.some.inj he
    exact hrow
  | setState =>
    refine ⟨hrow, hheld, fun copy hc => ?_, hchange⟩
    obtain rfl : s.row = copy := Option.some.inj hc
    exact hrow
  | saveState hphase =>
    refine ⟨hP _ _ (hrun _ (by rw [hphase]; rfl)), hheld, fun copy hc => ?_, hchange⟩
    dsimp only at hc
    rw [copy_after] at hc
    cases hc
  | persistPlan _ hentity => exact ⟨hheld _ hentity, hheld, fun _ h => (nomatch h), hchange⟩
  | account => exact ⟨hrow, hheld, hrun, hchange⟩
  | flush _ hentity => exact ⟨hheld _ hentity, hheld, hrun, hchange⟩
  | place => exact ⟨hrow, hheld, fun _ h => (nomatch h), hchange⟩
  -- These write a copy that somebody held.
  | @finish entity _ hentity | @fail entity _ hentity =>
    have hnew := fun state => hP entity state (hheld _ hentity)
    refine ⟨hnew _, fun entity' he => ?_, fun _ h => (nomatch h), hchange⟩
    cases he
    exact hnew _
  | changeRead =>
    refine ⟨hrow, hheld, hrun, fun copy hc => ?_⟩
    obtain rfl : s.row = copy := Option.some.inj hc
    exact hrow
  | changeInForce => exact ⟨hrow, hheld, hrun, fun _ h => nomatch h⟩
  | changeRefused => exact ⟨hrow, hheld, hrun, fun _ h => nomatch h⟩
  | changeChecked hphase =>
    exact ⟨hrow, hheld, hrun, fun copy hc => hchange copy (by rw [hphase]; exact hc)⟩
  | changePublish hphase =>
    refine ⟨hP _ _ (hchange _ (by rw [hphase]; rfl)), hheld, hrun, fun copy hc => ?_⟩
    exact hchange copy (by rw [hphase]; exact hc)
  | changeMoveFails hphase =>
    exact ⟨hchange _ (by rw [hphase]; rfl), hheld, hrun, fun _ h => nomatch h⟩
  | changeMove hphase =>
    exact ⟨hrow, hheld, hrun, fun copy hc => hchange copy (by rw [hphase]; exact hc)⟩
  -- Only the save of the change writes another path.
  | changeSave => exact absurd rfl ha

/-! ### Specification -/

section

variable (gateway : Gateway) (library : Library) (folder : Option Dir) (row₀ : Transfer)

abbrev requestedPath : FilePath := destinationPath gateway library folder row₀

/-- The destination from before the change. -/
def Old (t : Transfer) : Prop :=
  t.targetPath = row₀.targetPath ∧ t.targetLibraryId = row₀.targetLibraryId

/-- The destination that was asked for. -/
def New (t : Transfer) : Prop :=
  t.targetPath = requestedPath gateway library folder row₀ ∧ t.targetLibraryId = some library.id

/-- The file is at the requested path, and not at the previous one. -/
def FileFollows (s : Redirect) : Prop :=
  requestedPath gateway library folder row₀ ∈ s.files ∧
    (row₀.targetPath ≠ requestedPath gateway library folder row₀ → row₀.targetPath ∉ s.files)

/-- **The change is kept.** -/
def Kept (s : Redirect) : Prop :=
  New gateway library folder row₀ s.row ∧ FileFollows gateway library folder row₀ s

/-- The run ended with the transfer done, and the change was answered. -/
def Answered (s : Redirect) : Prop := s.run = .done ∧ ∃ saved, s.change = .returned saved

/-- The steps in time: the change is saved before the run reads its entity, or after the run and
behind the file; and a save nobody waited for is of an entity that names the row's destination. -/
def Timely (s : Redirect) : RedirectAct → Prop
  | .changeSave => s.run = .start ∨ s.run = .done ∧ ∀ transfer ∈ s.change.copy,
      destinationPath gateway library folder transfer ∈ s.files ∧
      (transfer.targetPath ≠ destinationPath gateway library folder transfer →
        transfer.targetPath ∉ s.files)
  | .flush => ∀ entity ∈ s.held, entity.targetPath = s.row.targetPath ∧
      entity.targetLibraryId = s.row.targetLibraryId
  | _ => True

instance (s : Redirect) (a : RedirectAct) : Decidable (Timely gateway library folder s a) := by
  cases a <;> unfold Timely <;> infer_instance

/-! ### The three kinds of states -/

/-- The change asks for another destination than the one in force. -/
def Differs : Prop :=
  ¬ (requestedPath gateway library folder row₀ = row₀.targetPath ∧
    row₀.targetLibraryId = some library.id)

/-- A run that has not started. -/
def Unstarted (s : Redirect) : Prop := s.run = .start → s.held = none ∧ s.pending = 0

structure Before (s : Redirect) : Prop where
  unsaved : s.change ≠ .returned true
  copies : Everywhere (Old row₀) s
  unstarted : Unstarted s
  /-- A file in its old place, before the run starts, belongs to a row that is done. -/
  earlier : s.run = .start → row₀.targetPath ∈ s.files →
    (s.change = .idle → s.row.state = .DONE) ∧
      (∀ t, s.change = .asked t ∨ s.change = .checked t → t.state = .DONE) ∧
      (∀ t, s.change = .moved t → row₀.targetPath = requestedPath gateway library folder row₀)
  placed : s.run = .placed ∨ s.run = .done → (∀ t, s.change ≠ .moved t) → row₀.targetPath ∈ s.files
  differs : (∃ t, s.change = .checked t ∨ s.change = .published t ∨ s.change = .moved t) →
    Differs gateway library folder row₀
  inForce : s.change = .returned false → ¬ Differs gateway library folder row₀

/-- The change was saved before the run read its entity. -/
structure AllNew (s : Redirect) : Prop where
  saved : s.change = .returned true
  copies : Everywhere (New gateway library folder row₀) s
  unstarted : Unstarted s
  away : row₀.targetPath ≠ requestedPath gateway library folder row₀ → row₀.targetPath ∉ s.files
  placed : s.run = .placed ∨ s.run = .done → requestedPath gateway library folder row₀ ∈ s.files

structure Late (s : Redirect) : Prop where
  saved : s.change = .returned true
  ended : s.run = .done
  differs : Differs gateway library folder row₀
  held : ∀ entity ∈ s.held, Old row₀ entity
  kept : Kept gateway library folder row₀ s

/-- The change was saved, and will not be in force when the run has ended. -/
structure Lost (s : Redirect) : Prop where
  saved : s.change = .returned true
  differs : Differs gateway library folder row₀
  overwritten : s.run = .ended ∨ s.run ≠ .start ∧ (∀ entity ∈ s.held, Old row₀ entity) ∧
    (s.run = .done → Old row₀ s.row ∨ ¬ FileFollows gateway library folder row₀ s)

end

variable {row₀ : Transfer}

theorem destinationPath_of_old {t : Transfer} (h : Old row₀ t) :
    destinationPath gateway library folder t = requestedPath gateway library folder row₀ := by
  obtain ⟨hpath, hlibrary⟩ := h
  simp only [requestedPath, destinationPath, rootsOf, hpath, hlibrary]

theorem not_old_and_new {t : Transfer} (hd : Differs gateway library folder row₀)
    (hold : Old row₀ t) : ¬ New gateway library folder row₀ t := by
  intro hnew
  exact hd ⟨by rw [← hnew.1, hold.1], by rw [← hold.2, hnew.2]⟩

theorem after_ne (state : TransferState) : RunPhase.after state ≠ .start ∧
    RunPhase.after state ≠ .placed ∧ RunPhase.after state ≠ .done := by
  cases state <;> simp [RunPhase.after]

/-! ### Steps in time -/

theorem Before.step {s s' : Redirect} {a : RedirectAct} (h : Before gateway library folder row₀ s)
    (hs : Redirect.Step gateway library folder s a s') (ha : a ≠ .changeSave) :
    Before gateway library folder row₀ s' := by
  have hcopies := h.copies.step (fun _ _ ht => ht) hs ha
  obtain ⟨hunsaved, hold, hunstarted, hearlier, hplaced, hdiffers, hforce⟩ := h
  cases hs with
  | loadEnded | load =>
    exact ⟨hunsaved, hcopies, by rintro ⟨⟩, by rintro ⟨⟩, by simp, hdiffers, hforce⟩
  | setState => exact ⟨hunsaved, hcopies, by rintro ⟨⟩, by rintro ⟨⟩, by simp, hdiffers, hforce⟩
  | @saveState state copy =>
    obtain ⟨hstart, hplace, hdone⟩ := after_ne state
    exact ⟨hunsaved, hcopies, fun h => absurd h hstart, fun h => absurd h hstart,
      fun h => h.elim (absurd · hplace) (absurd · hdone), hdiffers, hforce⟩
  | persistPlan => exact ⟨hunsaved, hcopies, by rintro ⟨⟩, by rintro ⟨⟩, by simp, hdiffers, hforce⟩
  | account hfetches =>
    -- A run that fetches has started.
    refine ⟨hunsaved, hcopies, fun hrun => ?_, hearlier, hplaced, hdiffers, hforce⟩
    rw [show s.run = .start from hrun] at hfetches
    cases hfetches
  | flush hpending =>
    have hrun : s.run ≠ .start := fun hrun => by simp [(hunstarted hrun).2] at hpending
    exact ⟨hunsaved, hcopies, fun h => absurd h hrun, fun h => absurd h hrun, hplaced, hdiffers,
      hforce⟩
  | place _ hentity =>
    refine ⟨hunsaved, hcopies, by rintro ⟨⟩, by rintro ⟨⟩, fun _ _ => ?_, hdiffers, hforce⟩
    rw [← (hold.held _ hentity).1]
    exact Finset.mem_insert_self ..
  | finish hrun =>
    exact ⟨hunsaved, hcopies, by rintro ⟨⟩, by rintro ⟨⟩, fun _ => hplaced (.inl hrun), hdiffers, hforce⟩
  | fail => exact ⟨hunsaved, hcopies, by rintro ⟨⟩, by rintro ⟨⟩, by simp, hdiffers, hforce⟩
  | changeRead hidle =>
    refine ⟨by rintro ⟨⟩, hcopies, hunstarted, fun hrun hfile => ⟨by rintro ⟨⟩, ?_, by rintro _ ⟨⟩⟩,
      fun hrun _ => hplaced hrun (by simp [hidle]), by simp, by rintro ⟨⟩⟩
    rintro t (ht | ht)
    · cases ht
      exact (hearlier hrun hfile).1 hidle
    · cases ht
  | changeInForce hphase hpath hlibrary =>
    have ht := hold.change _ (by rw [hphase]; rfl)
    refine ⟨by rintro ⟨⟩, hcopies, hunstarted, fun _ _ => ⟨by rintro ⟨⟩, by simp, by rintro _ ⟨⟩⟩,
      fun hrun _ => hplaced hrun (by simp [hphase]), by simp, fun _ hd => hd ?_⟩
    rw [← destinationPath_of_old ht, hpath, ← ht.1, ← ht.2]
    exact ⟨rfl, hlibrary⟩
  | changeRefused hphase =>
    exact ⟨by rintro ⟨⟩, hcopies, hunstarted, fun _ _ => ⟨by rintro ⟨⟩, by simp, by rintro _ ⟨⟩⟩,
      fun hrun _ => hplaced hrun (by simp [hphase]), by simp, by rintro ⟨⟩⟩
  | @changeChecked foreign transfer hphase hother =>
    have ht := hold.change _ (by rw [hphase]; rfl)
    refine ⟨by rintro ⟨⟩, hcopies, hunstarted, fun hrun hfile => ⟨by rintro ⟨⟩, ?_, by rintro _ ⟨⟩⟩,
      fun hrun _ => hplaced hrun (by simp [hphase]), fun _ => ?_, by rintro ⟨⟩⟩
    · rintro t (hc | hc)
      · cases hc
      · cases hc
        exact (hearlier hrun hfile).2.1 transfer (.inl hphase)
    · rwa [destinationPath_of_old ht, ht.1, ht.2] at hother
  | @changePublish transfer hphase =>
    exact ⟨by rintro ⟨⟩, hcopies, hunstarted, fun _ _ => ⟨by rintro ⟨⟩, by simp, by rintro _ ⟨⟩⟩,
      fun hrun _ => hplaced hrun (by simp [hphase]), fun _ => hdiffers ⟨_, .inl hphase⟩, by rintro ⟨⟩⟩
  | changeMoveFails hphase =>
    exact ⟨by rintro ⟨⟩, hcopies, hunstarted, fun _ _ => ⟨by rintro ⟨⟩, by simp, by rintro _ ⟨⟩⟩,
      fun hrun _ => hplaced hrun (by simp [hphase]), by simp, by rintro ⟨⟩⟩
  | @changeMove succeeds transfer hphase =>
    -- The file leaves its old place, unless that is the requested one.
    have ht := hold.change _ (by rw [hphase]; rfl)
    refine ⟨by rintro ⟨⟩, hcopies, hunstarted, fun _ hfile => ⟨by rintro ⟨⟩, by simp, fun _ _ => ?_⟩,
      fun _ hmoved => absurd rfl (hmoved _), fun _ => hdiffers ⟨_, .inr (.inl hphase)⟩, by rintro ⟨⟩⟩
    rw [ht.1, Finset.mem_insert, destinationPath_of_old ht] at hfile
    exact hfile.resolve_right (by simp)
  | changeSave => exact absurd rfl ha

theorem Before.save_first {s s' : Redirect} (h : Before gateway library folder row₀ s)
    (hs : Redirect.Step gateway library folder s .changeSave s') (hrun : s.run = .start) :
    AllNew gateway library folder row₀ s' := by
  cases hs with
  | @changeSave transfer hphase =>
  have hcopy : transfer ∈ s.change.copy := by
    obtain ⟨hphase, _⟩ | hphase := hphase <;> rw [hphase] <;> rfl
  have ht := h.copies.change _ hcopy
  have hheld := (h.unstarted hrun).1
  refine ⟨rfl, ⟨⟨destinationPath_of_old ht, rfl⟩, ?_, ?_, by rintro _ ⟨⟩⟩, h.unstarted,
    fun hne hfile => ?_, ?_⟩
  · simp [hheld]
  · simp [hrun, RunPhase.copy]
  · -- A file in the old place is that of a done row, and then it was moved away.
    have hearlier := h.earlier hrun hfile
    obtain ⟨hchecked, hstate⟩ | hmoved := hphase
    · exact hstate (hearlier.2.1 _ (.inr hchecked))
    · exact hne (hearlier.2.2 _ hmoved)
  · simp [hrun]

theorem Before.save_last {s s' : Redirect} (h : Before gateway library folder row₀ s)
    (hs : Redirect.Step gateway library folder s .changeSave s') (hrun : s.run = .done)
    (hfile : ∀ transfer ∈ s.change.copy,
      destinationPath gateway library folder transfer ∈ s.files ∧
      (transfer.targetPath ≠ destinationPath gateway library folder transfer →
        transfer.targetPath ∉ s.files)) :
    Late gateway library folder row₀ s' := by
  cases hs with
  | @changeSave transfer hphase =>
  have hcopy : transfer ∈ s.change.copy := by
    obtain ⟨hphase, _⟩ | hphase := hphase <;> rw [hphase] <;> rfl
  have ht := h.copies.change _ hcopy
  have hdiffers : Differs gateway library folder row₀ :=
    h.differs ⟨transfer, hphase.imp And.left .inr⟩
  have hfollows := hfile transfer hcopy
  rw [destinationPath_of_old ht, ht.1] at hfollows
  exact ⟨rfl, hrun, hdiffers, h.copies.held, ⟨destinationPath_of_old ht, rfl⟩, hfollows⟩

theorem Before.save_late {s s' : Redirect} (h : Before gateway library folder row₀ s)
    (hs : Redirect.Step gateway library folder s .changeSave s')
    (hlate : ¬ Timely gateway library folder s .changeSave) :
    Lost gateway library folder row₀ s' := by
  cases hs with
  | @changeSave transfer hphase =>
  have hcopy : transfer ∈ s.change.copy := by
    obtain ⟨hphase, _⟩ | hphase := hphase <;> rw [hphase] <;> rfl
  have ht := h.copies.change _ hcopy
  have hdiffers : Differs gateway library folder row₀ :=
    h.differs ⟨transfer, hphase.imp And.left .inr⟩
  refine ⟨rfl, hdiffers, .inr ⟨fun hrun => hlate (.inl hrun), h.copies.held, fun hrun => .inr ?_⟩⟩
  intro hfollows
  refine hlate (.inr ⟨hrun, fun t hc => ?_⟩)
  obtain rfl : t = transfer := Option.mem_unique hc hcopy
  rw [destinationPath_of_old ht, ht.1]
  exact hfollows

theorem Redirect.Step.ne_changeSave {s s' : Redirect} {a : RedirectAct}
    (hs : Redirect.Step gateway library folder s a s') (h : s.change = .returned true) :
    a ≠ .changeSave := by
  rintro rfl
  cases hs with
  | changeSave hphase => simp [h] at hphase

theorem AllNew.step {s s' : Redirect} {a : RedirectAct} (h : AllNew gateway library folder row₀ s)
    (hs : Redirect.Step gateway library folder s a s') :
    AllNew gateway library folder row₀ s' := by
  have hcopies := h.copies.step (fun _ _ ht => ht) hs (hs.ne_changeSave h.saved)
  obtain ⟨hsaved, hnew, hunstarted, haway, hplaced⟩ := h
  cases hs with
  | loadEnded | load => exact ⟨hsaved, hcopies, by rintro ⟨⟩, haway, by simp⟩
  | setState => exact ⟨hsaved, hcopies, by rintro ⟨⟩, haway, by simp⟩
  | @saveState state copy =>
    obtain ⟨hstart, hplace, hdone⟩ := after_ne state
    exact ⟨hsaved, hcopies, fun h => absurd h hstart, haway,
      fun h => h.elim (absurd · hplace) (absurd · hdone)⟩
  | persistPlan => exact ⟨hsaved, hcopies, by rintro ⟨⟩, haway, by simp⟩
  | account hfetches =>
    refine ⟨hsaved, hcopies, fun hrun => ?_, haway, hplaced⟩
    rw [show s.run = .start from hrun] at hfetches
    cases hfetches
  | flush hpending =>
    have hrun : s.run ≠ .start := fun hrun => by simp [(hunstarted hrun).2] at hpending
    exact ⟨hsaved, hcopies, fun h => absurd h hrun, haway, hplaced⟩
  | place _ hentity =>
    have hpath := (hnew.held _ hentity).1
    refine ⟨hsaved, hcopies, by rintro ⟨⟩, fun hne hfile => ?_, fun _ => ?_⟩
    · rw [hpath, Finset.mem_insert] at hfile
      exact hfile.elim hne (haway hne)
    · rw [← hpath]
      exact Finset.mem_insert_self ..
  | finish hrun => exact ⟨hsaved, hcopies, by rintro ⟨⟩, haway, fun _ => hplaced (.inl hrun)⟩
  | fail => exact ⟨hsaved, hcopies, by rintro ⟨⟩, haway, by simp⟩
  | changeRead hphase => simp [hsaved] at hphase
  | changeInForce hphase => simp [hsaved] at hphase
  | changeRefused hphase => simp [hsaved] at hphase
  | changeChecked hphase => simp [hsaved] at hphase
  | changePublish hphase => simp [hsaved] at hphase
  | changeMoveFails hphase => simp [hsaved] at hphase
  | changeMove hphase => simp [hsaved] at hphase
  | changeSave hphase => simp [hsaved] at hphase

/-- After the run only the saves nobody waited for are left. -/
theorem Redirect.Step.flush_of_done {s s' : Redirect} {a : RedirectAct}
    (hs : Redirect.Step gateway library folder s a s') (hsaved : s.change = .returned true)
    (hrun : s.run = .done) :
    a = .flush ∧
      ∃ entity ∈ s.held, ∃ pending, s' = { s with pending := pending, row := entity } := by
  cases hs with
  | flush _ hentity => exact ⟨rfl, _, hentity, _, rfl⟩
  | setState hmay => simp [hrun, RunPhase.may] at hmay
  | account hmay => simp [hrun, RunPhase.fetches] at hmay
  | fail hmay => simp [hrun, RunPhase.mayFail] at hmay
  | loadEnded h | load h | saveState h | persistPlan h | place h | finish h => simp [hrun] at h
  | changeRead h | changeInForce h | changeRefused h | changeChecked h | changePublish h
  | changeMoveFails h | changeMove h | changeSave h => simp [hsaved] at h

theorem Late.lost {s s' : Redirect} {a : RedirectAct} (h : Late gateway library folder row₀ s)
    (hs : Redirect.Step gateway library folder s a s') :
    ¬ Timely gateway library folder s a ∧ Lost gateway library folder row₀ s' := by
  obtain ⟨rfl, entity, hentity, pending, rfl⟩ := hs.flush_of_done h.saved h.ended
  have hold := h.held entity hentity
  constructor
  · intro htimely
    obtain ⟨hpath, hlibrary⟩ := htimely entity hentity
    exact not_old_and_new h.differs hold
      ⟨hpath.trans h.kept.1.1, hlibrary.trans h.kept.1.2⟩
  · exact ⟨h.saved, h.differs, .inr ⟨by simp [h.ended], h.held, fun _ => .inl hold⟩⟩

/-! ### The change is lost for good -/

theorem Lost.step {s s' : Redirect} {a : RedirectAct} (h : Lost gateway library folder row₀ s)
    (hs : Redirect.Step gateway library folder s a s') : Lost gateway library folder row₀ s' := by
  obtain ⟨hsaved, hdiffers, hover⟩ := h
  refine ⟨?_, hdiffers, ?_⟩
  · cases hs with
    | changeRead h | changeInForce h | changeRefused h | changeChecked h | changePublish h
    | changeMoveFails h | changeMove h => simp [hsaved] at h
    | changeSave => rfl
    | _ => exact hsaved
  · cases hs with
    | changeRead h | changeInForce h | changeRefused h | changeChecked h | changePublish h
    | changeMoveFails h | changeMove h | changeSave h => simp [hsaved] at h
    | loadEnded => exact .inl rfl
    | load hrun => simp [hrun] at hover
    | setState hmay =>
      obtain hended | ⟨_, hold, _⟩ := hover
      · simp [hended, RunPhase.may] at hmay
      · exact .inr ⟨nofun, hold, nofun⟩
    | @saveState state copy hphase =>
      obtain hended | ⟨_, hold, _⟩ := hover
      · simp [hphase] at hended
      · obtain ⟨hstart, _, hdone⟩ := after_ne state
        exact .inr ⟨hstart, hold, fun h => absurd h hdone⟩
    | persistPlan hphase =>
      obtain hended | ⟨_, hold, _⟩ := hover
      · simp [hphase] at hended
      · exact .inr ⟨nofun, hold, nofun⟩
    | account => exact hover
    | flush _ hentity =>
      exact hover.imp_right fun ⟨hstart, hold, _⟩ => ⟨hstart, hold, fun _ => .inl (hold _ hentity)⟩
    | place hphase =>
      obtain hended | ⟨_, hold, _⟩ := hover
      · simp [hphase] at hended
      · exact .inr ⟨nofun, hold, nofun⟩
    | finish hphase hentity =>
      obtain hended | ⟨_, hold, _⟩ := hover
      · simp [hphase] at hended
      · have hrow := hold _ hentity
        refine .inr ⟨nofun, fun entity he => ?_, fun _ => .inl hrow⟩
        cases he
        exact hrow
    | fail => exact .inl rfl

theorem Lost.not_kept {s : Redirect} (h : Lost gateway library folder row₀ s) (ha : Answered s) :
    ¬ Kept gateway library folder row₀ s := by
  rintro ⟨hnew, hfollows⟩
  obtain hended | ⟨_, _, hdone⟩ := h.overwritten
  · simp [ha.1] at hended
  · obtain hold | hfile := hdone ha.1
    · exact not_old_and_new h.differs hold hnew
    · exact hfile hfollows

/-! ### Runs -/

def InTime (gateway : Gateway) (library : Library) (folder : Option Dir) (row₀ : Transfer)
    (s : Redirect) : Prop :=
  Before gateway library folder row₀ s ∨ AllNew gateway library folder row₀ s ∨
    Late gateway library folder row₀ s

theorem inTime_boot (row₀ : Transfer) : InTime gateway library folder row₀ (.boot row₀) := by
  have hold : Old row₀ row₀ := ⟨rfl, rfl⟩
  refine .inl ⟨by rintro ⟨⟩, ⟨hold, by rintro _ ⟨⟩, by rintro _ ⟨⟩, by rintro _ ⟨⟩⟩,
    fun _ => ⟨rfl, rfl⟩, fun _ hfile => ⟨fun _ => ?_, ?_, by rintro _ ⟨⟩⟩,
    by simp [Redirect.boot], by simp [Redirect.boot], by rintro ⟨⟩⟩
  · show row₀.state = .DONE
    by_contra hstate
    have hnone : (Redirect.boot row₀).files = ∅ := if_neg hstate
    rw [hnone] at hfile
    exact absurd hfile (Finset.notMem_empty _)
  · simp [Redirect.boot]

theorem InTime.step {s s' : Redirect} {a : RedirectAct} (h : InTime gateway library folder row₀ s)
    (ho : Timely gateway library folder s a) (hs : Redirect.Step gateway library folder s a s') :
    InTime gateway library folder row₀ s' := by
  obtain h | h | h := h
  · by_cases ha : a = .changeSave
    · subst ha
      obtain hrun | ⟨hrun, hfile⟩ := ho
      · exact .inr (.inl (h.save_first hs hrun))
      · exact .inr (.inr (h.save_last hs hrun hfile))
    · exact .inl (h.step hs ha)
  · exact .inr (.inl (h.step hs))
  · exact absurd ho (h.lost hs).1

/-- Only a save of the change, or a late save of an old entity, can be out of time. -/
theorem InTime.lost {s s' : Redirect} {a : RedirectAct} (h : InTime gateway library folder row₀ s)
    (ho : ¬ Timely gateway library folder s a) (hs : Redirect.Step gateway library folder s a s') :
    Lost gateway library folder row₀ s' := by
  have hflush : ∀ {P : Transfer → Prop}, Everywhere P s →
      (∀ t t' : Transfer, P t → P t' →
        t.targetPath = t'.targetPath ∧ t.targetLibraryId = t'.targetLibraryId) → a ≠ .flush := by
    rintro P ⟨hrow, hheld, _, _⟩ hsame rfl
    exact ho fun entity he => hsame _ _ (hheld entity he) hrow
  obtain h | h | h := h
  · by_cases ha : a = .changeSave
    · subst ha
      exact h.save_late hs ho
    · have hne := hflush h.copies fun t t' ht ht' => ⟨ht.1.trans ht'.1.symm, ht.2.trans ht'.2.symm⟩
      cases a <;> first | exact absurd trivial ho | exact absurd rfl ha | exact absurd rfl hne
  · have hne := hflush h.copies fun t t' ht ht' => ⟨ht.1.trans ht'.1.symm, ht.2.trans ht'.2.symm⟩
    have ha := hs.ne_changeSave h.saved
    cases a <;> first | exact absurd trivial ho | exact absurd rfl ha | exact absurd rfl hne
  · exact (h.lost hs).2

/-- In time, the change is in force when the run has ended. -/
theorem InTime.kept {s : Redirect} (h : InTime gateway library folder row₀ s) (ha : Answered s) :
    Kept gateway library folder row₀ s := by
  obtain ⟨hrun, saved, hsaved⟩ := ha
  obtain h | h | h := h
  · cases saved with
    | true => exact absurd hsaved h.unsaved
    | false =>
      have hsame := not_not.mp (h.inForce hsaved)
      refine ⟨⟨h.copies.row.1.trans hsame.1.symm, h.copies.row.2.trans hsame.2⟩, ?_,
        fun hne => absurd hsame.1.symm hne⟩
      rw [hsame.1]
      exact h.placed (.inr hrun) (by simp [hsaved])
  · exact ⟨h.copies.row, h.placed (.inr hrun), h.away⟩
  · exact h.kept

/-- **A change that is answered is kept** if and only if every step of the run is in time. -/
theorem kept_iff {as : List RedirectAct} {s : Redirect}
    (h : Run (Redirect.step gateway library folder) Free (.boot row₀) as s) (ha : Answered s) :
    Kept gateway library folder row₀ s ↔
      Run (Redirect.step gateway library folder) (Timely gateway library folder) (.boot row₀) as
        s := by
  constructor
  · intro hkept
    refine (h.guarded_or_lost (fun _ _ _ hi ho hs => InTime.step hi ho (.of_step hs))
      (fun _ _ _ hi ho hs => InTime.lost hi ho (.of_step hs))
      (fun _ _ _ hl hs => Lost.step hl (.of_step hs)) (inTime_boot row₀)).resolve_right ?_
    exact fun hlost => hlost.not_kept ha hkept
  · intro htimely
    refine InTime.kept (htimely.invariant (fun _ _ _ hi ho hs => hi.step ho (.of_step hs)) ?_) ha
    exact inTime_boot row₀

/-! ### A change before the run, and one while it downloads -/

def twoLibraries : Gateway where
  libraries := [⟨"films", ["films"], []⟩, ⟨"series", ["series"], []⟩]
  defaultTargetPath := none
  diskReserveBytes := 0
  placingHoldMs := 0

def series : Library := ⟨"series", ["series"], []⟩

def queuedFilm : Transfer := ⟨"t", .QUEUED, ⟨["films"], "film"⟩, some "films", .CATEGORY⟩

def untilDownloading : List RedirectAct :=
  [.load, .setState .CONNECTING, .saveState, .persistPlan, .setState .DOWNLOADING, .saveState]

def untilDone : List RedirectAct :=
  [.account, .flush, .setState .VERIFYING, .saveState, .setState .PLACING, .saveState, .place,
    .finish]

def changeAll : List RedirectAct := [.changeRead, .changeProbe false, .changeSave]

def filmInSeries : Redirect where
  row := { retarget series ⟨["series"], "film"⟩ queuedFilm with state := .DONE }
  files := {⟨["series"], "film"⟩}
  run := .done
  held := some { retarget series ⟨["series"], "film"⟩ queuedFilm with state := .DONE }
  pending := 0
  change := .returned true

/-- The change came while the file was downloaded, and left no trace. -/
def filmInFilms : Redirect where
  row := { queuedFilm with state := .DONE }
  files := {⟨["films"], "film"⟩}
  run := .done
  held := some { queuedFilm with state := .DONE }
  pending := 0
  change := .returned true

theorem kept_iff_changedFirst :
    Kept twoLibraries series none queuedFilm filmInSeries ↔
      Run (Redirect.step twoLibraries series none) (Timely twoLibraries series none)
        (.boot queuedFilm) (changeAll ++ untilDownloading ++ untilDone) filmInSeries :=
  kept_iff (.ofExec rfl) ⟨rfl, true, rfl⟩

/-- The save of a finished run puts the destination back that was read when it started. -/
theorem kept_fails : ¬ ∀ (gateway : Gateway) (library : Library) (folder : Option Dir)
    (row₀ : Transfer) (as : List RedirectAct) (s : Redirect),
    Run (Redirect.step gateway library folder) Free (.boot row₀) as s → Answered s →
    Kept gateway library folder row₀ s := by
  intro h
  have hkept := h twoLibraries series none queuedFilm (untilDownloading ++ changeAll ++ untilDone)
    filmInFilms (.ofExec rfl) ⟨rfl, true, rfl⟩
  exact absurd hkept.1.1 (by decide)

end MediaCenterSync.TransferManager
