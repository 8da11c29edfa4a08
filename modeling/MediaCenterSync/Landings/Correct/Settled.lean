import MediaCenterSync.Landings.Calls
import MediaCenterSync.Landings.Correct.Indexed

/-!
# A settled landing does not come back

What a landing was when a call or a pass read it is what is saved, however much later.  A pass that
deleted or marked it in between is undone then, so settled landings stay settled (`StaysSettled`)
exactly in the runs in which no row is saved over a landing that was settled since (`InTime`):
`staysSettled_iff`.

A pass that nothing comes between is `reconcile` (`run_reconcile`).
-/

namespace MediaCenterSync.Landings

open LabelledRun

namespace LandingTable

variable {t t' : LandingTable} {row other : Landing}

theorem mem_save_self (h : t.save row = some t') : row ∈ t'.rows := by
  unfold save at h
  split_ifs at h
  cases h
  exact Table.mem_of_find Table.find_save_self

theorem mem_save (h : t.save row = some t') (hother : other ∈ t'.rows) :
    other = row ∨ other ∈ t.rows ∧ other.itemId ≠ row.itemId := by
  by_cases hitem : other.itemId = row.itemId
  · exact .inl (eq_of_itemId hother (mem_save_self h) hitem)
  · unfold save at h
    split_ifs at h
    cases h
    rcases Table.mem_save hother with rfl | hold
    · exact .inl rfl
    · exact .inr ⟨hold, hitem⟩

end LandingTable

/-- The step is one of a call that was begun when there had been so many. -/
def Event.isAfter (begun : ℕ) : Event → Bool
  | .save call _ | .answer call _ => begun ≤ call
  | _ => false

namespace Gateway

variable {grace : ℕ} {s s' : Gateway} {event : Event}

/-- No landing is left of an item whose landing was deleted, and one that was marked does not wait. -/
def StaysSettled (s : Gateway) : Prop :=
  ∀ row ∈ s.table.rows, s.deleted row.itemId = false ∧
    (s.stale row.itemId ≠ none → row.state = .STALE)

/-- A row that is saved is not of an item whose landing was deleted since, and if it waits, it is
saved by a call that was begun after the landing was marked. -/
def InTime (grace : ℕ) (s : Gateway) (event : Event) : Prop :=
  ∀ row ∈ s.saves grace event, (s.table.save row).isSome →
    s.deleted row.itemId = false ∧
      (row.state = .STALE ∨ ∀ begun ∈ s.stale row.itemId, event.isAfter begun = true)

instance (s : Gateway) : Decidable s.StaysSettled :=
  inferInstanceAs (Decidable (∀ row ∈ s.table.rows, _ ∧ _))

instance (s : Gateway) (event : Event) : Decidable (InTime grace s event) :=
  inferInstanceAs (Decidable (∀ row ∈ s.saves grace event, _ → _ ∧ _))

inductive Change (grace : ℕ) (s : Gateway) (event : Event) (s' : Gateway) : Prop
  /-- Nothing is written, or what is written is refused. -/
  | quiet (hrefused : ∀ row ∈ s.saves grace event, s.table.save row = none)
      (htable : s'.table = s.table) (hdeleted : s'.deleted = s.deleted)
      (hstale : s'.stale = s.stale)
  | begun (itemId : String) (hnone : s.saves grace event = none) (htable : s'.table = s.table)
      (hdeleted : s'.deleted = Function.update s.deleted itemId false) (hstale : s'.stale = s.stale)
  | forgot (id : ℕ) (hnone : s.saves grace event = none) (htable : s'.table = s.table.delete id)
      (hdeleted : s'.deleted = (s.forget id).deleted) (hstale : s'.stale = s.stale)
  | wrote (row : Landing) (hsaves : s.saves grace event = some row)
      (htable : s.table.save row = some s'.table) (hdeleted : s'.deleted = s.deleted)
      (hothers : ∀ itemId ≠ row.itemId, s'.stale itemId = s.stale itemId)
      (hstale : row.state = .STALE ∨ (s'.stale row.itemId = none ↔
        ∀ begun ∈ s.stale row.itemId, event.isAfter begun = true))

theorem change_refused {row : Landing} (hsaves : s.saves grace event = some row)
    (hrefused : s.table.save row = none) (htable : s'.table = s.table)
    (hdeleted : s'.deleted = s.deleted) (hstale : s'.stale = s.stale) :
    Change grace s event s' := by
  refine .quiet (fun other hother => ?_) htable hdeleted hstale
  obtain rfl := Option.some.inj (hsaves.symm.trans hother)
  exact hrefused

theorem change_record {id : ℕ} {row : Landing} {rest : Option Call}
    (hcall : ∀ begun, event.isAfter begun = decide (begun ≤ id))
    (hsaves : s.saves grace event = some row) : Change grace s event (s.record id row rest) := by
  unfold record
  split
  · next table h =>
    refine .wrote row hsaves h rfl (fun itemId hother => ?_) (.inr ?_)
    · dsimp only [setCall]
      split_ifs
      · exact Function.update_of_ne hother _ _
      · rfl
    · dsimp only [setCall]
      cases hmark : s.stale row.itemId with
      | none => simp [hmark]
      | some begun => by_cases hlater : begun ≤ id <;> simp [hmark, hcall, hlater]
  · next h => exact change_refused hsaves h rfl rfl rfl

theorem change_markRow {id : ℕ} {row : Landing} {rest : PassStage} (hstate : row.state = .STALE)
    (hsaves : s.saves grace event = some row) : Change grace s event (s.markRow id row rest) := by
  unfold markRow
  split
  · next table h =>
    exact .wrote row hsaves h rfl (fun _ hother => Function.update_of_ne hother _ _) (.inl hstate)
  · next h => exact change_refused hsaves h rfl rfl rfl

theorem change_quiet (hnone : s.saves grace event = none) (htable : s'.table = s.table)
    (hdeleted : s'.deleted = s.deleted) (hstale : s'.stale = s.stale) : Change grace s event s' :=
  .quiet (fun row hrow => by rw [hnone] at hrow; cases hrow) htable hdeleted hstale

theorem change_of_step (h : step grace s event = some s') : Change grace s event s' := by
  -- Reads and refusals change nothing: only a save, an answer, a verdict and a mark write.
  cases event with
  | recordFile landed =>
    cases h
    exact .begun landed.itemId rfl rfl rfl rfl
  | library id found =>
    simp only [step] at h
    split at h
    · split_ifs at h
      cases h
      exact change_quiet rfl rfl rfl rfl
    · cases h
  | existing id =>
    simp only [step] at h
    split at h
    · cases h
      exact change_quiet rfl rfl rfl rfl
    · cases h
  | save id now =>
    simp only [step] at h
    split at h
    · next landed library existing hcall =>
      cases h
      exact change_record (fun _ => rfl) (by simp only [saves, hcall])
    · cases h
  | service id found =>
    simp only [step] at h
    split at h
    · cases h
      exact change_quiet rfl rfl rfl rfl
    · cases h
  | answer id outcome =>
    simp only [step] at h
    split at h
    · next landing hcall =>
      cases h
      exact change_record (fun _ => rfl) (by simp only [saves, hcall])
    · cases h
  | reconcile =>
    cases h
    exact change_quiet rfl rfl rfl rfl
  | verdict id verdict =>
    simp only [step] at h
    split at h
    · next landing rest surviving hpass =>
      split_ifs at h
      · cases h
        exact change_quiet rfl rfl rfl rfl
      · cases h
        exact .forgot landing.id rfl rfl rfl rfl
    · cases h
  | clock id now =>
    simp only [step] at h
    split at h
    · cases h
      exact change_quiet rfl rfl rfl rfl
    · cases h
  | mark id =>
    simp only [step] at h
    split at h
    · next landing rest now hpass =>
      split_ifs at h with hdue
      · cases h
        exact change_markRow rfl (by simp only [saves, hpass, if_pos hdue])
      · cases h
        exact change_quiet (by simp [saves, hpass, hdue]) rfl rfl rfl
    · cases h

theorem deleted_forget {id : ℕ} {row : Landing} (hrow : row ∈ (s.table.delete id).rows) :
    (s.forget id).deleted row.itemId = s.deleted row.itemId := by
  obtain ⟨hin, hne⟩ := LandingTable.mem_delete.mp hrow
  simp only [forget]
  rcases hfind : Table.find (·.id) s.table.rows id with _ | gone
  · rw [hfind, Option.map_none, Option.getD_none]
  · have hother : row.itemId ≠ gone.itemId := by
      intro heq
      rw [LandingTable.eq_of_itemId hin (Table.mem_of_find hfind) heq] at hne
      exact hne (Table.key_of_find hfind)
    rw [hfind, Option.map_some, Option.getD_some, Function.update_of_ne hother]

/-- **One step**, saving in time. -/
theorem StaysSettled.step (h : s.StaysSettled) (hok : InTime grace s event)
    (hstep : step grace s event = some s') : s'.StaysSettled := by
  intro row hrow
  cases change_of_step hstep with
  | quiet hrefused htable hdeleted hstale =>
    rw [htable] at hrow
    rw [hdeleted, hstale]
    exact h row hrow
  | begun itemId hnone htable hdeleted hstale =>
    rw [htable] at hrow
    rw [hdeleted, hstale]
    refine ⟨?_, (h row hrow).2⟩
    by_cases hitem : row.itemId = itemId
    · rw [hitem, Function.update_self]
    · rw [Function.update_of_ne hitem]
      exact (h row hrow).1
  | forgot id hnone htable hdeleted hstale =>
    rw [htable] at hrow
    rw [hdeleted, hstale, deleted_forget hrow]
    exact h row (LandingTable.mem_delete.mp hrow).1
  | wrote saved hsaves htable hdeleted hothers hstale =>
    obtain ⟨hkept, hlater⟩ := hok saved hsaves (by rw [htable]; rfl)
    rw [hdeleted]
    rcases LandingTable.mem_save htable hrow with rfl | ⟨hold, hother⟩
    · refine ⟨hkept, fun hmarked => ?_⟩
      -- it was marked, so the call that saves it was begun before that
      rcases hstale with hstate | hcleared
      · exact hstate
      · exact hlater.resolve_right fun hafter => hmarked (hcleared.mpr hafter)
    · rw [hothers row.itemId hother]
      exact h row hold

theorem not_staysSettled_of_late (hlate : ¬ InTime grace s event)
    (hstep : Gateway.step grace s event = some s') : ¬ s'.StaysSettled := by
  intro hsettled
  refine hlate fun row hsaves htaken => ?_
  cases change_of_step hstep with
  | quiet hrefused htable hdeleted hstale =>
    rw [hrefused row hsaves] at htaken
    cases htaken
  | begun itemId hnone htable hdeleted hstale => exact absurd (hnone.symm.trans hsaves) nofun
  | forgot id hnone htable hdeleted hstale => exact absurd (hnone.symm.trans hsaves) nofun
  | wrote saved hsaved htable hdeleted hothers hstale =>
    obtain rfl := Option.some.inj (hsaved.symm.trans hsaves)
    have hin := hsettled saved (LandingTable.mem_save_self htable)
    rw [hdeleted] at hin
    refine ⟨hin.1, ?_⟩
    rcases hstale with hstate | hcleared
    · exact .inl hstate
    · by_cases hnone : s'.stale saved.itemId = none
      · exact .inr (hcleared.mp hnone)
      · exact .inl (hin.2 hnone)

/-- **A settled landing does not come back**, in whatever order calls, answers and passes take their
steps, exactly when no row is saved over a landing that was settled since. -/
theorem staysSettled_iff {t : LandingTable} {next : ℕ} {events : List Event}
    (h : Run (step grace) Free (boot t next) events s) :
    Always (step grace) StaysSettled (boot t next) events ↔
      Run (step grace) (InTime grace) (boot t next) events s := by
  refine h.always_iff (fun s event s' hs hok => hs.step hok) (fun s event s' _ => ?_) ?_
  · exact fun hlate hstep => not_staysSettled_of_late hlate hstep
  · exact fun row _ => ⟨rfl, fun hmarked => absurd rfl hmarked⟩

/-! ### A pass that nothing comes between -/

theorem pass_setPass {id : ℕ} {stage : PassStage} (h : s.pass id = some stage)
    (next : Option PassStage) : (s.setPass id next).pass id = next := by
  have hlt : id < s.passes.length := by
    by_contra hge
    rw [pass, List.getElem?_eq_none (not_lt.mp hge)] at h
    cases h
  rw [setPass, pass, List.getElem?_set_self hlt]
  rfl

variable (grace) in
theorem step_verdict {id : ℕ} {landing : Landing} {rest : List Landing} {pass : Pass}
    (h : s.pass id = some (.settle (landing :: rest) pass.surviving))
    (htable : s.table = pass.table) (verdict : Verdict) :
    ∃ m, step grace s (.verdict id verdict) = some m ∧
      m.pass id = some (.settle rest (pass.settle landing verdict).surviving) ∧
      m.table = (pass.settle landing verdict).table := by
  have hgone : (s.forget landing.id).table = pass.table.delete landing.id := by
    rw [← htable]
    rfl
  have hstage : (s.forget landing.id).pass id = some (.settle (landing :: rest) pass.surviving) := h
  rcases verdict with item | _ | _
  · exact ⟨_, by simp [step, h]; rfl, pass_setPass hstage _, hgone⟩
  · exact ⟨_, by simp [step, h]; rfl, pass_setPass hstage _, hgone⟩
  · exact ⟨_, by simp [step, h]; rfl, pass_setPass h _, htable⟩

variable (grace) in
theorem run_settle (index : Index) {id : ℕ} {rest : List Landing} {pass : Pass}
    (h : s.pass id = some (.settle rest pass.surviving)) (htable : s.table = pass.table) :
    let after := rest.foldl
      (fun (pass : Pass) landing => pass.settle landing (index.judge landing)) pass
    ∃ s', Run (step grace) Free s (rest.map fun landing => .verdict id (index.judge landing)) s' ∧
      s'.pass id = some (.settle [] after.surviving) ∧ s'.table = after.table := by
  induction rest generalizing s pass with
  | nil => exact ⟨s, .nil s, h, htable⟩
  | cons landing rest ih =>
    obtain ⟨m, hstep, hstage, hm⟩ := step_verdict grace h htable (index.judge landing)
    obtain ⟨s', hrun, hafter⟩ := ih hstage hm
    exact ⟨s', .cons trivial hstep hrun, hafter⟩

variable (grace) in
theorem run_mark {id now : ℕ} {rest : List Landing} {table : LandingTable}
    (h : s.pass id = some (.mark rest now))
    (hmarked : rest.foldlM (fun (t : LandingTable) => t.mark now) s.table = some table) :
    ∃ s', Run (step grace) Free s (rest.map fun _ => .mark id) s' ∧ s'.table = table ∧
      s'.pass id = some (.mark [] now) := by
  induction rest generalizing s with
  | nil => exact ⟨s, .nil s, Option.some.inj hmarked, h⟩
  | cons landing rest ih =>
    rw [List.foldlM_cons] at hmarked
    obtain ⟨first, hfirst, hrest⟩ := Option.bind_eq_some_iff.mp hmarked
    rw [List.map_cons]
    unfold LandingTable.mark at hfirst
    split_ifs at hfirst with hdue
    · let saved : Gateway :=
        { s with
          table := first
          stale := Function.update s.stale landing.itemId (some s.calls.length) }
      obtain ⟨s', hrun, hafter⟩ := ih (s := saved.setPass id (some (.mark rest now)))
        (pass_setPass (s := saved) h _) hrest
      exact ⟨s', .cons trivial (by simp [step, h, hdue, markRow, hfirst, saved]) hrun, hafter⟩
    · cases hfirst
      obtain ⟨s', hrun, hafter⟩ := ih (s := s.setPass id (some (.mark rest now)))
        (pass_setPass h _) hrest
      exact ⟨s', .cons trivial (by simp [step, h, hdue]) hrun, hafter⟩

/-- What a pass does when nothing comes between: it reads the open landings, finds out about each of
them what the index says, reads the clock, and looks at each of those left. -/
def undisturbed (index : Index) (now : ℕ) (s : Gateway) : List Event :=
  let pass := s.passes.length
  .reconcile :: (s.table.findOpen.map fun landing => .verdict pass (index.judge landing)) ++
    .clock pass now :: ((settleOpen index s.table).surviving.map fun _ => .mark pass)

/-- **A pass that nothing comes between** comes to its end, and leaves the landings `reconcile`
leaves. -/
theorem run_reconcile (grace : ℕ) (index : Index) (now : ℕ) (s : Gateway) :
    ∃ s' pass, Run (step grace) Free s (undisturbed index now s) s' ∧
      reconcile index now s.table = some pass ∧ s'.table = pass.table ∧
      s'.pass s.passes.length = some (.mark [] now) := by
  obtain ⟨pass, hpass, -, -⟩ := index.reconcile_eq now s.table
  obtain ⟨table, hmarked, rfl⟩ := Option.map_eq_some_iff.mp hpass
  let start : Pass := { table := s.table, surviving := [], indexed := [] }
  let begun : Gateway := { s with passes := s.passes ++ [some (.settle s.table.findOpen [])] }
  have hbegun : begun.pass s.passes.length = some (.settle s.table.findOpen start.surviving) := by
    simp [begun, start, Gateway.pass]
  obtain ⟨settled, hsettle, hstage, htable⟩ := run_settle grace index hbegun rfl
  let timed := settled.setPass s.passes.length
    (some (.mark (settleOpen index s.table).surviving now))
  have hloop : (settleOpen index s.table).surviving.foldlM
      (fun (t : LandingTable) => t.mark now) timed.table = some table := by
    have hsettled : timed.table = (settleOpen index s.table).table := htable
    rw [hsettled]
    exact hmarked
  obtain ⟨s', hmark, hrows, hdone⟩ := run_mark grace (pass_setPass hstage _) hloop
  have hclock : step grace settled (.clock s.passes.length now) = some timed := by
    simp only [step, hstage, timed]
    rfl
  exact ⟨s', _, .cons trivial rfl (hsettle.append (.cons trivial hclock hmark)), hpass, hrows,
    hdone⟩

end Gateway

/-! ### One film, pulled and indexed -/

def landedDune : LandedFile where
  itemId := "theirs"
  transferId := some "transfer"
  libraryId := some "home-films"
  path := ["films", "Dune (2021)", "Dune - 2160p.mkv"]
  bytes := 0
  contentId := some "v1:b"

def noLanding : LandingTable where
  rows := []
  ids := List.nodup_nil
  items := List.nodup_nil

/-- The landing is recorded, and the server is being asked to look. -/
def recorded : List Event :=
  [.recordFile landedDune, .library 0 (some (Planning.ourFilms ["films"])), .existing 0, .save 0 5,
    .service 0 true]

def indexedBy (pass : ℕ) : List Event := [.reconcile, .verdict pass (.indexed newCopy)]

/-- The server answers; one pass marks the landing and another deletes it, and then the film is
pulled again. -/
def answeredInTime : List Event :=
  recorded ++ [.answer 0 "accepted"] ++ [.reconcile, .verdict 0 .surviving, .clock 0 200, .mark 0] ++
    indexedBy 1 ++
    [.recordFile landedDune, .library 1 none, .existing 1, .save 1 300]

/-- The server answers after a pass that found the file indexed. -/
def answeredLate : List Event := recorded ++ indexedBy 0 ++ [.answer 0 "accepted"]

/-- The landing that was deleted stays deleted until the film is pulled again. -/
theorem staysSettled_answeredInTime :
    Always (Gateway.step 100) Gateway.StaysSettled (Gateway.boot noLanding 0) answeredInTime := by
  obtain ⟨s, hs⟩ := Option.isSome_iff_exists.mp
    (by decide : (exec (Gateway.step 100) (Gateway.InTime 100) (Gateway.boot noLanding 0)
      answeredInTime).isSome)
  have hrun := Run.ofExec hs
  exact (Gateway.staysSettled_iff (hrun.mono fun _ _ _ => trivial)).mpr hrun

/-- **A landing that was deleted comes back** with the answer of the server. -/
theorem not_staysSettled_answeredLate :
    ¬ Always (Gateway.step 100) Gateway.StaysSettled (Gateway.boot noLanding 0) answeredLate := by
  intro hall
  have hlast : (exec (Gateway.step 100) Free (Gateway.boot noLanding 0) answeredLate).map
      (fun s => decide s.StaysSettled) = some false := by decide
  obtain ⟨s, hs, hback⟩ := Option.map_eq_some_iff.mp hlast
  exact of_decide_eq_false hback (hall answeredLate [] s (List.append_nil _).symm (Run.ofExec hs))

end MediaCenterSync.Landings
