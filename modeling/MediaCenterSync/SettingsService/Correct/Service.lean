import MediaCenterSync.SettingsService.Correct.Reading

/-!
# A saved setting stays saved

When no call is in progress the memory copy is what the table reads as, and the table has the last
value each field was written, in every run in which no call puts a copy in place that another write
of the table overtook (`UpToDate`), and what is written can be read back (`Readable`):
`staysSaved_of_upToDate`.  Two updates that overlap undo one another in memory, until the next start
(`not_staysSaved_twoUpdates`).
-/

namespace MediaCenterSync.SettingsService

/-! ### What may happen -/

/-- The copy a call is about to put in place has seen every write. -/
def Call.UpToDate (writes : ℕ) : Call → Prop
  | .read rows _ => rows.seen = writes
  | .written next => next.seen = writes
  | _ => True

instance (writes : ℕ) (call : Call) : Decidable (call.UpToDate writes) := by
  unfold Call.UpToDate
  split <;> infer_instance

def Call.ReadsTidy : Call → Prop
  | .read rows _ => rows.value.Tidy
  | _ => True

instance (call : Call) : Decidable call.ReadsTidy := by
  unfold Call.ReadsTidy
  split <;> infer_instance

namespace Service

/-- No copy is put in place that another write overtook. -/
def UpToDate (e : Service) : Act → Prop
  | .resume i => ∀ call ∈ e.calls[i]?, call.UpToDate e.writes
  | _ => True

instance (e : Service) (a : Act) : Decidable (e.UpToDate a) := by
  unfold UpToDate
  split <;> infer_instance

/-- What is written, and what was read, can be read back. -/
def Readable (e : Service) : Act → Prop
  | .update patch => patch.Readable
  | .resume i => ∀ call ∈ e.calls[i]?, call.ReadsTidy
  | _ => True

instance (e : Service) (a : Act) : Decidable (e.Readable a) := by
  unfold Readable
  split <;> infer_instance

/-! ### What a step does -/

section

variable (newUrl : String → Option Url) (pins : Pins)

inductive Step (e : Service) : Act → Service → Prop
  | hit : Step e .get e
  | miss : e.cached = none → Step e .get { e with calls := e.calls ++ [.reading none] }
  | update {patch : Patch} {copy : Copy Settings} : e.cached = some copy →
      Step e (.update patch) { e with calls := e.calls ++ [.pictured patch copy] }
  | updateMiss {patch : Patch} : e.cached = none →
      Step e (.update patch) { e with calls := e.calls ++ [.reading (some patch)] }
  | reads {i : ℕ} {patch : Option Patch} : e.calls[i]? = some (.reading patch) →
      Step e (.repository i) { e with calls := e.calls.set i (.read ⟨e.table, e.writes⟩ patch) }
  | writes {i : ℕ} {patch : Patch} {next : Copy Settings} :
      e.calls[i]? = some (.writing patch next) →
      Step e (.repository i) { e with
        table := e.table.putMany (rowsOf patch next.value)
        writes := e.writes + 1
        calls := e.calls.set i (.written ⟨next.value, next.seen + 1⟩)
        saved := fun key => (rowsOf patch next.value key).or (e.saved key) }
  | throws {i : ℕ} {call : Call} : e.calls[i]? = some call → (∀ next, call ≠ .written next) →
      Step e (.throws i) { e with calls := e.calls.eraseIdx i }
  | fillsGet {i : ℕ} {rows : Copy Table} : e.calls[i]? = some (.read rows none) →
      Step e (.resume i)
        { e with
          cached := some (rows.map (Table.read newUrl pins)), calls := e.calls.eraseIdx i }
  | fillsUpdate {i : ℕ} {rows : Copy Table} {patch : Patch} :
      e.calls[i]? = some (.read rows (some patch)) →
      Step e (.resume i)
        { e with
          cached := some (rows.map (Table.read newUrl pins))
          calls := e.calls.set i (.pictured patch (rows.map (Table.read newUrl pins))) }
  | refuses {i : ℕ} {patch : Patch} {current : Copy Settings} :
      e.calls[i]? = some (.pictured patch current) →
      Step e (.resume i) { e with calls := e.calls.eraseIdx i }
  | prepares {i : ℕ} {patch : Patch} {current : Copy Settings} {next : Settings} :
      e.calls[i]? = some (.pictured patch current) →
      prepare newUrl pins patch current.value = .ok next →
      Step e (.resume i) { e with calls := e.calls.set i (.writing patch ⟨next, current.seen⟩) }
  | preparesNothing {i : ℕ} {patch : Patch} {current : Copy Settings} {next : Settings} :
      e.calls[i]? = some (.pictured patch current) →
      prepare newUrl pins patch current.value = .ok next →
      (∀ key, rowsOf patch next key = none) →
      Step e (.resume i) { e with calls := e.calls.set i (.written ⟨next, current.seen⟩) }
  | keeps {i : ℕ} {next : Copy Settings} : e.calls[i]? = some (.written next) →
      Step e (.resume i)
        { e with cached := some (next.map (applyPins pins)), calls := e.calls.eraseIdx i }
  | invalidate : Step e .invalidate { e with cached := none }
  | restart : Step e .restart e.restart

variable {newUrl pins} {e e' : Service} {a : Act}

theorem Step.of_step (h : e.step newUrl pins a = some e') : Step newUrl pins e a e' := by
  cases a with
  | get =>
    rw [step] at h
    split at h
    · cases h
      exact .hit
    · next hnone =>
      cases h
      exact .miss hnone
  | update patch =>
    rw [step] at h
    split at h
    · next copy hcopy =>
      cases h
      exact .update hcopy
    · next hnone =>
      cases h
      exact .updateMiss hnone
  | repository i =>
    obtain ⟨call, hcall, h⟩ := Option.bind_eq_some_iff.mp h
    cases call with
    | reading patch =>
      cases h
      exact .reads hcall
    | writing patch next =>
      cases h
      exact .writes hcall
    | read | pictured | written => cases h
  | throws i =>
    rw [step] at h
    split at h
    · next hcall =>
      cases h
      exact .throws hcall nofun
    · next hcall =>
      cases h
      exact .throws hcall nofun
    · cases h
  | resume i =>
    obtain ⟨call, hcall, h⟩ := Option.bind_eq_some_iff.mp h
    cases call with
    | read rows patch =>
      cases patch with
      | none =>
        cases h
        exact .fillsGet hcall
      | some patch =>
        cases h
        exact .fillsUpdate hcall
    | pictured patch current =>
      simp only [resume] at h
      split at h
      · cases h
        exact .refuses hcall
      · next next hnext =>
        split at h
        · cases h
          exact .prepares hcall hnext
        · next hrows =>
          cases h
          refine .preparesNothing hcall hnext fun key => ?_
          exact Option.not_isSome_iff_eq_none.mp fun hsome => hrows ⟨key, hsome⟩
    | written next =>
      cases h
      exact .keeps hcall
    | reading | writing => cases h
  | invalidate =>
    cases h
    exact .invalidate
  | restart =>
    cases h
    exact .restart

end

/-! ### What is asked -/

section

variable (newUrl : String → Option Url) (pins : Pins)

/-- **A saved setting stays saved.** -/
structure StaysSaved (e : Service) : Prop where
  /-- The table has the value each field was last written. -/
  table : ∀ key value, e.saved key = some value → e.table.rows key = some (some value)
  /-- `get` answers it. -/
  answers : ∀ key value, pins.value key = none → e.saved key = some value →
    e.answer newUrl pins key = some value
  /-- It answers the same before and after a restart. -/
  restarts : e.restart.answer newUrl pins = e.answer newUrl pins

end

end Service

/-! ### The invariant -/

section

variable (newUrl : String → Option Url) (pins : Pins)

def Call.Tracks (table : Table) (writes : ℕ) : Call → Prop
  | .reading patch => ∀ asked ∈ patch, Patch.Readable asked
  | .read rows patch => rows.Follows table writes ∧ ∀ asked ∈ patch, Patch.Readable asked
  | .pictured patch current =>
    current.Follows (table.read newUrl pins) writes ∧ Settled newUrl current.value ∧
      patch.Readable
  | .writing patch next =>
    next.seen ≤ writes ∧
      (next.seen = writes → applyPins pins next.value =
        (table.putMany (rowsOf patch next.value)).read newUrl pins) ∧
      Settled newUrl next.value ∧
      ∀ key value, rowsOf patch next.value key = some value → ReadsBack newUrl key value
  | .written next =>
    (next.map (applyPins pins)).Follows (table.read newUrl pins) writes ∧
      Settled newUrl next.value

/-- The memory copy and the calls follow the table, and what was written reads back. -/
structure Service.Tracks (e : Service) : Prop where
  cached : ∀ copy ∈ e.cached, copy.Follows (e.table.read newUrl pins) e.writes ∧
    Settled newUrl copy.value
  /-- A copy is behind only while the call that wrote is under way. -/
  pending : ∀ copy ∈ e.cached, copy.seen = e.writes ∨ ∃ next, .written next ∈ e.calls
  calls : ∀ call ∈ e.calls, call.Tracks newUrl pins e.table e.writes
  saved : ∀ key value, e.saved key = some value →
    e.table.rows key = some (some value) ∧ ReadsBack newUrl key value

variable {newUrl pins} {table table' : Table} {writes : ℕ} {call : Call}

theorem Call.Tracks.write (h : call.Tracks newUrl pins table writes) :
    call.Tracks newUrl pins table' (writes + 1) := by
  cases call with
  | reading => exact h
  | read => exact ⟨h.1.write, h.2⟩
  | pictured => exact ⟨h.1.write, h.2⟩
  | writing patch next =>
    refine ⟨Nat.le_succ_of_le h.1, fun hseen => ?_, h.2.2⟩
    exact absurd (Nat.le_trans (Nat.le_of_eq hseen.symm) h.1) (Nat.not_succ_le_self writes)
  | written => exact ⟨h.1.write, h.2⟩

theorem settled_applyPins {settings : Settings} (h : Settled newUrl settings) :
    Settled newUrl (applyPins pins settings) := by
  intro field
  cases field with
  | peerMaxDepth => rfl
  | _ => exact h _

theorem mem_set_of_ne {calls : List Call} {i : ℕ} {old other : Call} (new : Call)
    (hold : calls[i]? = some old) (hne : other ≠ old) (h : other ∈ calls) :
    other ∈ calls.set i new := by
  obtain ⟨j, hj⟩ := List.mem_iff_getElem?.mp h
  have hij : i ≠ j := by
    rintro rfl
    exact hne (Option.some.inj (hj.symm.trans hold))
  exact List.mem_of_getElem? ((List.getElem?_set_ne hij).trans hj)

theorem mem_eraseIdx_of_ne {calls : List Call} {i : ℕ} {old other : Call}
    (hold : calls[i]? = some old) (hne : other ≠ old) (h : other ∈ calls) :
    other ∈ calls.eraseIdx i := by
  obtain ⟨j, hj⟩ := List.mem_iff_getElem?.mp h
  refine List.mem_eraseIdx_iff_getElem?.mpr ⟨j, ?_, hj⟩
  rintro rfl
  exact hne (Option.some.inj (hj.symm.trans hold))

end

namespace Service

variable {newUrl : String → Option Url} {pins : Pins} {e e' : Service} {a : Act}

theorem tracks_boot (table : Table) : (boot table).Tracks newUrl pins :=
  ⟨nofun, nofun, by simp [boot], nofun⟩

theorem Tracks.set (h : e.Tracks newUrl pins) {i : ℕ} {old new : Call}
    (hold : e.calls[i]? = some old) (hne : ∀ next, old ≠ .written next)
    (hnew : new.Tracks newUrl pins e.table e.writes) :
    Tracks newUrl pins { e with calls := e.calls.set i new } where
  cached := h.cached
  pending copy hcopy := (h.pending copy hcopy).imp_right fun ⟨next, hnext⟩ =>
    ⟨next, mem_set_of_ne new hold (hne next).symm hnext⟩
  calls call hcall := by
    rcases List.mem_or_eq_of_mem_set hcall with hmem | rfl
    · exact h.calls call hmem
    · exact hnew
  saved := h.saved

theorem Tracks.eraseIdx (h : e.Tracks newUrl pins) {i : ℕ} {old : Call}
    (hold : e.calls[i]? = some old) (hne : ∀ next, old ≠ .written next) :
    Tracks newUrl pins { e with calls := e.calls.eraseIdx i } where
  cached := h.cached
  pending copy hcopy := (h.pending copy hcopy).imp_right fun ⟨next, hnext⟩ =>
    ⟨next, mem_eraseIdx_of_ne hold (hne next).symm hnext⟩
  calls call hcall := h.calls call (List.mem_of_mem_eraseIdx hcall)
  saved := h.saved

theorem Tracks.append (h : e.Tracks newUrl pins) {new : Call}
    (hnew : new.Tracks newUrl pins e.table e.writes) :
    Tracks newUrl pins { e with calls := e.calls ++ [new] } where
  cached := h.cached
  pending copy hcopy := (h.pending copy hcopy).imp_right fun ⟨next, hnext⟩ =>
    ⟨next, List.mem_append_left _ hnext⟩
  calls call hcall := by
    rcases List.mem_append.mp hcall with hmem | hmem
    · exact h.calls call hmem
    · rw [List.mem_singleton.mp hmem]
      exact hnew
  saved := h.saved

theorem Tracks.fill (h : e.Tracks newUrl pins) {copy : Copy Settings}
    (hcopy : copy.Follows (e.table.read newUrl pins) e.writes) (hseen : copy.seen = e.writes)
    (hsettled : Settled newUrl copy.value) : Tracks newUrl pins { e with cached := some copy } where
  cached := by
    rintro _ ⟨⟩
    exact ⟨hcopy, hsettled⟩
  pending := by
    rintro _ ⟨⟩
    exact .inl hseen
  calls := h.calls
  saved := h.saved

/-- **One step**: the memory copy follows the table. -/
theorem Tracks.step (hurl : OriginsParse newUrl) (h : e.Tracks newUrl pins)
    (hu : e.UpToDate a) (hr : e.Readable a) (hs : Step newUrl pins e a e') :
    e'.Tracks newUrl pins := by
  cases hs with
  | hit => exact h
  | miss => exact h.append (by rintro _ ⟨⟩)
  | update hcopy => exact h.append ⟨(h.cached _ hcopy).1, (h.cached _ hcopy).2, hr⟩
  | updateMiss => exact h.append (by rintro _ ⟨⟩; exact hr)
  | reads hcall =>
    have htracks := h.calls _ (List.mem_of_getElem? hcall)
    exact h.set hcall (by simp) ⟨Copy.follows_taken e.table e.writes, htracks⟩
  | @writes i patch next hcall =>
    obtain ⟨hle, heq, hsettled, hback⟩ := h.calls _ (List.mem_of_getElem? hcall)
    refine ⟨fun copy hcopy => ⟨(h.cached copy hcopy).1.write, (h.cached copy hcopy).2⟩,
      fun copy _ => .inr ⟨_, List.mem_set (List.getElem?_eq_some_iff.mp hcall).1 _⟩, ?_, ?_⟩
    · intro call hmem
      rcases List.mem_or_eq_of_mem_set hmem with hmem | rfl
      · exact (h.calls call hmem).write
      · exact ⟨Copy.Follows.wrote next hle heq, hsettled⟩
    · intro key value hsaved
      rcases hrow : rowsOf patch next.value key with _ | written
      · simp only [hrow, Option.none_or] at hsaved
        simp only [Table.putMany, hrow, Option.map_none, Option.none_or]
        exact h.saved key value hsaved
      · simp only [hrow, Option.some_or, Option.some.injEq] at hsaved
        subst hsaved
        simp only [Table.putMany, hrow, Option.map_some, Option.some_or]
        exact ⟨trivial, hback key written hrow⟩
  | throws hcall hne => exact h.eraseIdx hcall hne
  | fillsGet hcall =>
    obtain ⟨hfollows, _⟩ := h.calls _ (List.mem_of_getElem? hcall)
    refine (h.eraseIdx hcall (by simp)).fill (hfollows.map _) (hu _ hcall) ?_
    exact settled_read hurl (hr _ hcall)
  | fillsUpdate hcall =>
    obtain ⟨hfollows, hreadable⟩ := h.calls _ (List.mem_of_getElem? hcall)
    have hsettled := @settled_read newUrl pins _ hurl (hr _ hcall)
    refine (h.set hcall (by simp) ?_).fill (hfollows.map _) (hu _ hcall) hsettled
    exact ⟨hfollows.map _, hsettled, hreadable _ rfl⟩
  | refuses hcall => exact h.eraseIdx hcall (by simp)
  | prepares hcall hnext =>
    obtain ⟨hfollows, hsettled, hreadable⟩ := h.calls _ (List.mem_of_getElem? hcall)
    have hwritten := written_of_prepare hurl hreadable hsettled hnext
    refine h.set hcall (by simp) ⟨hfollows.le, fun hseen => ?_, hwritten.settled,
      fun key value hrow => (rowsOf_eq_some hwritten hrow).2⟩
    rw [hfollows.eq hseen] at hwritten
    exact read_putMany hreadable hwritten
  | preparesNothing hcall hnext hnothing =>
    obtain ⟨hfollows, hsettled, hreadable⟩ := h.calls _ (List.mem_of_getElem? hcall)
    have hwritten := written_of_prepare hurl hreadable hsettled hnext
    refine h.set hcall (by simp) ⟨⟨hfollows.le, fun hseen => ?_⟩, hwritten.settled⟩
    rw [hfollows.eq hseen] at hwritten
    refine (read_putMany hreadable hwritten).trans ?_
    rw [show rowsOf _ _ = fun _ => none from funext hnothing, putMany_none]
  | keeps hcall =>
    obtain ⟨hfollows, hsettled⟩ := h.calls _ (List.mem_of_getElem? hcall)
    -- Nothing is pending once the copy is up to date, so the call may go.
    refine ⟨?_, ?_, fun call hmem => h.calls call (List.mem_of_mem_eraseIdx hmem), h.saved⟩
    · rintro _ ⟨⟩
      exact ⟨hfollows, settled_applyPins hsettled⟩
    · rintro _ ⟨⟩
      exact .inl (hu _ hcall)
  | invalidate => exact ⟨(by simp), (by simp), h.calls, h.saved⟩
  | restart => exact
      ⟨by intros; contradiction, by intros; contradiction, by simp [Service.restart], h.saved⟩

theorem Tracks.answer (h : e.Tracks newUrl pins) (hquiet : e.calls = []) :
    e.answer newUrl pins = e.table.read newUrl pins := by
  rcases hcached : e.cached with _ | copy
  · rw [Service.answer, hcached]
    rfl
  · have hseen : copy.seen = e.writes := by
      refine (h.pending copy hcached).elim id ?_
      rintro ⟨next, hnext⟩
      rw [hquiet] at hnext
      cases hnext
    rw [Service.answer, hcached]
    exact (h.cached copy hcached).1.eq hseen

theorem Tracks.staysSaved (h : e.Tracks newUrl pins) (hquiet : e.calls = []) :
    e.StaysSaved newUrl pins where
  table key value hsaved := (h.saved key value hsaved).1
  answers key value hpin hsaved := by
    obtain ⟨hrow, hback⟩ := h.saved key value hsaved
    rw [h.answer hquiet, read_of_row hrow hback, hpin]
    rfl
  restarts := (h.answer hquiet).symm

/-- A saved setting stays saved in every run in which no copy is put in place that another write
overtook, and what is written can be read back. -/
theorem staysSaved_of_upToDate (hurl : OriginsParse newUrl) {table : Table} {as : List Act}
    (h : LabelledRun.Run (step newUrl pins) (fun e a => UpToDate e a ∧ Readable e a) (boot table)
      as e) (hquiet : e.calls = []) : e.StaysSaved newUrl pins := by
  have htracks : e.Tracks newUrl pins := by
    refine h.invariant (I := fun e : Service => e.Tracks newUrl pins) ?_ (tracks_boot table)
    rintro e a e' hi ⟨hu, hr⟩ hs
    exact hi.step hurl hu hr (Step.of_step hs)
  exact htracks.staysSaved hquiet

/-- `URL`, of one address. -/
def oneUrl (text : String) : Option Url :=
  if text = "http://mcs.example.org" ∨ text = "http://mcs.example.org/" then
    some ⟨"http:", "http://mcs.example.org"⟩
  else none

theorem originsParse_oneUrl : OriginsParse oneUrl := by
  intro text parsed hparsed _
  obtain ⟨_, heq⟩ := Option.ite_none_right_eq_some.mp hparsed
  cases heq
  exact ⟨by decide, by decide, _, rfl, .inl rfl, rfl⟩

def only (field : Field) (value : Json) : Patch :=
  fun key => if key = field then .value value else .missing

def emptyTable : Table := ⟨fun _ => none, none, none⟩

/-- Two updates, one after the other, and a start between them. -/
def inTurn : List Act :=
  [.update (only .publicUrl (.string " http://mcs.example.org/")), .repository 0, .resume 0,
    .resume 0, .repository 0, .resume 0, .restart, .update (only .queuePaused (.bool true)),
    .repository 0, .resume 0, .resume 0, .repository 0, .resume 0]

theorem staysSaved_of_upToDate_inTurn :
    ∃ e, LabelledRun.exec (step oneUrl ⟨none⟩) (fun e a => UpToDate e a ∧ Readable e a)
        (boot emptyTable) inTurn = some e ∧ e.StaysSaved oneUrl ⟨none⟩ := by
  have hrun : (LabelledRun.exec (step oneUrl ⟨none⟩) (fun e a => UpToDate e a ∧ Readable e a)
      (boot emptyTable) inTurn).any (·.calls.isEmpty) = true := by decide +kernel
  obtain ⟨e, he, hquiet⟩ := (Option.any_eq_true ..).mp hrun
  exact ⟨e, he, staysSaved_of_upToDate originsParse_oneUrl (.ofExec he)
    (List.isEmpty_iff.mp hquiet)⟩

def twoUpdates : List Act :=
  [.update (only .maxParallelTransfers (.number 5)), .update (only .queuePaused (.bool true)),
    .repository 0, .repository 1, .resume 0, .resume 0, .resume 1, .resume 1, .repository 0,
    .repository 1, .resume 0, .resume 0]

def numberOf : Option Json → Option ℚ
  | some (.number n) => some n
  | _ => none

theorem eq_of_numberOf {value : Option Json} {n : ℚ} (h : numberOf value = some n) :
    value = some (.number n) := by
  unfold numberOf at h
  split at h <;> cases h
  rfl

/-- The second update puts back the number of transfers the first one changed. -/
theorem not_staysSaved_twoUpdates :
    ¬ ∀ (newUrl : String → Option Url) (pins : Pins) (table : Table) (as : List Act) (e : Service),
      OriginsParse newUrl →
      LabelledRun.Run (step newUrl pins) LabelledRun.Free (boot table) as e → e.calls = [] →
      e.StaysSaved newUrl pins := by
  intro h
  have hrun : (LabelledRun.exec (step oneUrl ⟨none⟩) LabelledRun.Free (boot emptyTable)
      twoUpdates).any (fun e => e.calls.isEmpty ∧
        numberOf (e.saved .maxParallelTransfers) = some 5 ∧
        numberOf (e.answer oneUrl ⟨none⟩ .maxParallelTransfers) = some 3) = true := by
    decide +kernel
  obtain ⟨e, he, hend⟩ := (Option.any_eq_true ..).mp hrun
  obtain ⟨hquiet, hsaved, hanswer⟩ := of_decide_eq_true hend
  have hstays := h oneUrl ⟨none⟩ emptyTable twoUpdates e originsParse_oneUrl (.ofExec he)
    (List.isEmpty_iff.mp hquiet)
  rw [hstays.answers .maxParallelTransfers _ rfl (eq_of_numberOf hsaved)] at hanswer
  revert hanswer
  decide

end Service

end MediaCenterSync.SettingsService
