import MediaCenterSync.Lib.Lists
import MediaCenterSync.Releases.Correct.Neutral

/-!
# What a pass does to what people ask for

A pass reads every live row at its start and writes each of them whole when its turn comes, minutes
later where a placement goes before it.  As long as nobody writes a row that another program has read
and may still write or place by (`Undisturbed`), no request is lost: a destination that was accepted
is the one the row keeps and its files are placed by, an archived row stays gone, and a paused row
stays paused until the client is asked again: `no_action_lost`.
-/

namespace MediaCenterSync.Releases

open Function (update)
open LabelledRun (Free Run)
open Program (Comes Only Tracks)
open Threads (Action Beside Pool Thread)

/-! ### What the log says -/

def redirectedTo (log : List Event) (id : String) : Option Destination :=
  log.foldl
    (fun last event =>
      match event with
      | .redirected other destination => if other = id then some destination else last
      | _ => last)
    none

/-- The row was paused, and since then neither resumed nor archived, nor was the client asked. -/
def standing (log : List Event) (id : String) : Bool :=
  log.foldl
    (fun paused event =>
      match event with
      | .paused other => if other = id then true else paused
      | .resumed other | .archived other => if other = id then false else paused
      | .asked => false
      | _ => paused)
    false

theorem redirectedTo_append (log : List Event) (event : Event) (id : String) :
    redirectedTo (log ++ [event]) id =
      match event with
      | .redirected other destination =>
        if other = id then some destination else redirectedTo log id
      | _ => redirectedTo log id :=
  List.foldl_append

theorem standing_append (log : List Event) (event : Event) (id : String) :
    standing (log ++ [event]) id =
      match event with
      | .paused other => if other = id then true else standing log id
      | .resumed other | .archived other => if other = id then false else standing log id
      | .asked => false
      | _ => standing log id :=
  List.foldl_append

theorem standing_of_paused {id : String} {before after : List Event} (hasked : .asked ∉ after)
    (hresumed : .resumed id ∉ after) (harchived : .archived id ∉ after) :
    standing (before ++ .paused id :: after) id = true := by
  induction after using List.reverseRecOn with
  | nil => rw [standing_append]; exact if_pos rfl
  | append_singleton after event ih =>
    rw [← List.cons_append, ← List.append_assoc, standing_append]
    have ih := ih (fun h => hasked (List.mem_append_left _ h))
      (fun h => hresumed (List.mem_append_left _ h)) fun h => harchived (List.mem_append_left _ h)
    have hlast : event ∈ after ++ [event] := List.mem_append_right _ List.mem_cons_self
    cases event with
    | paused other => dsimp only; split_ifs <;> trivial
    | resumed other =>
      have hne : other ≠ id := by
        rintro rfl
        exact hresumed hlast
      dsimp only
      rwa [if_neg hne]
    | archived other =>
      have hne : other ≠ id := by
        rintro rfl
        exact harchived hlast
      dsimp only
      rwa [if_neg hne]
    | asked => exact absurd hlast hasked
    | redirected | inserted | resolved => exact ih

/-! ### What a program holds -/

/-- An operation that writes a row, or places its file, from a copy that was read. -/
def UsesCopy (id : String) : Op → Prop
  | .save grab => grab.id = id
  | .resolve other _ => other = id
  | _ => False

def Reads (id : String) : Op → Prop
  | .findLive => True
  | .findOne other => other = id
  | _ => False

/-- The program has a copy of a row that it may still write or place by. -/
abbrev Holds (id : String) (program : Script Unit) : Prop := Comes (UsesCopy id) (Reads id) program

/-- People's calls write no row that another program holds. -/
def Undisturbed (call : Call) (op : Op) (thread : Thread Op Op.Answer Call) : Prop :=
  match call, op with
  | .poll, _ => True
  | _, .save grab => ¬ Holds grab.id thread.rest
  | _, .delete id => ¬ Holds id thread.rest
  | _, _ => True

/-- The placement is asked for the destination somebody named. -/
def FilingRequest.Follows (request : FilingRequest) (destination : Destination) : Prop :=
  request.preferredLibraryId = destination.libraryId ∧
    ∀ folder, destination.folder = some folder → request.pinnedPath = some folder

/-! ### What a program keeps track of -/

/-- The copies a program has, and whether it asked the client since it read them. -/
structure Copies where
  copy : String → Option ReleaseGrab
  asked : Bool

namespace Copies

def after (K : Copies) : (op : Op) → op.Answer → Copies
  | .findLive, live => ⟨Table.find (·.id) live, false⟩
  | .findOne id, found => { K with copy := update K.copy id found }
  | .save grab, _ => { K with copy := update K.copy grab.id (some grab) }
  | .delete id, _ => { K with copy := update K.copy id none }
  | .statuses _, _ => { K with asked := true }
  | _, _ => K

/-- What a call may write over the copy it has. -/
def Writes (K : Copies) (call : Call) (copy grab : ReleaseGrab) : Prop :=
  match call with
  | .poll => grab.destination = copy.destination ∧ K.asked = true
  | .setDestination _ _ _ => grab.state = copy.state
  | .pause _ => grab.destination = copy.destination ∧ grab.state = .PAUSED
  | .resume _ => grab.destination = copy.destination
  | .archive _ => False

def Allows (call : Call) (K : Copies) : Op → Prop
  | .save grab => ∃ copy, K.copy grab.id = some copy ∧ K.Writes call copy grab
  | .resolve id request => ∃ copy, K.copy id = some copy ∧ request.Follows copy.destination
  | .delete _ => ∃ id, call = .archive id
  | .findOne _ => call ≠ .poll
  | _ => True

/-- What the rows may answer: a key has one row, and a row is found by its own. -/
def Answers : (op : Op) → op.Answer → Prop
  | .findLive, live => (live.map (·.id)).Nodup
  | .findOne id, found => ∀ row, found = some row → row.id = id
  | _, _ => True

abbrev Tracked (call : Call) (program : Script Unit) (K : Copies) : Prop :=
  Tracks Answers (Allows call) after (fun _ _ => True) program K

/-- A call that writes a row later will not undo that it was paused: a pass asks the client first,
and the others have read that it was. -/
def KeepsPause (K : Copies) (call : Call) (copy : ReleaseGrab) : Prop :=
  match call with
  | .poll => K.asked = false
  | _ => copy.state = .PAUSED

/-- A copy is what the row says: its destination, and whether it was paused. -/
structure Agrees (s : Shared) (call : Call) (K : Copies) (id : String) (copy : ReleaseGrab) :
    Prop where
  row : ∃ row, Table.find (·.id) s.rows id = some row ∧ row.destination = copy.destination
  paused : standing s.log id = true → K.KeepsPause call copy

/-- The copies a program holds are what the rows say. -/
def Current (s : Shared) (call : Call) (K : Copies) (program : Script Unit) : Prop :=
  ∀ id copy, K.copy id = some copy → Holds id program → Agrees s call K id copy

end Copies

/-! ### One operation -/

structure Sound (s : Shared) : Prop where
  nodup : (s.rows.map (·.id)).Nodup
  /-- A row has the destination that was accepted last. -/
  redirected : ∀ {id destination row}, redirectedTo s.log id = some destination →
    Table.find (·.id) s.rows id = some row → row.destination = destination
  archived : ∀ {id}, .archived id ∈ s.log → Table.find (·.id) s.rows id = none
  inserted : ∀ {id}, .inserted id ∉ s.log
  paused : ∀ {id}, standing s.log id = true →
    ∃ row, Table.find (·.id) s.rows id = some row ∧ row.state = .PAUSED
  /-- A file was placed by the destination that was accepted last. -/
  resolved : ∀ {before after id request destination},
    s.log = before ++ .resolved id request :: after →
      redirectedTo before id = some destination → request.Follows destination

theorem perform_save {s : Shared} {grab row : ReleaseGrab}
    (hrow : Table.find (·.id) s.rows grab.id = some row) (call : Call)
    (answer : (Op.save grab).Answer) : perform call s (.save grab) answer =
      ({ rows := Table.save (·.id) s.rows grab, log := s.log ++ savedBy call grab }, ()) := by
  simp only [perform, hrow, Option.isNone_some, Bool.false_eq_true, if_false, List.nil_append]
  rfl

theorem mem_savedBy {call : Call} {grab : ReleaseGrab} {event : Event}
    (h : event ∈ savedBy call grab) : event = .redirected grab.id grab.destination ∨
      event = .paused grab.id ∨ event = .resumed grab.id := by
  cases call <;> simp [savedBy] at h
  · exact .inl h
  · exact .inr (.inl h)
  · exact .inr (.inr h)

theorem standing_savedBy (log : List Event) (call : Call) (grab : ReleaseGrab) (id : String) :
    standing (log ++ savedBy call grab) id =
      match call with
      | .pause _ => if grab.id = id then true else standing log id
      | .resume _ => if grab.id = id then false else standing log id
      | _ => standing log id := by
  cases call with
  | poll | archive => exact congrArg (standing · id) (List.append_nil log)
  | setDestination | pause | resume => exact standing_append log _ id

theorem standing_of_standing_savedBy {log : List Event} {call : Call} {grab : ReleaseGrab}
    {id : String} (hne : id ≠ grab.id) (h : standing (log ++ savedBy call grab) id = true) :
    standing log id = true := by
  rw [standing_savedBy] at h
  cases call with
  | poll | archive | setDestination => exact h
  | pause | resume =>
    dsimp only at h
    rwa [if_neg hne.symm] at h

theorem redirectedTo_savedBy (log : List Event) (call : Call) (grab : ReleaseGrab) (id : String) :
    redirectedTo (log ++ savedBy call grab) id =
      match call with
      | .setDestination _ _ _ =>
        if grab.id = id then some grab.destination else redirectedTo log id
      | _ => redirectedTo log id := by
  cases call with
  | poll | archive => exact congrArg (redirectedTo · id) (List.append_nil log)
  | setDestination | pause | resume => exact redirectedTo_append log _ id

theorem redirectedTo_savedBy_of_ne {log : List Event} {call : Call} {grab : ReleaseGrab}
    {id : String} (hne : id ≠ grab.id) :
    redirectedTo (log ++ savedBy call grab) id = redirectedTo log id := by
  rw [redirectedTo_savedBy]
  cases call with
  | poll | archive | pause | resume => rfl
  | setDestination => exact if_neg hne.symm

theorem resolved_append {log events : List Event}
    (h : ∀ {before after id request destination}, log = before ++ .resolved id request :: after →
      redirectedTo before id = some destination → request.Follows destination)
    (hevents : ∀ id request, .resolved id request ∉ events)
    {before after : List Event} {id : String} {request : FilingRequest} {destination : Destination}
    (hlog : log ++ events = before ++ .resolved id request :: after)
    (hlast : redirectedTo before id = some destination) : request.Follows destination := by
  rcases History.append_eq_append_cons hlog with ⟨after', hold, -⟩ | ⟨before', -, hnew⟩
  · exact h hold hlast
  · exact absurd (hnew ▸ List.mem_append_right _ List.mem_cons_self) (hevents id request)

theorem sound_save {s : Shared} (h : Sound s) {call : Call} {K : Copies}
    {grab copy row : ReleaseGrab} (hwrites : K.Writes call copy grab)
    (hrow : Table.find (·.id) s.rows grab.id = some row)
    (hdestination : row.destination = copy.destination)
    (hstanding : standing s.log grab.id = true → K.KeepsPause call copy) :
    Sound { rows := Table.save (·.id) s.rows grab, log := s.log ++ savedBy call grab } where
  nodup := Table.nodup_save h.nodup
  redirected := by
    intro id destination found hlast hfound
    by_cases hid : id = grab.id
    · subst hid
      rw [Table.find_save_self] at hfound
      cases hfound
      rw [redirectedTo_savedBy] at hlast
      cases call with
      -- A poll and a pause keep the destination they read, which is still the row's.
      | poll => exact hwrites.1.trans (hdestination.symm.trans (h.redirected hlast hrow))
      | setDestination =>
        dsimp only at hlast
        rw [if_pos rfl] at hlast
        exact Option.some.inj hlast
      | pause => exact hwrites.1.trans (hdestination.symm.trans (h.redirected hlast hrow))
      | resume => exact Eq.trans hwrites (hdestination.symm.trans (h.redirected hlast hrow))
      | archive => exact hwrites.elim
    · rw [redirectedTo_savedBy_of_ne hid] at hlast
      rw [Table.find_save_of_ne hid] at hfound
      exact h.redirected hlast hfound
  -- A row that was archived is not there to be saved.
  archived := by
    intro id hin
    have hold : .archived id ∈ s.log := by
      rcases List.mem_append.mp hin with hold | hnew
      · exact hold
      · rcases mem_savedBy hnew with heq | heq | heq <;> cases heq
    have hid : id ≠ grab.id := by
      rintro rfl
      rw [h.archived hold] at hrow
      cases hrow
    rw [Table.find_save_of_ne hid]
    exact h.archived hold
  inserted := by
    intro id hin
    rcases List.mem_append.mp hin with hold | hnew
    · exact h.inserted hold
    · rcases mem_savedBy hnew with heq | heq | heq <;> cases heq
  paused := by
    intro id hnow
    by_cases hid : id = grab.id
    · subst hid
      refine ⟨grab, Table.find_save_self, ?_⟩
      rw [standing_savedBy] at hnow
      cases call with
      | poll => exact absurd (hwrites.2.symm.trans (hstanding hnow)) (by decide)
      | setDestination => exact Eq.trans hwrites (hstanding hnow)
      | pause => exact hwrites.2
      | resume =>
        dsimp only at hnow
        rw [if_pos rfl] at hnow
        exact absurd hnow (by decide)
      | archive => exact hwrites.elim
    · rw [Table.find_save_of_ne hid]
      exact h.paused (standing_of_standing_savedBy hid hnow)
  resolved := by
    intro before after id request destination hlog hlast
    refine resolved_append h.resolved (fun id request hin => ?_) hlog hlast
    rcases mem_savedBy hin with heq | heq | heq <;> cases heq

theorem sound_delete {s : Shared} (h : Sound s) (id : String) :
    Sound { rows := Table.delete (·.id) s.rows id, log := s.log ++ [.archived id] } where
  nodup := Table.nodup_delete h.nodup id
  redirected := by
    intro other destination found hlast hfound
    have hid : other ≠ id := by
      rintro rfl
      rw [Table.find_delete_self] at hfound
      cases hfound
    rw [Table.find_delete_of_ne hid] at hfound
    rw [redirectedTo_append] at hlast
    exact h.redirected hlast hfound
  archived := by
    intro other hin
    by_cases hid : other = id
    · rw [hid]
      exact Table.find_delete_self
    · rw [Table.find_delete_of_ne hid]
      refine h.archived ((List.mem_append.mp hin).resolve_right fun hnew => hid ?_)
      simpa using hnew
  inserted := by
    intro other hin
    rcases List.mem_append.mp hin with hold | hnew
    · exact h.inserted hold
    · simp at hnew
  paused := by
    intro other hnow
    rw [standing_append] at hnow
    dsimp only at hnow
    split_ifs at hnow with hid
    rw [Table.find_delete_of_ne (Ne.symm hid)]
    exact h.paused hnow
  resolved := resolved_append h.resolved (by simp)

theorem sound_asked {s : Shared} (h : Sound s) : Sound { s with log := s.log ++ [.asked] } where
  nodup := h.nodup
  redirected := by
    intro id destination row hlast
    rw [redirectedTo_append] at hlast
    exact h.redirected hlast
  archived := fun hin => h.archived (by simpa using hin)
  inserted := fun hin => h.inserted (by simpa using hin)
  paused := by
    intro id hnow
    rw [standing_append] at hnow
    cases hnow
  resolved := resolved_append h.resolved (by simp)

theorem sound_resolved {s : Shared} (h : Sound s) {id : String} {request : FilingRequest}
    {copy row : ReleaseGrab} (hfollows : request.Follows copy.destination)
    (hrow : Table.find (·.id) s.rows id = some row)
    (hdestination : row.destination = copy.destination) :
    Sound { s with log := s.log ++ [.resolved id request] } where
  nodup := h.nodup
  redirected := by
    intro other destination row hlast
    rw [redirectedTo_append] at hlast
    exact h.redirected hlast
  archived := fun hin => h.archived (by simpa using hin)
  inserted := fun hin => h.inserted (by simpa using hin)
  paused := by
    intro other hnow
    rw [standing_append] at hnow
    exact h.paused hnow
  resolved := by
    intro before after other asked destination hlog hlast
    rcases History.append_singleton_eq_append_cons hlog with ⟨after', hold, -⟩ | ⟨rfl, heq, -⟩
    · exact h.resolved hold hlast
    · obtain ⟨rfl, rfl⟩ := Event.resolved.inj heq
      rw [← h.redirected hlast hrow, hdestination]
      exact hfollows

/-- What a thread says of the rows: its copies let it do what it will, and are what the rows are. -/
def Rely (s : Shared) (thread : Thread Op Op.Answer Call) : Prop :=
  ∃ K, Copies.Tracked thread.call thread.rest K ∧ K.Current s thread.call thread.rest

section Steps

variable {s : Shared} {call : Call} {op : Op} {next : op.Answer → Script Unit} {K : Copies}

/-- What a call held before an operation that read nothing and wrote nothing is as it was. -/
theorem current_next (h : K.Current s call (.perform op next)) {r : op.Answer}
    (hreads : ∀ id, ¬ Reads id op) {s' : Shared} (hrows : s'.rows = s.rows)
    (hstanding : ∀ id, standing s'.log id = true → standing s.log id = true) :
    K.Current s' call (next r) := by
  intro id copy hcopy hholds
  obtain ⟨hrow, hpaused⟩ := h id copy hcopy (.later r (hreads id) hholds)
  exact ⟨by rwa [hrows], fun hnow => hpaused (hstanding id hnow)⟩

theorem agrees_read (h : Sound s) {id : String} {row : ReleaseGrab}
    (hrow : Table.find (·.id) s.rows id = some row) (hasked : call = .poll → K.asked = false) :
    Copies.Agrees s call K id row := by
  refine ⟨⟨row, hrow, rfl⟩, fun hnow => ?_⟩
  obtain ⟨found, hfound, hstate⟩ := h.paused hnow
  obtain rfl := Option.some.inj (hrow.symm.trans hfound)
  cases call with
  | poll => exact hasked rfl
  | setDestination | pause | resume | archive => exact hstate

theorem agrees_save {grab copy : ReleaseGrab} (hwrites : K.Writes call copy grab)
    (hstanding : standing s.log grab.id = true → K.KeepsPause call copy) (answer : Unit) :
    Copies.Agrees { rows := Table.save (·.id) s.rows grab, log := s.log ++ savedBy call grab } call
      (K.after (.save grab) answer) grab.id grab := by
  refine ⟨⟨grab, Table.find_save_self, rfl⟩, fun hnow => ?_⟩
  rw [standing_savedBy] at hnow
  cases call with
  | poll => exact hstanding hnow
  | setDestination => exact Eq.trans hwrites (hstanding hnow)
  | pause => exact hwrites.2
  | resume =>
    dsimp only at hnow
    rw [if_pos rfl] at hnow
    exact absurd hnow (by decide)
  | archive => exact hwrites.elim

theorem answers_perform {s : Shared} (h : (s.rows.map (·.id)).Nodup) (call : Call) (op : Op)
    (world : op.Answer) : Copies.Answers op (perform call s op world).2 := by
  cases op with
  | findLive => exact h.sublist (List.filter_sublist.map _)
  | findOne id => exact fun row hrow => Table.key_of_find hrow
  | _ => trivial

/-- The thread that performs an operation leaves the rows sound, and relies on what it left. -/
theorem own_step (world : op.Answer) (hsound : Sound s) (hrely : Rely s ⟨call, .perform op next⟩) :
    Sound (perform call s op world).1 ∧
      Rely (perform call s op world).1 ⟨call, next (perform call s op world).2⟩ := by
  obtain ⟨K, ⟨hallows, htracked⟩, hcurrent⟩ := hrely
  have htracked := htracked _ (answers_perform hsound.nodup call op world)
  -- The copies the thread holds are current again after its own operation.
  cases op with
  | findLive =>
    refine ⟨hsound, _, htracked, fun id copy hcopy _ => agrees_read hsound ?_ fun _ => rfl⟩
    have hlive := Table.mem_of_find hcopy
    rw [← Table.key_of_find hcopy]
    exact Table.find_of_mem hsound.nodup (List.mem_of_mem_filter hlive)
  -- Only this copy is new; the others are what they were.
  | findOne id =>
    refine ⟨hsound, _, htracked, fun other copy hcopy hholds => ?_⟩
    by_cases hid : other = id
    · subst hid
      have hfound : Table.find (·.id) s.rows other = some copy := by
        simpa [perform, Copies.after] using hcopy
      exact agrees_read hsound hfound fun hpoll => absurd hpoll hallows
    · have hold : K.copy other = some copy := (Function.update_of_ne hid _ _).symm.trans hcopy
      obtain ⟨hrow, hkept⟩ := hcurrent other copy hold (.later _ (Ne.symm hid) hholds)
      exact ⟨hrow, hkept⟩
  | save grab =>
    obtain ⟨copy, hcopy, hwrites⟩ := hallows
    obtain ⟨⟨row, hrow, hdestination⟩, hstanding⟩ := hcurrent _ _ hcopy (.here rfl)
    rw [perform_save hrow]
    refine ⟨sound_save hsound hwrites hrow hdestination hstanding, _, htracked, ?_⟩
    intro other held hheld hholds
    by_cases hid : other = grab.id
    · subst hid
      obtain rfl : grab = held := by simpa [Copies.after] using hheld
      exact agrees_save hwrites hstanding ()
    · have hold : K.copy other = some held := by
        simpa [Copies.after, Function.update_of_ne hid] using hheld
      obtain ⟨⟨found, hfound, hsame⟩, hkept⟩ :=
        hcurrent other held hold (.later () (fun h => h) hholds)
      refine ⟨⟨found, ?_, hsame⟩, fun hnow => hkept (standing_of_standing_savedBy hid hnow)⟩
      rwa [Table.find_save_of_ne hid]
  | delete id =>
    refine ⟨sound_delete hsound id, _, htracked, fun other held hheld hholds => ?_⟩
    have hid : other ≠ id := by
      rintro rfl
      simp [Copies.after] at hheld
    have hold : K.copy other = some held := by
      simpa [Copies.after, Function.update_of_ne hid] using hheld
    obtain ⟨⟨found, hfound, hsame⟩, hkept⟩ :=
      hcurrent other held hold (.later () (fun h => h) hholds)
    refine ⟨⟨found, ?_, hsame⟩, fun hnow => hkept ?_⟩
    · exact (Table.find_delete_of_ne hid).trans hfound
    · rw [perform, standing_append] at hnow
      dsimp only at hnow
      split_ifs at hnow
      exact hnow
  | statuses tracked =>
    refine ⟨sound_asked hsound, _, htracked, fun id copy hcopy hholds => ?_⟩
    obtain ⟨hrow, -⟩ := hcurrent id copy hcopy (.later _ (fun h => h) hholds)
    refine ⟨hrow, fun hnow => ?_⟩
    rw [perform, standing_append] at hnow
    cases hnow
  | resolve id request =>
    obtain ⟨copy, hcopy, hfollows⟩ := hallows
    obtain ⟨⟨row, hrow, hdestination⟩, -⟩ := hcurrent _ _ hcopy (.here rfl)
    refine ⟨sound_resolved hsound hfollows hrow hdestination, _, htracked, ?_⟩
    refine current_next hcurrent (fun id h => h) rfl fun id hnow => ?_
    rwa [perform, standing_append] at hnow
  -- The other operations read nothing of the rows and write none.
  | _ => exact ⟨hsound, _, htracked, current_next hcurrent (fun _ h => h) rfl fun _ h => h⟩

/-- The others rely on what is left too, where they are not disturbed. -/
theorem other_step (world : op.Answer) (hrely : Rely s ⟨call, .perform op next⟩)
    {thread : Thread Op Op.Answer Call} (hfree : Undisturbed call op thread)
    (hthread : Rely s thread) : Rely (perform call s op world).1 thread := by
  obtain ⟨K, htracked, hcurrent⟩ := hthread
  refine ⟨K, htracked, fun other held hheld hholds => ?_⟩
  obtain ⟨⟨found, hfound, hsame⟩, hkept⟩ := hcurrent other held hheld hholds
  cases op with
  | save grab =>
    obtain ⟨mine, ⟨⟨copy, hcopy, hwrites⟩, -⟩, hmine⟩ := hrely
    obtain ⟨⟨row, hrow, hdestination⟩, -⟩ := hmine _ _ hcopy (.here rfl)
    rw [perform_save hrow]
    by_cases hid : other = grab.id
    · -- Only a pass writes a row somebody else holds, and it leaves the destination.
      subst hid
      cases call with
      | poll =>
        obtain rfl := Option.some.inj (hfound.symm.trans hrow)
        refine ⟨⟨grab, Table.find_save_self, ?_⟩, fun hnow => hkept ?_⟩
        · rw [hwrites.1, ← hdestination, hsame]
        · rwa [standing_savedBy] at hnow
      | setDestination | pause | resume | archive => exact absurd hholds hfree
    · refine ⟨⟨found, ?_, hsame⟩, fun hnow => hkept (standing_of_standing_savedBy hid hnow)⟩
      rwa [Table.find_save_of_ne hid]
  | delete id =>
    obtain ⟨mine, ⟨⟨archived, hcall⟩, -⟩, -⟩ := hrely
    obtain rfl : call = .archive archived := hcall
    have hid : other ≠ id := by
      rintro rfl
      exact hfree hholds
    refine ⟨⟨found, ?_, hsame⟩, fun hnow => hkept ?_⟩
    · exact (Table.find_delete_of_ne hid).trans hfound
    · rw [perform, standing_append] at hnow
      dsimp only at hnow
      split_ifs at hnow
      exact hnow
  | statuses tracked =>
    refine ⟨⟨found, hfound, hsame⟩, fun hnow => ?_⟩
    rw [perform, standing_append] at hnow
    cases hnow
  | resolve id request =>
    refine ⟨⟨found, hfound, hsame⟩, fun hnow => hkept ?_⟩
    rwa [perform, standing_append] at hnow
  | _ => exact ⟨⟨found, hfound, hsame⟩, hkept⟩

end Steps

/-! ### What the programs do -/

namespace Copies

/-- The pass has asked the client, and has a copy of a row with the destination it has. -/
structure Has (K : Copies) (grab : ReleaseGrab) : Prop where
  asked : K.asked = true
  copy : ∃ copy, K.copy grab.id = some copy ∧ copy.destination = grab.destination

structure Kept (K K' : Copies) : Prop where
  asked : K.asked = true → K'.asked = true
  copy : ∀ id copy, K.copy id = some copy →
    ∃ copy', K'.copy id = some copy' ∧ copy'.destination = copy.destination

theorem Kept.refl (K : Copies) : Kept K K :=
  ⟨id, fun _ copy hcopy => ⟨copy, hcopy, rfl⟩⟩

theorem Kept.trans {K K' K'' : Copies} (h : Kept K K') (h' : Kept K' K'') : Kept K K'' := by
  refine ⟨fun hasked => h'.asked (h.asked hasked), fun id copy hcopy => ?_⟩
  obtain ⟨copy', hcopy', hsame⟩ := h.copy id copy hcopy
  obtain ⟨copy'', hcopy'', hsame'⟩ := h'.copy id copy' hcopy'
  exact ⟨copy'', hcopy'', hsame'.trans hsame⟩

theorem Has.kept {K K' : Copies} {grab : ReleaseGrab} (h : Has K grab) (hkept : Kept K K') :
    Has K' grab := by
  obtain ⟨copy, hcopy, hsame⟩ := h.copy
  obtain ⟨copy', hcopy', hsame'⟩ := hkept.copy _ copy hcopy
  exact ⟨hkept.asked h.asked, copy', hcopy', hsame'.trans hsame⟩

theorem Has.same {K : Copies} {grab grab' : ReleaseGrab} (h : Has K grab) (hid : grab'.id = grab.id)
    (hdestination : grab'.destination = grab.destination) : Has K grab' := by
  obtain ⟨copy, hcopy, hsame⟩ := h.copy
  exact ⟨h.asked, copy, by rwa [hid], hsame.trans hdestination.symm⟩

theorem Has.allows {K : Copies} {grab : ReleaseGrab} (h : Has K grab) :
    Allows .poll K (.save grab) := by
  obtain ⟨copy, hcopy, hsame⟩ := h.copy
  exact ⟨copy, hcopy, hsame.symm, h.asked⟩

theorem Has.kept_save {K : Copies} {grab : ReleaseGrab} (h : Has K grab) (answer : Unit) :
    Kept K (K.after (.save grab) answer) := by
  obtain ⟨mine, hmine, hsame⟩ := h.copy
  refine ⟨fun hasked => hasked, fun id copy hcopy => ?_⟩
  by_cases hid : id = grab.id
  · subst hid
    obtain rfl := Option.some.inj (hmine.symm.trans hcopy)
    exact ⟨grab, Function.update_self _ _ _, hsame.symm⟩
  · exact ⟨copy, (Function.update_of_ne hid _ _).trans hcopy, rfl⟩

theorem tracks_neutral {α : Type} {call : Call} {p : Script α} {K : Copies} {Q : α → Copies → Prop}
    (h : Only Neutral p) (hQ : ∀ a, Q a K) : Tracks Answers (Allows call) after Q p K := by
  refine h.tracks (fun op hop => ?_) (fun op r hop => ?_) hQ
  · cases op <;> first | exact trivial | exact hop.elim
  · cases op <;> first | rfl | exact hop.elim

/-- What a pass keeps while it works on one row: the row is the same one, with the same destination,
and no copy is lost. -/
def KeepsRow {α : Type} (K : Copies) (grab : ReleaseGrab) (left : ReleaseGrab × α) (K' : Copies) :
    Prop :=
  left.1.id = grab.id ∧ left.1.destination = grab.destination ∧ Kept K K'

def Keeps {α : Type} (x : Filing α) : Prop :=
  ∀ grab K, Has K grab → Tracks Answers (Allows .poll) after (KeepsRow K grab) (x grab) K

variable {α β : Type}

theorem keeps_pure (a : α) : Keeps (pure a : Filing α) :=
  fun _ K _ => ⟨rfl, rfl, Kept.refl K⟩

theorem keeps_throw (reason : String) : Keeps (Filing.throw reason : Filing α) :=
  fun _ K _ => ⟨rfl, rfl, Kept.refl K⟩

theorem keeps_current : Keeps Filing.current :=
  fun _ K _ => ⟨rfl, rfl, Kept.refl K⟩

theorem keeps_change {f : ReleaseGrab → ReleaseGrab}
    (h : ∀ grab, (f grab).id = grab.id ∧ (f grab).destination = grab.destination) :
    Keeps (Filing.change f) :=
  fun grab K _ => ⟨(h grab).1, (h grab).2, Kept.refl K⟩

theorem keeps_save : Keeps Filing.save :=
  fun _ _ hhas => ⟨hhas.allows, fun answer _ => ⟨rfl, rfl, hhas.kept_save answer⟩⟩

theorem keeps_ask {script : Script α} (h : Only Neutral script) : Keeps (Filing.ask script) :=
  fun _ K _ => (tracks_neutral (Q := fun _ K' => K' = K) h fun _ => rfl).bind fun _ K' hK' => by
    subst hK'
    exact ⟨rfl, rfl, Kept.refl K'⟩

theorem Keeps.bind {x : Filing α} {f : α → Filing β} (hx : Keeps x) (hf : ∀ a, Keeps (f a)) :
    Keeps (x >>= f) := by
  intro grab K hhas
  refine (hx grab K hhas).bind fun left K' hleft => ?_
  obtain ⟨grab', answer⟩ := left
  obtain ⟨hid, hdestination, hkept⟩ := hleft
  cases answer with
  | error reason => exact ⟨hid, hdestination, hkept⟩
  | ok a =>
    refine (hf a grab' K' ((hhas.same hid hdestination).kept hkept)).mono fun left K'' hleft => ?_
    obtain ⟨hid', hdestination', hkept'⟩ := hleft
    exact ⟨hid'.trans hid, hdestination'.trans hdestination, hkept.trans hkept'⟩

theorem keeps_change_bind {f : ReleaseGrab → ReleaseGrab} {g : Unit → Filing β}
    (h : ∀ grab, (f grab).id = grab.id ∧ (f grab).destination = grab.destination)
    (hg : Keeps (g ())) : Keeps (Filing.change f >>= g) :=
  (keeps_change h).bind fun _ => hg

theorem keeps_ask_bind {script : Script α} {f : α → Filing β} (h : Only Neutral script)
    (hf : ∀ a, Keeps (f a)) : Keeps (Filing.ask script >>= f) :=
  (keeps_ask h).bind hf

theorem keeps_copy (source destination : TransferManager.Dir) (base total : ℕ) :
    Keeps (Releases.copy source destination base total) := by
  refine fun grab K _ => ⟨trivial, fun moved _ => ?_⟩
  have hsame : (grab.progressed moved base total).id = grab.id ∧
      (grab.progressed moved base total).destination = grab.destination := by
    unfold ReleaseGrab.progressed
    split
    · exact ⟨rfl, rfl⟩
    · exact ⟨rfl, rfl⟩
  exact ⟨hsame.1, hsame.2, Kept.refl K⟩

theorem keeps_targetFor (item : MediaItem) (kind : Nameable → Matching.MediaKind)
    (source : TransferManager.Dir) : Keeps (targetFor item kind source) := by
  intro grab K hhas
  obtain ⟨held, hheld, hsame⟩ := hhas.copy
  have hplaced : ∀ nameable folder,
      (∀ named, grab.targetFolder = some named → folder = some named) →
      Tracks Answers (Allows .poll) after (KeepsRow K grab)
        ((do
          let target ← Filing.attempt <| Ask.resolve grab.id
            { kind := kind nameable
              item := item
              nameable := nameable
              source := source
              pinnedPath := folder
              preferredLibraryId := grab.targetLibraryId }
          Filing.attempt (Ask.prepare target)
          return target : Filing FilingTarget) grab) K := by
    intro nameable folder hfolder
    refine ⟨⟨held, hheld, ?_⟩, fun answer _ => ?_⟩
    · rw [hsame]
      exact ⟨rfl, hfolder⟩
    · rcases answer with _ | target
      · exact ⟨rfl, rfl, Kept.refl K⟩
      · refine ⟨trivial, fun prepared _ => ?_⟩
        rcases prepared with _ | _ <;> exact ⟨rfl, rfl, Kept.refl K⟩
  refine ⟨trivial, fun nameable _ => ?_⟩
  rcases hfolder : grab.targetFolder with _ | named
  · simp only [Filing.next, Bind.bind, Filing.current, Pure.pure, Program.bind, hfolder]
    exact ⟨trivial, fun folder _ => hplaced nameable folder (by simp [hfolder])⟩
  · simp only [Filing.next, Bind.bind, Filing.current, Pure.pure, Program.bind, hfolder]
    exact hplaced nameable (some named) (by simp [hfolder])

theorem keeps_placeFrom (sourcePath : TransferManager.Dir) (total index : ℕ)
    (placements : List GrabPlacement) (filed : Filed) :
    Keeps (placeFrom sourcePath total index placements filed) := by
  induction placements generalizing index filed with
  | nil => exact keeps_pure filed
  | cons placement rest ih =>
    refine (keeps_ask (only_filable placement sourcePath)).bind fun found => ?_
    rcases found with _ | ⟨source, episode⟩
    · exact ih _ _
    · refine (keeps_targetFor episode _ source).bind fun target => ?_
      refine (keeps_copy source target.path _ total).bind fun _ => ?_
      refine keeps_change_bind (fun grab => ⟨rfl, rfl⟩) ?_
      exact keeps_save.bind fun _ => keeps_current.bind fun grab => ih _ _

theorem keeps_placeEach (sourcePath : TransferManager.Dir) : Keeps (placeEach sourcePath) := by
  refine keeps_current.bind fun grab => ?_
  extract_lets total
  refine keeps_change_bind (fun grab => ⟨rfl, rfl⟩) ?_
  refine (keeps_placeFrom sourcePath _ 0 grab.placements ⟨0, 0, []⟩).bind fun filed => ?_
  split_ifs
  · exact keeps_throw _
  · exact keeps_change_bind (fun grab => ⟨rfl, rfl⟩) keeps_save

theorem keeps_largestUnder (sourcePath : TransferManager.Dir) :
    Keeps (largestUnder sourcePath) := by
  have hthrow : Keeps (do
      Filing.throw (← Filing.ask (unreadable sourcePath)) : Filing DiskFile) :=
    (keeps_ask (only_unreadable sourcePath)).bind fun reason => keeps_throw reason
  refine keeps_current.bind fun grab => ?_
  refine keeps_ask_bind (Program.only_ask trivial) fun found => ?_
  split_ifs
  · refine keeps_ask_bind (Program.only_ask trivial) fun files => ?_
    split
    · exact keeps_pure _
    · exact hthrow
  · exact hthrow

theorem keeps_placeLargest (sourcePath : TransferManager.Dir) (item : MediaItem) :
    Keeps (placeLargest sourcePath item) := by
  refine (keeps_largestUnder sourcePath).bind fun file => ?_
  refine (keeps_targetFor item _ file.path).bind fun target => ?_
  refine keeps_change_bind (fun grab => ⟨rfl, rfl⟩) ?_
  refine (keeps_copy file.path target.path 0 0).bind fun _ => ?_
  exact keeps_change_bind (fun grab => ⟨rfl, rfl⟩) keeps_save

theorem keeps_placeOrphan (sourcePath plannedPath : TransferManager.Dir) :
    Keeps (placeOrphan sourcePath plannedPath) := by
  refine (keeps_largestUnder sourcePath).bind fun file => ?_
  extract_lets destination
  refine keeps_change_bind (fun grab => ⟨rfl, rfl⟩) ?_
  refine (keeps_copy file.path _ 0 0).bind fun _ => ?_
  exact keeps_change_bind (fun grab => ⟨rfl, rfl⟩) keeps_save

theorem keeps_placeItem (sourcePath : TransferManager.Dir) (item : MediaItem) :
    Keeps (placeItem sourcePath item) := by
  refine keeps_current.bind fun grab => ?_
  split_ifs
  · exact keeps_placeEach sourcePath
  · refine (keeps_ask (only_spreadOf grab.id sourcePath item)).bind fun spread => ?_
    split_ifs
    · refine keeps_change_bind (fun grab => ⟨rfl, rfl⟩) ?_
      exact keeps_save.bind fun _ => keeps_placeEach sourcePath
    · exact keeps_placeLargest sourcePath item

theorem keeps_locate (client : DownloadClientSettings) : Keeps (locate client) := by
  refine keeps_current.bind fun grab => ?_
  rcases grab.sourcePath with _ | sourcePath
  · exact keeps_throw _
  · refine (keeps_ask (only_reachable sourcePath client)).bind fun found => ?_
    rcases found with _ | path
    · exact keeps_pure _
    · dsimp only
      split_ifs
      · exact keeps_pure _
      · refine keeps_change_bind (fun grab => ⟨rfl, rfl⟩) ?_
        exact keeps_save.bind fun _ => keeps_pure _

theorem keeps_placeGrab (client : DownloadClientSettings) : Keeps (placeGrab client) := by
  refine keeps_current.bind fun grab => ?_
  refine keeps_ask_bind (Program.only_ask trivial) fun item => ?_
  refine (keeps_locate client).bind fun sourcePath => ?_
  rcases item with _ | item
  · rcases grab.plannedPath with _ | plannedPath
    · exact keeps_throw _
    · exact keeps_placeOrphan sourcePath plannedPath
  · exact keeps_placeItem sourcePath item

/-- What a pass keeps for the rows whose turn is still to come. -/
abbrev KeptBy (K : Copies) {α : Type} (_ : α) (K' : Copies) : Prop := Kept K K'

theorem tracks_save {K : Copies} {grab : ReleaseGrab} (h : Has K grab) :
    Tracks Answers (Allows .poll) after (KeptBy K) (Ask.save grab) K :=
  ⟨h.allows, fun answer _ => h.kept_save answer⟩

theorem tracks_place (client : DownloadClientSettings) {K : Copies} {grab : ReleaseGrab}
    (h : Has K grab) : Tracks Answers (Allows .poll) after (KeptBy K) (place client grab) K := by
  refine (keeps_placeGrab client grab K h).bind fun left K' hleft => ?_
  obtain ⟨grab', answer⟩ := left
  obtain ⟨hid, hdestination, hkept⟩ := hleft
  cases answer with
  | ok _ => exact hkept
  | error reason =>
    have hhas : Has K { grab' with state := .FAILED, error := some reason } :=
      h.same hid hdestination
    exact (tracks_save (hhas.kept hkept)).mono fun _ K'' hkept' => hkept.trans hkept'

theorem tracks_save_bind {K : Copies} {grab : ReleaseGrab} (h : Has K grab) (answer : α) :
    Tracks Answers (Allows .poll) after (KeptBy K) (Ask.save grab >>= fun _ => pure answer) K :=
  (tracks_save h).bind fun _ _ hkept => hkept

theorem tracks_fetch {K : Copies} {grab : ReleaseGrab} (h : Has K grab) (clientId : String)
    (placements : List GrabPlacement) (wanted : List ℕ) :
    Tracks Answers (Allows .poll) after (KeptBy K) (fetch grab clientId placements wanted) K := by
  unfold fetch
  split_ifs
  · refine tracks_save_bind ?_ _
    exact h.same rfl rfl
  · refine Program.tracks_ask_bind.mpr ⟨trivial, fun answer _ => ?_⟩
    rcases answer with reason | _
    · exact Kept.refl K
    · refine Program.tracks_ask_bind.mpr ⟨trivial, fun answer _ => ?_⟩
      rcases answer with reason | _
      · exact Kept.refl K
      · refine tracks_save_bind ?_ _
        exact h.same rfl rfl

theorem tracks_choose {K : Copies} {grab : ReleaseGrab} (h : Has K grab) (clientId : String) :
    Tracks Answers (Allows .poll) after (KeptBy K) (choose grab clientId) K := by
  refine Program.tracks_ask_bind.mpr ⟨trivial, fun answer _ => ?_⟩
  rcases answer with reason | files
  · exact Kept.refl K
  · dsimp only
    split_ifs
    · exact Kept.refl K
    · exact tracks_fetch h clientId _ _

theorem tracks_follow (client : DownloadClientSettings) {K : Copies} {grab : ReleaseGrab}
    (h : Has K grab) (clientId : String) (status : DownloadStatus) :
    Tracks Answers (Allows .poll) after (KeptBy K) (follow client grab clientId status) K := by
  unfold follow
  split_ifs
  · exact tracks_choose h clientId
  · refine tracks_save_bind ?_ _
    exact h.same rfl rfl
  · refine tracks_save_bind ?_ _
    exact h.same rfl rfl
  · have hfetched : Has K (grab.fetched status client) := h.same rfl rfl
    refine (tracks_save hfetched).bind fun _ K' hkept => ?_
    refine (tracks_place client (hfetched.kept hkept)).bind fun _ K'' hkept' => ?_
    exact hkept.trans hkept'

theorem tracks_missed {K : Copies} {grab : ReleaseGrab} (h : Has K grab) :
    Tracks Answers (Allows .poll) after (KeptBy K) (missed grab) K := by
  unfold missed
  split_ifs
  · refine tracks_save_bind ?_ _
    exact h.same rfl rfl
  · exact Kept.refl K

theorem tracks_turn (client : DownloadClientSettings) (statuses : List DownloadStatus) {K : Copies}
    {grab : ReleaseGrab} (h : Has K grab) :
    Tracks Answers (Allows .poll) after (KeptBy K) (turn client statuses grab) K := by
  unfold turn
  split
  · exact tracks_missed h
  · split
    · exact tracks_missed h
    · exact tracks_follow client h _ _

theorem tracks_turns (client : DownloadClientSettings) (statuses : List DownloadStatus) {K : Copies}
    {live : List ReleaseGrab} (h : ∀ grab ∈ live, Has K grab) :
    Tracks Answers (Allows .poll) after (fun _ _ => True) (turns client statuses live) K := by
  induction live generalizing K with
  | nil => trivial
  | cons grab rest ih =>
    refine (tracks_turn client statuses (h grab List.mem_cons_self)).bind fun answer K' hkept => ?_
    rcases answer with reason | _
    · trivial
    · exact ih fun grab hgrab => (h grab (List.mem_cons_of_mem _ hgrab)).kept hkept

/-- Every row of a pass is one it has a copy of, once it has asked the client. -/
theorem has_of_mem {live : List ReleaseGrab} (hnodup : (live.map (·.id)).Nodup) {grab : ReleaseGrab}
    (h : grab ∈ live) : Has ⟨Table.find (·.id) live, true⟩ grab :=
  ⟨rfl, grab, Table.find_of_mem hnodup h, rfl⟩

theorem tracks_pass (K : Copies) :
    Tracks Answers (Allows .poll) after (fun _ _ => True) pass K := by
  refine Program.tracks_ask_bind.mpr ⟨trivial, fun live hnodup => ?_⟩
  split_ifs
  · trivial
  refine Program.tracks_ask_bind.mpr ⟨trivial, fun settings _ => ?_⟩
  rcases settings with _ | client
  · trivial
  dsimp only
  split_ifs
  · trivial
  refine Program.tracks_ask_bind.mpr ⟨trivial, fun answer _ => ?_⟩
  rcases answer with reason | statuses
  · trivial
  · exact tracks_turns client statuses fun grab hgrab => has_of_mem hnodup hgrab

theorem tracks_findOne_bind {call : Call} (hcall : call ≠ .poll) {id : String} {K : Copies}
    {Q : α → Copies → Prop} {f : Option ReleaseGrab → Script α}
    (hnone : ∀ K, Tracks Answers (Allows call) after Q (f none) K)
    (hsome : ∀ grab K, K.copy grab.id = some grab →
      Tracks Answers (Allows call) after Q (f (some grab)) K) :
    Tracks Answers (Allows call) after Q (Ask.findOne id >>= f) K := by
  refine Program.tracks_ask_bind.mpr ⟨hcall, fun found hfound => ?_⟩
  rcases found with _ | grab
  · exact hnone _
  · refine hsome grab _ ?_
    rw [hfound grab rfl]
    exact Function.update_self _ _ _

theorem tracks_setDestination (id : String) (libraryId : Option String)
    (folder : Option Placement.Folder) (K : Copies) :
    Tracks Answers (Allows (.setDestination id libraryId folder)) after (fun _ _ => True)
      (Releases.setDestination id libraryId folder) K := by
  refine tracks_findOne_bind (by simp) (fun _ => trivial) fun grab K hcopy => ?_
  dsimp only
  split_ifs
  · trivial
  · exact ⟨⟨grab, hcopy, rfl⟩, fun _ _ => trivial⟩

theorem tracks_suspend (call : Call) (hcall : call ≠ .poll) (id : String) (paused : Bool)
    (hwrites : ∀ (K : Copies) (grab : ReleaseGrab), K.Writes call grab
      { grab with state := if paused then .PAUSED else .DOWNLOADING, error := none })
    (K : Copies) :
    Tracks Answers (Allows call) after (fun _ _ => True) (suspend id paused) K := by
  refine tracks_findOne_bind hcall (fun _ => trivial) fun grab K hcopy => ?_
  have hsave : ∀ {answer : Except Refusal ReleaseGrab},
      Tracks Answers (Allows call) after (fun _ _ => True)
        (Ask.save { grab with state := if paused then .PAUSED else .DOWNLOADING, error := none } >>=
          fun _ => pure answer) K :=
    ⟨⟨grab, hcopy, hwrites K grab⟩, fun _ _ => trivial⟩
  dsimp only
  split
  · trivial
  split
  · trivial
  refine Program.tracks_ask_bind.mpr ⟨trivial, fun settings _ => ?_⟩
  rcases settings with _ | client
  · trivial
  cases paused with
  | true | false =>
    refine Program.tracks_ask_bind.mpr ⟨trivial, fun answer _ => ?_⟩
    rcases answer with reason | _
    · trivial
    · exact hsave

theorem tracks_archive (id : String) (K : Copies) :
    Tracks Answers (Allows (.archive id)) after (fun _ _ => True) (Releases.archive id) K := by
  refine tracks_findOne_bind (by simp) (fun _ => trivial) fun grab K _ => ?_
  exact ⟨⟨id, rfl⟩, fun _ _ => trivial⟩

theorem tracked_script (call : Call) (K : Copies) : Tracked call call.script K := by
  have hunit : ∀ {α : Type} {p : Script α},
      Tracks Answers (Allows call) after (fun _ _ => True) p K →
        Tracked call (p >>= fun _ => pure ()) K :=
    fun h => h.bind fun _ _ _ => trivial
  cases call with
  | poll => exact hunit (tracks_pass K)
  | setDestination id libraryId folder => exact hunit (tracks_setDestination id libraryId folder K)
  | pause id => exact hunit (tracks_suspend (.pause id) (by simp) id true (fun _ _ => ⟨rfl, rfl⟩) K)
  | resume id => exact hunit (tracks_suspend (.resume id) (by simp) id false (fun _ _ => rfl) K)
  | archive id => exact hunit (tracks_archive id K)

end Copies

theorem rely_start (s : Shared) (call : Call) : Rely s ⟨call, call.script⟩ :=
  ⟨⟨fun _ => none, false⟩, Copies.tracked_script call _, fun _ _ hcopy => by cases hcopy⟩

/-! ### A run -/

/-- What people asked for is what the rows and the placements say. -/
structure NoActionLost (s : Shared) : Prop where
  /-- A file is placed by the destination that was accepted last. -/
  resolved : ∀ before after id request destination,
    s.log = before ++ .resolved id request :: after →
      redirectedTo before id = some destination → request.Follows destination
  /-- The row keeps the destination that was accepted last. -/
  redirected : ∀ id destination row, redirectedTo s.log id = some destination →
    Table.find (·.id) s.rows id = some row → row.destination = destination
  archived : ∀ id, .archived id ∈ s.log →
    Table.find (·.id) s.rows id = none ∧ .inserted id ∉ s.log
  /-- A paused row stays paused until it is resumed or archived, or the client is asked again. -/
  paused : ∀ before after id, s.log = before ++ .paused id :: after →
    .asked ∉ after → .resumed id ∉ after → .archived id ∉ after →
      ∃ row, Table.find (·.id) s.rows id = some row ∧ row.state = .PAUSED

theorem Sound.noActionLost {s : Shared} (h : Sound s) : NoActionLost s where
  resolved _ _ _ _ _ hlog hlast := h.resolved hlog hlast
  redirected _ _ _ hlast hrow := h.redirected hlast hrow
  archived _ hin := ⟨h.archived hin, h.inserted⟩
  paused before after id hlog hasked hresumed harchived := by
    refine h.paused ?_
    rw [hlog]
    exact standing_of_paused hasked hresumed harchived

theorem sound_start {rows : List ReleaseGrab} (h : (rows.map (·.id)).Nodup) : Sound ⟨rows, []⟩ where
  nodup := h
  redirected hlast := by cases hlast
  archived hin := by cases hin
  inserted := List.not_mem_nil
  paused hnow := by cases hnow
  resolved hlog := absurd hlog (by simp)

def idle (rows : List ReleaseGrab) : Pool Op Op.Answer Shared Call := ⟨⟨rows, []⟩, []⟩

/-- **What people ask for is not lost to a pass.**  From any rows, over any run of passes and of
calls around them, as long as nobody writes or deletes a row that another program has a copy of and may
still write or place by. -/
theorem no_action_lost {rows : List ReleaseGrab} (hrows : (rows.map (·.id)).Nodup)
    {pool : Pool Op Op.Answer Shared Call} {actions : List (Action Op Op.Answer Call)}
    (hrun : Run stepTogether (Beside Undisturbed) (idle rows) actions pool) :
    NoActionLost pool.state := by
  have hinv : Threads.Inv Sound Rely pool := by
    refine Threads.inv_of_run (fun s call _ => rely_start s call) ?_ ?_ hrun
      ⟨sound_start hrows, fun thread hin => by cases hin⟩
    · exact fun s call op next world hsound hrely => own_step world hsound hrely
    · exact fun s call op next world thread _ hrely hfree hthread =>
        other_step world hrely hfree hthread
  exact hinv.state.noActionLost

theorem undisturbed_of_isOver (call : Call) (op : Op) (thread : Thread Op Op.Answer Call)
    (h : thread.isOver = true) : Undisturbed call op thread := by
  have hholds : ∀ id, ¬ Holds id thread.rest := by
    rcases thread with ⟨_, _ | _⟩
    · exact fun id hcomes => nomatch hcomes
    · cases h
  cases call <;> cases op <;> first | trivial | exact hholds _

/-! ### Two runs -/

def sentRow (id : String) : ReleaseGrab where
  id := id
  itemId := "movie"
  state := .DOWNLOADING
  clientId := some id
  bytesDone := 0
  bytesTotal := 0
  sourcePath := none
  targetPath := none
  targetLibraryId := some "old"
  targetFolder := none
  plannedPath := none
  isPartial := false
  error := none
  placements := []

def statusAt (complete : Bool) (id : String) : DownloadStatus where
  clientId := id
  name := "movie.mkv"
  bytesDone := 7
  bytesTotal := 7
  complete := complete
  paused := false
  state := "downloading"
  failed := false
  failedReason := none
  savePath := none
  contentPath := some ["data", "movie.mkv"]

def worldAt (complete : Bool) : (op : Op) → op.Answer
  | .findLive | .findChildren _ => []
  | .findOne _ | .pinnedFolder _ _ => none
  | .save _ | .delete _ => ()
  | .downloadClient => some ⟨none, []⟩
  | .statuses tracked => .ok (tracked.map (statusAt complete))
  | .files _ => .ok []
  | .selectFiles _ _ | .start _ | .pause _ | .prepare _ => .ok ()
  | .findItem id => some ⟨id, .MOVIE, "Movie", none, none⟩
  | .readable _ => true
  | .filesUnder _ path => [⟨path, 7⟩]
  | .nameableOf _ _ => ⟨.MOVIE, none, none, "Movie", none⟩
  | .resolve _ request => .ok ⟨request.preferredLibraryId.getD "", ["lib"], ["lib", "movie.mkv"]⟩
  | .move _ _ _ => ⟨none, .ok ()⟩

/-- So many operations of a thread. -/
def acts (complete : Bool) (i count : ℕ) : List (Action Op Op.Answer Call) :=
  List.replicate count (.act i (worldAt complete))

def allOver (calls : List Call) : List (Thread Op Op.Answer Call) :=
  calls.map fun call => ⟨call, .pure ()⟩

def redirectThenPoll : List (Action Op Op.Answer Call) :=
  [.start (.setDestination "a" (some "new") none)] ++ acts true 0 2 ++ [.start .poll] ++
    acts true 1 15

def redirectedRequest : FilingRequest where
  kind := .MOVIE
  item := ⟨"movie", .MOVIE, "Movie", none, none⟩
  nameable := ⟨.MOVIE, none, none, "Movie", none⟩
  source := ["data", "movie.mkv"]
  pinnedPath := none
  preferredLibraryId := some "new"

def afterRedirectThenPoll : Pool Op Op.Answer Shared Call where
  state :=
    { rows := [{ sentRow "a" with
        state := .PLACED
        sourcePath := some ["data", "movie.mkv"]
        targetPath := some ["lib", "movie.mkv"]
        targetLibraryId := some "new" }]
      log := [.redirected "a" ⟨some "new", none⟩, .asked, .resolved "a" redirectedRequest] }
  threads := allOver [.setDestination "a" (some "new") none, .poll]

/-- It is filed where it was sent. -/
theorem no_action_lost_redirectThenPoll : NoActionLost afterRedirectThenPoll.state := by
  have hrun : Run stepTogether Threads.Alone (idle [sentRow "a"]) redirectThenPoll
      afterRedirectThenPoll := Run.ofExec rfl
  have hrows : ([sentRow "a"].map (·.id)).Nodup := by simp
  exact no_action_lost hrows
    (hrun.mono fun pool action halone => halone.beside undisturbed_of_isOver)

/-- While a pass has read three rows, one is redirected, one archived, and one paused once it asked
the client.  Then the pass writes down the progress of each. -/
def actDuringPoll : List (Action Op Op.Answer Call) :=
  [.start .poll] ++ acts false 0 1 ++ [.start (.setDestination "a" (some "new") none)] ++
    acts false 1 2 ++ [.start (.archive "b")] ++ acts false 2 2 ++ acts false 0 2 ++
    [.start (.pause "c")] ++ acts false 3 4 ++ acts false 0 3

def afterActDuringPoll : Pool Op Op.Answer Shared Call where
  state :=
    { rows := ["a", "c", "b"].map fun id => { sentRow id with bytesDone := 7, bytesTotal := 7 }
      log := [.redirected "a" ⟨some "new", none⟩, .archived "b", .asked, .paused "c",
        .inserted "b"] }
  threads := allOver [.poll, .setDestination "a" (some "new") none, .archive "b", .pause "c"]

/-- The destination is lost, the row that was archived is back, and the pause is overwritten. -/
theorem actions_lost_actDuringPoll :
    Run stepTogether Free (idle [sentRow "a", sentRow "b", sentRow "c"]) actDuringPoll
        afterActDuringPoll ∧
      .inserted "b" ∈ afterActDuringPoll.state.log ∧
      (Table.find (·.id) afterActDuringPoll.state.rows "c").map (·.state) = some .DOWNLOADING ∧
      ¬ NoActionLost afterActDuringPoll.state := by
  refine ⟨Run.ofExec rfl, by simp [afterActDuringPoll], rfl, fun h => ?_⟩
  have hdestination := h.redirected "a" ⟨some "new", none⟩ _ rfl rfl
  exact absurd hdestination (by decide)

end MediaCenterSync.Releases
