import MediaCenterSync.Cache.Service
import MediaCenterSync.Lib.LabelledRun

/-!
# When a deleted key stays deleted

After a key has been deleted or cleared, no caller that comes later should be answered from a
factory call made before, and at most one factory called since should be running for it
(`Invalidated`).

`delete` frees the key's slot but the factory call that held it still runs its two callbacks, and
neither looks at what has become of the slot: the first stores the answer it was deleted for
(`stale_afterDelete`), the second frees the slot of whoever holds it by then.  A run in which
neither happens to a call that has been disowned (`Owned`) keeps the property
(`invalidated_of_owned`).  The invariant says it of everything a value can still come from: an
entry, a slot, an answer under way.
-/

namespace MediaCenterSync.Cache

open LabelledRun

/-! ### What is held after an operation of the backend -/

namespace MemoryBackend

variable {b : MemoryBackend} {x : String × Entry}

theorem mem_forget {key : String} :
    x ∈ (b.forget key).entries ↔ x ∈ b.entries ∧ x.1 ≠ key := by
  unfold forget
  split
  · next h =>
    have habsent := List.lookup_eq_none_iff.mp h
    refine ⟨fun hx => ⟨hx, fun heq => ?_⟩, And.left⟩
    simpa [heq] using habsent x hx
  · simp

theorem mem_forgetAll {keys : List String} :
    x ∈ (b.forgetAll keys).entries ↔ x ∈ b.entries ∧ x.1 ∉ keys := by
  unfold forgetAll
  induction keys generalizing b with
  | nil => simp
  | cons key keys ih => rw [List.foldl_cons, ih, mem_forget, List.mem_cons, not_or, and_assoc]

theorem mem_of_mem_evict {now : ℚ} (hx : x ∈ (b.evict now).entries) : x ∈ b.entries :=
  (mem_forgetAll.mp hx).1

/-- What a `clear` leaves was held before and is not under the prefix. -/
theorem mem_of_mem_clear {start : Option String} (hx : x ∈ (b.clear start).entries) :
    x ∈ b.entries ∧ start.all (startsWith x.1) = false := by
  cases start with
  | none => cases hx
  | some start =>
    obtain ⟨hmem, hout⟩ := mem_forgetAll.mp hx
    refine ⟨hmem, Bool.eq_false_iff.mpr fun hstarts => hout ?_⟩
    exact List.mem_filter.mpr ⟨List.mem_map_of_mem hmem, hstarts⟩

theorem mem_of_mem_trimLoop {entries : List (String × Entry)} {held : ℤ}
    (hx : x ∈ (trimLoop entries held).entries) : x ∈ entries := by
  induction entries generalizing held with
  | nil => cases hx
  | cons e rest ih =>
    unfold trimLoop at hx
    split at hx
    · exact List.mem_cons_of_mem _ (ih hx)
    · exact hx

theorem mem_of_mem_set {key : String} {entry : Entry} (hx : x ∈ (b.set key entry).entries) :
    x ∈ b.entries ∨ x = (key, entry) := by
  rcases List.mem_append.mp (mem_of_mem_trimLoop hx) with h | h
  · exact .inl (mem_forget.mp h).1
  · exact .inr (List.mem_singleton.mp h)

theorem mem_of_lookup {key : String} {entry : Entry} (h : b.entries.lookup key = some entry) :
    (key, entry) ∈ b.entries := by
  obtain ⟨l₁, l₂, hsplit, -⟩ := List.lookup_eq_some_iff.mp h
  rw [hsplit]
  exact List.mem_append_right _ List.mem_cons_self

/-- A read hands out an entry that is held, and brings no other in. -/
theorem get_spec (b : MemoryBackend) (key : String) (now : ℚ) :
    (∀ entry, (b.get key now).1 = some entry → (key, entry) ∈ b.entries) ∧
      ∀ x ∈ (b.get key now).2.entries, x ∈ b.entries := by
  unfold get
  split
  · exact ⟨fun _ h => (nomatch h), fun _ hx => hx⟩
  · next entry hlookup =>
    have hmem := mem_of_lookup hlookup
    split
    · exact ⟨fun _ h => (nomatch h), fun _ hx => (mem_forget.mp hx).1⟩
    · refine ⟨fun _ h => Option.some.inj h ▸ hmem, fun x hx => ?_⟩
      rcases List.mem_append.mp hx with h | h
      · exact List.mem_of_mem_filter h
      · exact List.mem_singleton.mp h ▸ hmem

end MemoryBackend

/-! ### The property and its guard -/

def Phase.isRunning {V : Type*} : Phase V → Bool
  | .running => true
  | _ => false

/-- The factory call an answer comes from, or is waited from. -/
def Stage.origin {V : Type*} : Stage V → Option ℕ
  | .reading _ origin | .read _ origin | .returned _ origin => origin
  | .awaiting call => some call
  | .threw => none

namespace State

variable {V : Type*} {s s' : State V}

/-- The factory of call `i` is running for `key`, and was called after the latest deletion. -/
def Runs (s : State V) (key : String) (i : ℕ) : Prop :=
  ∃ call, s.calls[i]? = some call ∧ call.key = key ∧ call.phase.isRunning ∧ s.barrier key ≤ i

/-- What a deletion promises: no answer from before it to who asks after it, and at most one factory
at work that was called since. -/
structure Invalidated (s : State V) : Prop where
  answers : ∀ caller ∈ s.callers, ∀ value i, caller.stage = .returned value (some i) →
    caller.since ≤ i
  single : ∀ key i j, s.Runs key i → s.Runs key j → i = j

/-- A call's callback finds its key as the call left it: the answer that is stored is no older than
the latest deletion, and the slot that is freed is not that of another factory at work. -/
def Owned (s : State V) : Act V → Prop
  | .keep i _ => ∀ call ∈ s.calls[i]?, s.barrier call.key ≤ i
  | .release i => ∀ call ∈ s.calls[i]?, ∀ j ∈ s.inFlight call.key, j ≠ i →
      ∀ other ∈ s.calls[j]?, other.phase.isRunning = false
  | _ => True

/-- Nothing held, registered or under way comes from a factory call made before the deletion it
must not outlive. -/
structure Inv (s : State V) : Prop where
  barrier : ∀ key, s.barrier key ≤ s.calls.length
  entry : ∀ e ∈ s.backend.entries, ∀ i ∈ e.2.origin, s.barrier e.1 ≤ i
  slot : ∀ key, ∀ i ∈ s.inFlight key, s.barrier key ≤ i
  runs : ∀ key i, s.Runs key i → s.inFlight key = some i
  caller : ∀ c ∈ s.callers, c.since ≤ s.barrier c.key ∧ ∀ i ∈ c.stage.origin, c.since ≤ i

theorem Inv.invalidated (h : s.Inv) : s.Invalidated where
  answers caller hmem value i hstage := (h.caller caller hmem).2 i (by rw [hstage]; rfl)
  single key i j hi hj := Option.some.inj ((h.runs key i hi).symm.trans (h.runs key j hj))

theorem inv_boot : (boot : State V).Inv where
  barrier _ := le_rfl
  entry _ h := nomatch h
  slot _ _ h := nomatch h
  runs _ _ h := by obtain ⟨_, h, -⟩ := h; cases h
  caller _ h := nomatch h

/-! ### What a step keeps -/

/-- Changing what the backend holds, as long as what comes in is no older than it may be. -/
theorem Inv.withBackend (h : s.Inv) {b : MemoryBackend}
    (hb : ∀ e ∈ b.entries, e ∈ s.backend.entries ∨ ∀ i ∈ e.2.origin, s.barrier e.1 ≤ i) :
    Inv { s with backend := b } :=
  { h with entry := fun e he => (hb e he).elim (h.entry e) id }

/-- A deletion: what is left is untouched by it, and every barrier only rises. -/
theorem Inv.invalidate (h : s.Inv) {hit : String → Bool} {b : MemoryBackend}
    (hb : ∀ e ∈ b.entries, e ∈ s.backend.entries ∧ hit e.1 = false) :
    Inv { s.invalidate hit with backend := b } where
  barrier key := by
    change (if hit key then s.calls.length else s.barrier key) ≤ s.calls.length
    split
    · exact le_rfl
    · exact h.barrier key
  entry e he i hi := by
    obtain ⟨hmem, hout⟩ := hb e he
    change (if hit e.1 then s.calls.length else s.barrier e.1) ≤ i
    rw [hout]
    exact h.entry e hmem i hi
  slot key i hi := by
    change i ∈ (if hit key then none else s.inFlight key) at hi
    change (if hit key then s.calls.length else s.barrier key) ≤ i
    split at hi
    · cases hi
    · next hout =>
      rw [if_neg hout]
      exact h.slot key i hi
  runs key i hi := by
    obtain ⟨call, hcall, hkey, hrunning, hle⟩ := hi
    change (if hit key then s.calls.length else s.barrier key) ≤ i at hle
    change (if hit key then none else s.inFlight key) = some i
    split at hle
    · -- a call made before the deletion is not counted any more
      exact absurd (List.getElem?_eq_some_iff.mp hcall).1 hle.not_gt
    · next hout =>
      rw [if_neg hout]
      exact h.runs key i ⟨call, hcall, hkey, hrunning, hle⟩
  caller c hc := by
    obtain ⟨hsince, horigin⟩ := h.caller c hc
    refine ⟨hsince.trans ?_, horigin⟩
    change s.barrier c.key ≤ if hit c.key then s.calls.length else s.barrier c.key
    split
    · exact h.barrier c.key
    · exact le_rfl

theorem Inv.delete (h : s.Inv) (key : String) : (s.delete key).Inv :=
  h.invalidate fun e he => by
    obtain ⟨hmem, hne⟩ := MemoryBackend.mem_forget.mp he
    exact ⟨hmem, decide_eq_false hne⟩

theorem Inv.clear (h : s.Inv) (start : Option String) : (s.clear start).Inv :=
  h.invalidate fun _ he => MemoryBackend.mem_of_mem_clear he

theorem Inv.set (h : s.Inv) (json : Json V) {key : String} {value : Answer V}
    {ttlSeconds : Option ℚ} {now : ℚ} {origin : Option ℕ}
    (horigin : ∀ i ∈ origin, s.barrier key ≤ i) :
    (s.set json key value ttlSeconds now origin).Inv := by
  cases value with
  | none => exact h
  | some value =>
    refine h.withBackend fun e he => (MemoryBackend.mem_of_mem_set he).imp_right ?_
    rintro rfl
    exact horigin

theorem Inv.startReading (h : s.Inv) (key : String) (ttlSeconds : Option ℚ) (now : ℚ) :
    (s.startReading key ttlSeconds now).Inv := by
  obtain ⟨hread, hleft⟩ := MemoryBackend.get_spec s.backend key now
  have hback := h.withBackend fun e he => .inl (hleft e he)
  refine { hback with caller := fun c hc => ?_ }
  rcases List.mem_append.mp hc with hold | hnew
  · exact h.caller c hold
  · obtain rfl := List.mem_singleton.mp hnew
    refine ⟨le_rfl, fun i hi => ?_⟩
    -- what was read is an entry of the key, and no older than its barrier
    obtain ⟨entry, hentry, horigin⟩ := Option.bind_eq_some_iff.mp hi
    exact h.entry _ (hread entry hentry) i horigin

/-- A caller going on with an answer no older than its question. -/
theorem Inv.setStage (h : s.Inv) {i : ℕ} {c : Caller V} (hc : s.callers[i]? = some c)
    {stage : Stage V} (hstage : ∀ j ∈ stage.origin, c.since ≤ j) : (s.setStage i c stage).Inv := by
  refine { h with caller := fun c' hc' => ?_ }
  rcases List.mem_or_eq_of_mem_set hc' with hold | rfl
  · exact h.caller c' hold
  · exact ⟨(h.caller c (List.mem_of_getElem? hc)).1, hstage⟩

/-- A call that goes on runs no more, and the others run as they did. -/
theorem runs_of_runs_setPhase {i : ℕ} {call : Call V} (hcall : s.calls[i]? = some call)
    {phase : Phase V} (hphase : phase.isRunning = false) {key : String} {j : ℕ}
    (h : (s.setPhase i call phase).Runs key j) : s.Runs key j ∧ j ≠ i := by
  obtain ⟨call', hcall', hkey, hrunning, hle⟩ := h
  have hne : j ≠ i := by
    rintro rfl
    have hset : (s.calls.set j { call with phase := phase })[j]? =
        some { call with phase := phase } :=
      List.getElem?_set_self (List.getElem?_eq_some_iff.mp hcall).1
    obtain rfl := Option.some.inj (hset.symm.trans hcall')
    exact Bool.false_ne_true (hphase.symm.trans hrunning)
  change (s.calls.set i { call with phase := phase })[j]? = some call' at hcall'
  rw [List.getElem?_set_ne hne.symm] at hcall'
  exact ⟨⟨call', hcall', hkey, hrunning, hle⟩, hne⟩

theorem Inv.setPhase (h : s.Inv) {i : ℕ} {call : Call V} (hcall : s.calls[i]? = some call)
    {phase : Phase V} (hphase : phase.isRunning = false) : (s.setPhase i call phase).Inv :=
  { h with
    barrier := fun key => (h.barrier key).trans_eq (List.length_set ..).symm
    runs := fun key j hj => h.runs key j (runs_of_runs_setPhase hcall hphase hj).1 }

/-- A factory is called for a key whose slot is free, so no other runs for it. -/
theorem Inv.startFactory (h : s.Inv) {key : String} (hfree : s.inFlight key = none)
    (ttlSeconds : ℚ) : (s.startFactory key ttlSeconds).Inv where
  barrier k := (h.barrier k).trans (by simp [State.startFactory])
  entry := h.entry
  slot k i hi := by
    change i ∈ Function.update s.inFlight key (some s.calls.length) k at hi
    rcases eq_or_ne k key with rfl | hne
    · rw [Function.update_self] at hi
      exact (h.barrier k).trans_eq (Option.mem_some_iff.mp hi)
    · rw [Function.update_of_ne hne] at hi
      exact h.slot k i hi
  runs k i hi := by
    obtain ⟨call, hcall, hkey, hrunning, hle⟩ := hi
    change Function.update s.inFlight key (some s.calls.length) k = some i
    have hlt : i < (s.calls ++ [_]).length := (List.getElem?_eq_some_iff.mp hcall).1
    change (s.calls ++ [_])[i]? = some call at hcall
    rw [List.length_append, List.length_singleton] at hlt
    rcases Nat.lt_succ_iff_lt_or_eq.mp hlt with hold | rfl
    · rw [List.getElem?_append_left hold] at hcall
      have hslot := h.runs k i ⟨call, hcall, hkey, hrunning, hle⟩
      have hne : k ≠ key := by
        rintro rfl
        exact absurd (hfree.symm.trans hslot) (by simp)
      rwa [Function.update_of_ne hne]
    · rw [List.getElem?_concat_length] at hcall
      cases hcall
      obtain rfl : key = k := hkey
      exact Function.update_self ..
  caller := h.caller

theorem Inv.resume (h : s.Inv) {i : ℕ} {throws : Bool} (hs : s.resume i throws = some s') :
    s'.Inv := by
  obtain ⟨c, hc, hs⟩ := Option.bind_eq_some_iff.mp hs
  obtain ⟨hsince, horigin⟩ := h.caller c (List.mem_of_getElem? hc)
  split at hs
  · next cached origin ttlSeconds hstage httl =>
    split at hs
    · -- the cache had it
      cases hs
      exact h.setStage hc fun j hj => horigin j (by rw [hstage]; exact hj)
    · split at hs
      · next call hslot =>
        -- it joins the call in the slot
        cases hs
        refine h.setStage hc fun j hj => ?_
        cases hj
        exact hsince.trans (h.slot c.key call hslot)
      · next hfree =>
        split at hs
        · cases hs
          exact h.setStage hc fun j hj => nomatch hj
        · -- it makes a call of its own, younger than every deletion so far
          cases hs
          refine (h.startFactory hfree ttlSeconds).setStage hc fun j hj => ?_
          cases hj
          exact hsince.trans (h.barrier c.key)
  · cases hs

theorem origin_answered (c : Caller V) (value : Option V) (origin : Option ℕ) :
    (c.answered value origin).origin = origin := by
  unfold Caller.answered
  split <;> rfl

theorem Inv.parse (h : s.Inv) {json : Json V} {i : ℕ} (hs : s.parse json i = some s') :
    s'.Inv := by
  obtain ⟨c, hc, hs⟩ := Option.bind_eq_some_iff.mp hs
  have horigin := (h.caller c (List.mem_of_getElem? hc)).2
  split at hs
  · cases hs
    exact h.setStage hc fun j hj => by rw [origin_answered] at hj; cases hj
  · next raw origin hstage =>
    split at hs
    · cases hs
      refine h.setStage hc fun j hj => horigin j ?_
      rw [origin_answered] at hj
      rwa [hstage]
    · cases hs
      exact (h.delete c.key).setStage hc fun j hj => by rw [origin_answered] at hj; cases hj
  · cases hs

theorem Inv.deliver (h : s.Inv) {i : ℕ} (hs : s.deliver i = some s') : s'.Inv := by
  obtain ⟨c, hc, hs⟩ := Option.bind_eq_some_iff.mp hs
  have horigin := (h.caller c (List.mem_of_getElem? hc)).2
  split at hs
  · next j hstage =>
    obtain ⟨call, -, hs⟩ := Option.bind_eq_some_iff.mp hs
    split at hs
    · cases hs
      exact h.setStage hc fun k hk => horigin k (by rw [hstage]; exact hk)
    · cases hs
      exact h.setStage hc fun k hk => nomatch hk
    · cases hs
  · cases hs

theorem Inv.settle (h : s.Inv) {i : ℕ} {outcome : Option (Answer V)}
    (hs : s.settle i outcome = some s') : s'.Inv := by
  obtain ⟨call, hcall, hs⟩ := Option.bind_eq_some_iff.mp hs
  split at hs
  · cases hs
    exact h.setPhase hcall (by cases outcome <;> rfl)
  · cases hs

/-- A call stores its answer, when its key has not been deleted since it was made. -/
theorem Inv.keep (h : s.Inv) {json : Json V} {i : ℕ} {now : ℚ} (ho : s.Owned (.keep i now))
    (hs : s.keep json i now = some s') : s'.Inv := by
  obtain ⟨call, hcall, hs⟩ := Option.bind_eq_some_iff.mp hs
  split at hs
  · next value _ =>
    cases hs
    have hset : (s.set json call.key value call.ttlSeconds now (some i)).Inv :=
      h.set json fun j hj => Option.some.inj hj ▸ ho call hcall
    refine hset.setPhase ?_ rfl
    cases value <;> exact hcall
  · cases hs

/-- A call frees its slot, when no other factory at work has it. -/
theorem Inv.release (h : s.Inv) {i : ℕ} (ho : s.Owned (.release i))
    (hs : s.release i = some s') : s'.Inv := by
  obtain ⟨call, hcall, hs⟩ := Option.bind_eq_some_iff.mp hs
  obtain ⟨result, -, hs⟩ := Option.bind_eq_some_iff.mp hs
  cases hs
  refine { h with barrier := fun key => ?_, slot := fun key j hj => ?_, runs := fun key j hj => ?_ }
  · exact (h.barrier key).trans_eq (List.length_set ..).symm
  · change j ∈ Function.update s.inFlight call.key none key at hj
    rcases eq_or_ne key call.key with rfl | hne
    · rw [Function.update_self] at hj
      cases hj
    · rw [Function.update_of_ne hne] at hj
      exact h.slot key j hj
  · change Function.update s.inFlight call.key none key = some j
    obtain ⟨hruns, hji⟩ := runs_of_runs_setPhase (s := s) hcall rfl hj
    have hslot := h.runs key j hruns
    rcases eq_or_ne key call.key with rfl | hne
    · -- the slot would be that of another factory at work
      obtain ⟨other, hother, -, hrunning, -⟩ := hruns
      exact absurd hrunning
        (by rw [ho call hcall j hslot hji other hother]; exact Bool.false_ne_true)
    · rwa [Function.update_of_ne hne]

/-- **Every step keeps the invariant, unless a call that was disowned has a callback run.** -/
theorem Inv.step (h : s.Inv) {json : Json V} {a : Act V} (ho : s.Owned a)
    (hs : s.step json a = some s') : s'.Inv := by
  cases a with
  | get key now => exact Option.some.inj hs ▸ h.startReading key none now
  | wrap key ttlSeconds now => exact Option.some.inj hs ▸ h.startReading key (some ttlSeconds) now
  | set key value ttlSeconds now =>
    exact Option.some.inj hs ▸ h.set json fun i hi => nomatch hi
  | delete key => exact Option.some.inj hs ▸ h.delete key
  | clear start => exact Option.some.inj hs ▸ h.clear start
  | setDefaultTtl seconds =>
    change (if 0 < seconds then _ else _) = _ at hs
    split at hs
    · exact Option.some.inj hs ▸ { h with }
    · exact Option.some.inj hs ▸ h
  | evict now =>
    exact Option.some.inj hs ▸ h.withBackend fun e he => .inl (MemoryBackend.mem_of_mem_evict he)
  | onModuleDestroy => exact Option.some.inj hs ▸ h.withBackend fun e he => nomatch he
  | parse caller => exact h.parse hs
  | resume caller throws => exact h.resume hs
  | settle call outcome => exact h.settle hs
  | keep call now => exact h.keep ho hs
  | release call => exact h.release ho hs
  | deliver caller => exact h.deliver hs

/-- **An invalidated key stays invalidated in every run that answers no disowned call.** -/
theorem invalidated_of_owned {json : Json V} {as : List (Act V)}
    (h : Run (step json) Owned boot as s) : s.Invalidated :=
  (h.invariant (fun _ _ _ hi ho hs => hi.step ho hs) inv_boot).invalidated

/-! ### A poster asked for before and after a rescan -/

instance (s : State V) : (a : Act V) → Decidable (s.Owned a)
  | .keep i _ =>
    inferInstanceAs (Decidable (∀ call ∈ s.calls[i]?, s.barrier call.key ≤ i))
  | .release i =>
    inferInstanceAs (Decidable (∀ call ∈ s.calls[i]?, ∀ j ∈ s.inFlight call.key, j ≠ i →
      ∀ other ∈ s.calls[j]?, other.phase.isRunning = false))
  | .get .. | .wrap .. | .set .. | .delete _ | .clear _ | .setDefaultTtl _ | .evict _
  | .onModuleDestroy | .parse _ | .resume .. | .settle .. | .deliver _ => .isTrue trivial

/-- `JSON` on the two booleans and `null`. -/
def jsonBool : Json Bool where
  stringify value := value.elim "null" fun b => if b then "true" else "false"
  parse text :=
    if text = "null" then some none
    else if text = "true" then some (some true)
    else if text = "false" then some (some false)
    else none

/-- A `wrap` that misses and calls its factory. -/
def asked : List (Act Bool) := [.wrap "plex:part:1" 60 0, .parse 0, .resume 0 false]

/-- The factory answers, its callbacks run, the caller has the answer. -/
def answered : List (Act Bool) :=
  [.settle 0 (some (some true)), .keep 0 1, .release 0, .deliver 0]

def askedAgain : List (Act Bool) := [.get "plex:part:1" 2, .parse 1]

theorem invalidated_of_owned_afterRescan :
    ((exec (step jsonBool) Owned boot (asked ++ answered ++ [.clear (some "plex:")] ++
      askedAgain)).get (by decide +kernel)).Invalidated :=
  invalidated_of_owned (.ofExec (Option.some_get _).symm)

/-- The rescan comes while the factory is at work, and its answer is read back afterwards. -/
def rescanned : List (Act Bool) := asked ++ [.clear (some "plex:")] ++ answered ++ askedAgain

/-- **A deletion does not hold against a factory at work.** -/
theorem stale_afterDelete : ¬ ∀ (json : Json Bool) (as : List (Act Bool)) (s : State Bool),
    Run (step json) Free boot as s → s.Invalidated := by
  intro h
  have hpromise := h jsonBool rescanned ((exec (step jsonBool) Free boot rescanned).get
    (by decide +kernel)) (.ofExec (Option.some_get _).symm)
  have hstale : ∃ caller ∈ ((exec (step jsonBool) Free boot rescanned).get
      (by decide +kernel)).callers, caller.since = 1 ∧
        caller.stage = .returned (some (some true)) (some 0) := by decide +kernel
  obtain ⟨caller, hmem, hsince, hstage⟩ := hstale
  exact absurd (hpromise.answers caller hmem _ 0 hstage) (by rw [hsince]; decide)

end State

end MediaCenterSync.Cache
