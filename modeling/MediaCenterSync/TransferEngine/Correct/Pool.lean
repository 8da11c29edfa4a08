import MediaCenterSync.TransferEngine.Pool

/-!
# What the pool guarantees

`enqueue` tests the three containers, waits for the settings and only then pushes, so two
overlapping calls for one identifier both push.  `TestHolds` is the guard that excludes exactly
this: when the settings of an `enqueue` arrive, the test it made before waiting still succeeds.
Under it `Consistent` is an invariant, hence one run per transfer and at most
`maxParallelTransfers` runs (`exclusive_of_testHolds`); without it all three bounds fail
(`exclusive_fails`).

The loop of `_pump` compares `_running.size + _starting.size` with the setting, and a registered
run is in both.  With `Consistent` the loop fills the pool exactly when no run is registered, or
when the pool was full already (`workConserving_iff`).
-/

namespace MediaCenterSync.TransferEngine.Pool

open LabelledRun

variable {ι : Type*} [DecidableEq ι]

/-! ### The invariant -/

/-- The membership test of `enqueue` still succeeds when the settings it waited for arrive. -/
def TestHolds (s : Pool ι) : Act ι → Prop
  | .enqueueSettings transferId false =>
    transferId ∉ s.running ∧ transferId ∉ s.starting ∧ transferId ∉ s.queue
  | _ => True

instance (s : Pool ι) (a : Act ι) : Decidable (TestHolds s a) := by
  unfold TestHolds; split <;> infer_instance

/-- One run per transfer, no identifier queued twice, at most `m` runs. -/
structure Exclusive (m : ℕ) (s : Pool ι) : Prop where
  queue_nodup : s.queue.Nodup
  active_nodup : s.activeIds.Nodup
  active_le : s.active.length ≤ m

/-- The invariant: what is queued is distinct and not running, and the two sets name exactly the
executions under way and those of them that are registered. -/
structure Consistent (m : ℕ) (s : Pool ι) : Prop where
  queue_nodup : s.queue.Nodup
  active_nodup : s.activeIds.Nodup
  queue_inactive : ∀ id ∈ s.queue, id ∉ s.activeIds
  mem_starting : ∀ id, id ∈ s.starting ↔ id ∈ s.activeIds
  mem_running : ∀ id, id ∈ s.running ↔ (⟨id, .registered⟩ : Execution ι) ∈ s.active
  active_le : s.active.length ≤ m

variable {m : ℕ} {s s' : Pool ι}

omit [DecidableEq ι] in
theorem Consistent.exclusive (h : Consistent m s) : Exclusive m s :=
  ⟨h.queue_nodup, h.active_nodup, h.active_le⟩

/-- `_starting` holds one place for each execution under way. -/
theorem Consistent.card_starting (h : Consistent m s) : s.starting.card = s.active.length := by
  have hset : s.starting = s.activeIds.toFinset := by
    ext id; rw [h.mem_starting, List.mem_toFinset]
  rw [hset, List.toFinset_card_of_nodup h.active_nodup, activeIds, List.length_map]

theorem Consistent.distinctActive_eq (h : Consistent m s) :
    s.distinctActive = s.active.length := by
  rw [distinctActive, List.toFinset_card_of_nodup h.active_nodup, activeIds, List.length_map]

omit [DecidableEq ι] in
theorem consistent_boot (m : ℕ) {resumable : List ι} (h : resumable.Nodup) :
    Consistent m (boot resumable) where
  queue_nodup := h
  active_nodup := by simp [boot, activeIds]
  queue_inactive := by simp [boot, activeIds]
  mem_starting := by simp [boot, activeIds]
  mem_running := by simp [boot]
  active_le := by simp [boot]

/-! ### One action keeps the invariant -/

/-- Around a position of a list: the list itself, the list with another element there, and the
list without it. -/
theorem exists_append_of_getElem? {α : Type*} {l : List α} {k : ℕ} {e : α} (h : l[k]? = some e) :
    ∃ l₁ l₂, l = l₁ ++ e :: l₂ ∧ (∀ a, l.set k a = l₁ ++ a :: l₂) ∧ l.eraseIdx k = l₁ ++ l₂ := by
  obtain ⟨hk, rfl⟩ := List.getElem?_eq_some_iff.mp h
  refine ⟨l.take k, l.drop (k + 1), ?_, fun a => List.set_eq_take_append_cons_drop .. |>.trans ?_,
    List.eraseIdx_eq_take_drop_succ l k⟩
  · rw [← List.drop_eq_getElem_cons hk, List.take_append_drop]
  · rw [if_pos hk]

/-- Among executions of distinct transfers, changing the phase of one changes its phase only. -/
theorem mem_set_phase {l₁ l₂ : List (Execution ι)} {id id' : ι} {p p' q : Phase}
    (hnd : ((l₁ ++ ⟨id, p⟩ :: l₂).map Execution.transferId).Nodup) :
    (⟨id', q⟩ : Execution ι) ∈ l₁ ++ ⟨id, p'⟩ :: l₂ ↔
      if id' = id then q = p' else (⟨id', q⟩ : Execution ι) ∈ l₁ ++ ⟨id, p⟩ :: l₂ := by
  have hne : ∀ e ∈ l₁ ++ l₂, e.transferId ≠ id := by
    intro e he heq
    rw [List.map_append, List.map_cons, List.nodup_middle, List.nodup_cons, ← List.map_append]
      at hnd
    exact hnd.1 (List.mem_map.mpr ⟨e, he, heq⟩)
  split_ifs with hid
  · subst hid
    constructor
    · intro hmem
      rcases List.mem_append.mp hmem with h | h
      · exact absurd rfl (hne _ (List.mem_append_left _ h))
      · rcases List.mem_cons.mp h with h | h
        · exact (Execution.mk.inj h).2
        · exact absurd rfl (hne _ (List.mem_append_right _ h))
    · rintro rfl
      simp
  · simp [hid]

omit [DecidableEq ι] in
theorem Consistent.pump (h : Consistent m s) : Consistent m s.pump := by
  unfold Pool.pump
  split
  · exact h
  · exact { h with }

theorem Consistent.enqueue (h : Consistent m s) (id : ι) : Consistent m (s.enqueue id) := by
  unfold Pool.enqueue
  split
  · exact h
  · exact { h with }

omit [DecidableEq ι] in
/-- The settings arrive, the test still succeeds and the identifier is queued. -/
theorem Consistent.push (h : Consistent m s) {id : ι} (hstart : id ∉ s.starting)
    (hqueue : id ∉ s.queue) (enqueuing : List ι) :
    Consistent m { s with enqueuing := enqueuing, queue := s.queue ++ [id] } := by
  refine { h with queue_nodup := ?_, queue_inactive := ?_ }
  · rw [List.nodup_append_comm]
    exact List.nodup_cons.mpr ⟨hqueue, h.queue_nodup⟩
  · intro id' hid' hact
    rcases List.mem_append.mp hid' with hmem | hmem
    · exact h.queue_inactive id' hmem hact
    · rw [List.mem_singleton.mp hmem] at hact
      exact hstart ((h.mem_starting id).mpr hact)

theorem Consistent.removeFromQueue (h : Consistent m s) (id : ι) :
    Consistent m { s with queue := s.queue.erase id } :=
  { h with
    queue_nodup := h.queue_nodup.sublist List.erase_sublist
    queue_inactive := fun id' hid' => h.queue_inactive id' (List.mem_of_mem_erase hid') }

/-- One turn of the loop of `_pump`, taken while its test succeeds. -/
theorem Consistent.start (h : Consistent m s) {id : ι} {rest : List ι} (hq : s.queue = id :: rest)
    (hlt : s.running.card + s.starting.card < m) : Consistent m (s.start id rest) := by
  have hid : id ∉ s.activeIds := h.queue_inactive id (by simp [hq])
  have hwait := h.queue_nodup
  rw [hq, List.nodup_cons] at hwait
  rw [h.card_starting] at hlt
  constructor
  · exact hwait.2
  · simp only [Pool.start, activeIds, List.map_append, List.map_cons, List.map_nil]
    rw [List.nodup_append_comm]
    exact List.nodup_cons.mpr ⟨hid, h.active_nodup⟩
  · intro id' hid' hact
    simp only [Pool.start, activeIds, List.map_append, List.map_cons, List.map_nil,
      List.mem_append, List.mem_singleton] at hact
    rcases hact with hact | rfl
    · exact h.queue_inactive id' (by rw [hq]; exact List.mem_cons_of_mem _ hid') hact
    · exact hwait.1 hid'
  · intro id'
    simp only [Pool.start, activeIds, Finset.mem_insert, List.map_append, List.map_cons,
      List.map_nil, List.mem_append, List.mem_singleton, h.mem_starting, or_comm]
  · intro id'
    simp [Pool.start, h.mem_running]
  · simp only [Pool.start, List.length_append, List.length_singleton]
    omega

/-- **The loop of `_pump`.**  It keeps the invariant and registers nothing; left with a queue, it
either changed nothing, the places being taken, or stopped when the sum it tests reached `m`. -/
theorem pumpLoopOn_spec : ∀ (queue : List ι) (s : Pool ι), s.queue = queue → Consistent m s →
    Consistent m (pumpLoopOn m queue s) ∧ (pumpLoopOn m queue s).running = s.running ∧
    ((pumpLoopOn m queue s).queue ≠ [] →
      (pumpLoopOn m queue s = s ∧ m ≤ s.running.card + s.active.length) ∨
      (s.active.length < (pumpLoopOn m queue s).active.length ∧
        s.running.card + (pumpLoopOn m queue s).active.length = m)) := by
  intro queue
  induction queue with
  | nil => intro s hq h; exact ⟨h, rfl, fun hne => absurd hq hne⟩
  | cons id rest ih =>
    intro s hq h
    rw [pumpLoopOn]
    split_ifs with hlt
    · obtain ⟨hc, hr, hfull⟩ := ih (s.start id rest) rfl (h.start hq hlt)
      have hlen : (s.start id rest).active.length = s.active.length + 1 := by simp [Pool.start]
      have hrun : (s.start id rest).running = s.running := rfl
      rw [h.card_starting] at hlt
      refine ⟨hc, hr, fun hne => Or.inr ?_⟩
      rcases hfull hne with ⟨heq, hle⟩ | ⟨hlt', hsum⟩
      · rw [heq]
        rw [hrun] at hle
        omega
      · rw [hrun] at hsum
        omega
    · rw [h.card_starting] at hlt
      exact ⟨h, rfl, fun _ => Or.inl ⟨rfl, by omega⟩⟩

theorem Consistent.pumpLoop (h : Consistent m s) : Consistent m (s.pumpLoop m) :=
  (pumpLoopOn_spec s.queue s rfl h).1

/-- An execution enters or leaves `_running`. -/
theorem Consistent.setPhase (h : Consistent m s) {k : ℕ} {id : ι} {p p' : Phase}
    {running : Finset ι} (hk : s.active[k]? = some ⟨id, p⟩)
    (hrun : ∀ id', id' ∈ running ↔ if id' = id then p' = .registered else id' ∈ s.running) :
    Consistent m { s with active := s.active.set k ⟨id, p'⟩, running := running } := by
  obtain ⟨l₁, l₂, hl, hset, -⟩ := exists_append_of_getElem? hk
  have hids : ({ s with active := s.active.set k ⟨id, p'⟩, running := running } : Pool ι).activeIds
      = s.activeIds := by
    show (s.active.set k ⟨id, p'⟩).map Execution.transferId = s.active.map Execution.transferId
    rw [hset, hl, List.map_append, List.map_append, List.map_cons, List.map_cons]
  constructor
  · exact h.queue_nodup
  · rw [hids]; exact h.active_nodup
  · rw [hids]; exact h.queue_inactive
  · rw [hids]; exact h.mem_starting
  · intro id'
    have hnd := h.active_nodup
    rw [activeIds, hl] at hnd
    show id' ∈ running ↔ _ ∈ s.active.set k ⟨id, p'⟩
    rw [hset, mem_set_phase hnd, hrun, h.mem_running, ← hl]
    split_ifs
    · exact eq_comm
    · rfl
  · show (s.active.set k ⟨id, p'⟩).length ≤ m
    rw [List.length_set]; exact h.active_le

theorem Consistent.finish (h : Consistent m s) {k : ℕ} {id : ι} {p : Phase}
    (hk : s.active[k]? = some ⟨id, p⟩) :
    Consistent m { s with active := s.active.eraseIdx k, starting := s.starting.erase id,
                          running := s.running.erase id } := by
  obtain ⟨l₁, l₂, hl, -, herase⟩ := exists_append_of_getElem? hk
  have hnd := h.active_nodup
  rw [activeIds, hl, List.map_append, List.map_cons, List.nodup_middle, List.nodup_cons,
    ← List.map_append] at hnd
  have hmem : ∀ id', id' ∈ (l₁ ++ l₂).map Execution.transferId ↔ id' ≠ id ∧ id' ∈ s.activeIds := by
    intro id'
    rw [activeIds, hl]
    simp only [List.map_append, List.map_cons, List.mem_append, List.mem_cons]
    constructor
    · intro hin
      refine ⟨?_, by tauto⟩
      rintro rfl
      exact hnd.1 (by rw [List.map_append, List.mem_append]; exact hin)
    · tauto
  constructor
  · exact h.queue_nodup
  · show ((s.active.eraseIdx k).map Execution.transferId).Nodup
    rw [herase]; exact hnd.2
  · intro id' hid' hact
    have hact' : id' ∈ (s.active.eraseIdx k).map Execution.transferId := hact
    rw [herase, hmem] at hact'
    exact h.queue_inactive id' hid' hact'.2
  · intro id'
    show id' ∈ s.starting.erase id ↔ id' ∈ (s.active.eraseIdx k).map Execution.transferId
    rw [herase, hmem, Finset.mem_erase, h.mem_starting]
  · intro id'
    show id' ∈ s.running.erase id ↔ _ ∈ s.active.eraseIdx k
    rw [herase, Finset.mem_erase, h.mem_running, hl]
    constructor
    · rintro ⟨hne, hin⟩
      simpa [hne] using hin
    · intro hin
      refine ⟨?_, by simp only [List.mem_append, List.mem_cons] at hin ⊢; tauto⟩
      rintro rfl
      exact hnd.1 (List.mem_map.mpr ⟨_, hin, rfl⟩)
  · show (s.active.eraseIdx k).length ≤ m
    exact (List.length_eraseIdx_le ..).trans h.active_le

/-- **Step lemma**: an action that finds its test still true keeps the invariant. -/
theorem Consistent.step {a : Act ι} (h : Consistent m s) (ho : TestHolds s a)
    (hs : s.step m a = some s') : Consistent m s' := by
  cases a with
  | enqueue id =>
    cases hs
    exact h.enqueue id
  | requeue id =>
    cases hs
    exact { h with }
  | requeued id =>
    simp only [Pool.step, Option.ite_none_right_eq_some, Option.some.injEq] at hs
    obtain ⟨-, rfl⟩ := hs
    exact Consistent.enqueue (s := { s with requeuing := s.requeuing.erase id }) { h with } id
  | enqueueSettings id queuePaused =>
    simp only [Pool.step, Option.ite_none_right_eq_some] at hs
    obtain ⟨-, hs⟩ := hs
    cases queuePaused with
    | true =>
      cases hs
      exact { h with }
    | false =>
      cases hs
      -- What was true of the id at the test is true of it still.
      exact (h.push ho.2.1 ho.2.2 (s.enqueuing.erase id)).pump
  | removeFromQueue id =>
    cases hs
    exact h.removeFromQueue id
  | pump =>
    cases hs
    exact h.pump
  | pumpSettings queuePaused =>
    simp only [Pool.step, Option.ite_none_right_eq_some, Option.some.injEq] at hs
    obtain ⟨-, rfl⟩ := hs
    split_ifs
    · exact { h with }
    · exact { h.pumpLoop with }
  | register k =>
    simp only [Pool.step] at hs
    split at hs
    · rename_i id hk
      cases hs
      refine h.setPhase hk fun id' => ?_
      -- An execution enters `active` and its phase says so, in one step.
      rw [Finset.mem_insert]
      split_ifs with hid <;> simp [hid]
    · exact absurd hs (by simp)
  | unregister k =>
    simp only [Pool.step] at hs
    split at hs
    · rename_i id hk
      cases hs
      refine h.setPhase hk fun id' => ?_
      rw [Finset.mem_erase]
      split_ifs with hid <;> simp [hid]
    · exact absurd hs (by simp)
  | finish k =>
    simp only [Pool.step] at hs
    split at hs
    · rename_i id p hk
      cases hs
      exact (h.finish hk).pump
    · exact absurd hs (by simp)
  | drain =>
    cases hs
    exact { h with }

/-- **Run lemma**: the invariant holds in every state such actions reach. -/
theorem consistent_of_run {resumable : List ι} (hnd : resumable.Nodup) {as : List (Act ι)}
    (h : Run (Pool.step m) TestHolds (boot resumable) as s) : Consistent m s :=
  h.invariant (fun _ _ _ hc ho hs => hc.step ho hs) (consistent_boot m hnd)

/-! ### One run per transfer, and the bound on the pool -/

/-- **At most one run per transfer and at most `m` of them.**  In every state reached from a
queue rebuilt from distinct rows, when every `enqueue` finds its test still true once the settings
are there, the queue names nothing twice, no transfer has two runs, and there are at most `m`
runs. -/
theorem exclusive_of_testHolds (m : ℕ) (resumable : List ι) (hnd : resumable.Nodup)
    (as : List (Act ι)) (s : Pool ι)
    (h : Run (Pool.step m) TestHolds (boot resumable) as s) : Exclusive m s :=
  (consistent_of_run hnd h).exclusive

/-- Two transfers, one rebuilt and one enqueued twice, the second time once it was queued. -/
theorem exclusive_of_testHolds_twoTransfers :
    ∃ s : Pool ℕ, Run (Pool.step 2) TestHolds (boot [7])
        [.pumpSettings false, .enqueue 8, .enqueueSettings 8 false, .register 0, .enqueue 8,
          .pumpSettings false] s ∧ Exclusive 2 s := by
  have h : Run (Pool.step 2) TestHolds (boot [7]) [.pumpSettings false, .enqueue 8,
    .enqueueSettings 8 false, .register 0, .enqueue 8, .pumpSettings false] _ := .ofExec rfl
  exact ⟨_, h, exclusive_of_testHolds 2 [7] (by decide) _ _ h⟩

/-- **Two overlapping calls defeat all three bounds.**  With two places, a second `enqueue` of
transfer `7` issued before the first has its settings leaves `7` in the queue twice; the pump then
starts it twice, and because `_starting` is a set the second start takes no place, so `8` starts
too. -/
theorem exclusive_fails :
    (∃ as s, Run (Pool.step 2) Free (boot ([] : List ℕ)) as s ∧ ¬ s.queue.Nodup) ∧
    (∃ as s, Run (Pool.step 2) Free (boot ([] : List ℕ)) as s ∧ ¬ s.activeIds.Nodup) ∧
    (∃ as s, Run (Pool.step 2) Free (boot ([] : List ℕ)) as s ∧ ¬ s.active.length ≤ 2) := by
  refine ⟨⟨[.enqueue 7, .enqueue 7, .enqueueSettings 7 false, .enqueueSettings 7 false], _,
      Run.ofExec rfl, by decide⟩,
    ⟨[.enqueue 7, .enqueue 7, .enqueueSettings 7 false, .enqueueSettings 7 false,
      .pumpSettings false], _, Run.ofExec rfl, by decide⟩,
    ⟨[.enqueue 7, .enqueue 7, .enqueue 8, .enqueueSettings 7 false, .enqueueSettings 7 false,
      .enqueueSettings 8 false, .pumpSettings false], _, Run.ofExec rfl, by decide⟩⟩

/-! ### Filling the pool -/

/-- **When the loop of `_pump` fills the pool.**  In every state reached under `TestHolds`, a
pump that stops with a queue leaves exactly `m` transfers active if and only if it began with no
transfer registered in `_running`, or with `m` transfers active already: a registered transfer
takes two of the `m` places. -/
theorem workConserving_iff (m : ℕ) (resumable : List ι) (hnd : resumable.Nodup)
    (as : List (Act ι)) (s s' : Pool ι)
    (h : Run (Pool.step m) TestHolds (boot resumable) as s)
    (hs : s.step m (.pumpSettings false) = some s') (hne : s'.queue ≠ []) :
    s'.distinctActive = m ↔ s.running = ∅ ∨ s.distinctActive = m := by
  have hc := consistent_of_run hnd h
  simp only [Pool.step, Bool.false_eq_true, ↓reduceIte, Option.ite_none_right_eq_some,
    Option.some.injEq] at hs
  obtain ⟨-, rfl⟩ := hs
  obtain ⟨hc', -, hfull⟩ := pumpLoopOn_spec s.queue s rfl hc
  have hact : ({ s.pumpLoop m with pumping := false } : Pool ι).distinctActive
      = (s.pumpLoop m).active.length := hc'.distinctActive_eq
  rw [hact, hc.distinctActive_eq, ← Finset.card_eq_zero]
  have hle := hc.active_le
  rcases hfull hne with ⟨heq, hplaces⟩ | ⟨hgrew, hplaces⟩
  · -- No turn was taken: the sum had reached `m` already.
    have : (s.pumpLoop m).active.length = s.active.length := by rw [pumpLoop, heq]
    omega
  · have hle' : (s.pumpLoop m).active.length ≤ m := hc'.active_le
    have hplaces' : s.running.card + (s.pumpLoop m).active.length = m := hplaces
    have hgrew' : s.active.length < (s.pumpLoop m).active.length := hgrew
    omega

/-- Three transfers and two places: the first pump finds nothing registered and starts two. -/
theorem workConserving_iff_threeTransfers :
    ∃ s s' : Pool ℕ, Run (Pool.step 2) TestHolds (boot [7, 8, 9]) [.enqueue 9] s ∧
      s.step 2 (.pumpSettings false) = some s' ∧ s'.queue ≠ [] ∧
      (s'.distinctActive = 2 ↔ s.running = ∅ ∨ s.distinctActive = 2) := by
  have h : Run (Pool.step 2) TestHolds (boot [7, 8, 9]) [.enqueue 9] _ := .ofExec rfl
  exact ⟨_, _, h, rfl, by decide,
    workConserving_iff 2 [7, 8, 9] (by decide) _ _ _ h rfl (by decide)⟩

/-- **A registered transfer takes two places.**  With two places, once `7` has registered a pump
leaves `8` in the queue though `7` is the only transfer active. -/
theorem workConserving_fails :
    ∃ as s s', Run (Pool.step 2) TestHolds (boot [7]) as s ∧ s.draining = false ∧
      s.step 2 (.pumpSettings false) = some s' ∧ s'.queue ≠ [] ∧ s'.distinctActive ≠ 2 :=
  ⟨[.pumpSettings false, .register 0, .enqueue 8, .enqueueSettings 8 false], _, _,
    Run.ofExec rfl, rfl, rfl, by decide, by decide⟩

end MediaCenterSync.TransferEngine.Pool
