import Mathlib.Algebra.Order.Ring.Int
import Mathlib.Tactic.Ring
import MediaCenterSync.Cache.Correct.Service

/-!
# The memory backend accounts exactly

The running total is what the entries add up to, and the order of the map is the order in which its
keys were last read or written (`Memory.Inv`).  So `_trim`, which takes entries from the front until
the total is back under the ceiling, comes to an end and never takes an entry before one that was
used less recently: `Memory.exact_of_run`.

The service reaches its backend through these calls alone, so the total is right in every state of
the service too: `State.right_of_run`.
-/

namespace MediaCenterSync.Cache

open LabelledRun

namespace MemoryBackend

def total (entries : List (String × Entry)) : ℤ :=
  (entries.map fun e => (codeUnits e.2.value : ℤ)).sum

@[simp] theorem total_nil : total [] = 0 := rfl

@[simp] theorem total_cons (e : String × Entry) (rest : List (String × Entry)) :
    total (e :: rest) = codeUnits e.2.value + total rest := rfl

@[simp] theorem total_append (front back : List (String × Entry)) :
    total (front ++ back) = total front + total back := by
  simp [total]

/-- Every key is held once, under a total that is that of the entries. -/
structure Accounted (b : MemoryBackend) : Prop where
  nodup : b.keys.Nodup
  held : b.held = total b.entries

/-! ### Forgetting -/

theorem filter_ne_of_notMem {entries : List (String × Entry)} {key : String}
    (h : key ∉ entries.map (·.1)) : entries.filter (·.1 ≠ key) = entries := by
  refine List.filter_eq_self.mpr fun e he => decide_eq_true fun heq => h ?_
  exact List.mem_map.mpr ⟨e, he, heq⟩

theorem total_filter_ne {entries : List (String × Entry)} {key : String} {entry : Entry}
    (hnodup : (entries.map (·.1)).Nodup) (h : entries.lookup key = some entry) :
    total (entries.filter (·.1 ≠ key)) + codeUnits entry.value = total entries := by
  induction entries with
  | nil => simp at h
  | cons e rest ih =>
    obtain ⟨k, v⟩ := e
    rw [List.map_cons, List.nodup_cons] at hnodup
    rw [List.lookup_cons] at h
    by_cases hkey : k = key
    · subst hkey
      obtain rfl : v = entry := by simpa using h
      have hrest : rest.filter (·.1 ≠ k) = rest := filter_ne_of_notMem hnodup.1
      rw [List.filter_cons_of_neg (by simp), hrest, total_cons]
      ring
    · have hne : (key == k) = false := by simpa using Ne.symm hkey
      rw [hne] at h
      have hrest := ih hnodup.2 h
      rw [List.filter_cons_of_pos (by simpa using hkey), total_cons, total_cons]
      omega

/-- Forgetting a key takes it out of the map, and its value out of the total. -/
theorem forget_spec {b : MemoryBackend} (h : b.Accounted) (key : String) :
    (b.forget key).entries = b.entries.filter (·.1 ≠ key) ∧ (b.forget key).Accounted := by
  have hsub : ((b.entries.filter (·.1 ≠ key)).map (·.1)).Sublist (b.entries.map (·.1)) :=
    List.filter_sublist.map _
  unfold forget
  split
  · next hlookup =>
    have hnot : key ∉ b.entries.map (·.1) := by
      rintro hmem
      obtain ⟨e, he, rfl⟩ := List.mem_map.mp hmem
      simpa using List.lookup_eq_none_iff.mp hlookup e he
    exact ⟨(filter_ne_of_notMem hnot).symm, h⟩
  · next entry hlookup =>
    have htotal := total_filter_ne h.nodup hlookup
    refine ⟨rfl, h.nodup.sublist hsub, ?_⟩
    show b.held - codeUnits entry.value = total (b.entries.filter (·.1 ≠ key))
    rw [h.held]
    omega

theorem forget_head {key : String} {entry : Entry} {rest : List (String × Entry)} (held : ℤ)
    (h : key ∉ rest.map (·.1)) :
    forget ⟨(key, entry) :: rest, held⟩ key = ⟨rest, held - codeUnits entry.value⟩ := by
  have hrest := filter_ne_of_notMem h
  simp only [ne_eq, decide_not] at hrest
  simp [forget, hrest]

theorem accounted_forgetAll {b : MemoryBackend} (h : b.Accounted) (keys : List String) :
    (b.forgetAll keys).entries = b.entries.filter (·.1 ∉ keys) ∧ (b.forgetAll keys).Accounted := by
  unfold forgetAll
  induction keys generalizing b with
  | nil => simpa using h
  | cons key keys ih =>
    obtain ⟨hentries, haccounted⟩ := forget_spec h key
    obtain ⟨hrest, hall⟩ := ih haccounted
    refine ⟨?_, hall⟩
    rw [List.foldl_cons, hrest, hentries, List.filter_filter]
    refine List.filter_congr fun e _ => ?_
    simp [Bool.and_comm]

/-! ### Trimming -/

/-- `_trim` takes entries from the front of the map, until the total is back under the ceiling. -/
theorem trimLoop_spec {entries : List (String × Entry)} {held : ℤ} (h : held = total entries) :
    (trimLoop entries held).entries <:+ entries ∧
      (trimLoop entries held).held = total (trimLoop entries held).entries ∧
      (trimLoop entries held).held ≤ memoryCeiling := by
  induction entries generalizing held with
  | nil =>
    have hzero : held = 0 := h
    have hceiling : ¬ memoryCeiling < 0 := by decide
    simp only [trimLoop, hzero, if_neg hceiling]
    exact ⟨List.suffix_rfl, rfl, by decide⟩
  | cons e rest ih =>
    rw [total_cons] at h
    unfold trimLoop
    split_ifs with hover
    · have hrest : held - codeUnits e.2.value = total rest := by omega
      obtain ⟨hsuffix, htotal⟩ := ih hrest
      exact ⟨hsuffix.trans (List.suffix_cons e rest), htotal⟩
    · exact ⟨List.suffix_rfl, h, not_lt.mp hover⟩

/-- **The loop comes to an end**, whatever the total says: with a turn for each entry, and one more
where the total is over the ceiling with nothing left. -/
theorem trimTurns_trim {b : MemoryBackend} (h : b.keys.Nodup) :
    (∃ turns ≤ b.entries.length + 1, trimTurns turns b = some b.trim) ∧
      b.trim.trimTurn = none := by
  obtain ⟨entries, held⟩ := b
  unfold trim
  show (∃ turns ≤ entries.length + 1, _ = some (trimLoop entries held)) ∧
    (trimLoop entries held).trimTurn = none
  induction entries generalizing held with
  | nil =>
    have hceiling : ¬ memoryCeiling < 0 := by decide
    by_cases hover : memoryCeiling < held
    · -- Nothing is left, and the total is put right.
      have hturn : trimTurn ⟨[], held⟩ = some ⟨[], 0⟩ := by simp [trimTurn, hover]
      refine ⟨⟨1, Nat.le_refl 1, ?_⟩, ?_⟩
      · simp [trimTurns, hturn, trimLoop, hover]
      · simp [trimLoop, hover, trimTurn, hceiling]
    · refine ⟨⟨0, Nat.zero_le 1, ?_⟩, ?_⟩
      · simp [trimTurns, trimLoop, hover]
      · simp [trimLoop, hover, trimTurn]
  | cons e rest ih =>
    have hkeys : e.1 ∉ rest.map (·.1) ∧ (rest.map (·.1)).Nodup := List.nodup_cons.mp h
    by_cases hover : memoryCeiling < held
    · have hturn : trimTurn ⟨e :: rest, held⟩ = some ⟨rest, held - codeUnits e.2.value⟩ := by
        simp only [trimTurn, hover, if_true]
        exact congrArg some (forget_head held hkeys.1)
      have hloop : trimLoop (e :: rest) held = trimLoop rest (held - codeUnits e.2.value) := by
        simp [trimLoop, hover]
      obtain ⟨⟨turns, hle, hturns⟩, hover'⟩ := ih (held - codeUnits e.2.value) hkeys.2
      rw [hloop]
      refine ⟨⟨turns + 1, ?_, ?_⟩, hover'⟩
      · rw [List.length_cons]
        omega
      · rw [trimTurns, hturn, Option.bind_some, hturns]
    · have hloop : trimLoop (e :: rest) held = ⟨e :: rest, held⟩ := by simp [trimLoop, hover]
      rw [hloop]
      exact ⟨⟨0, Nat.zero_le _, rfl⟩, by simp [trimTurn, hover]⟩

/-! ### Every call of the backend -/

theorem accounted_empty : Accounted ⟨[], 0⟩ := ⟨List.nodup_nil, rfl⟩

/-- A key that is set or read last is held once. -/
theorem nodup_concat {entries : List (String × Entry)} (h : (entries.map (·.1)).Nodup)
    (key : String) (entry : Entry) :
    ((entries.filter (·.1 ≠ key) ++ [(key, entry)]).map (·.1)).Nodup := by
  have hsub : ((entries.filter (·.1 ≠ key)).map (·.1)).Sublist (entries.map (·.1)) :=
    List.filter_sublist.map _
  have hnot : key ∉ (entries.filter (·.1 ≠ key)).map (·.1) := by
    simp only [List.mem_map, List.mem_filter, not_exists, not_and]
    rintro e ⟨-, hne⟩
    exact of_decide_eq_true hne
  rw [List.map_append, List.map_singleton]
  refine List.nodup_append.mpr ⟨h.sublist hsub, List.nodup_cons.mpr ⟨nofun, List.nodup_nil⟩, ?_⟩
  rintro a ha b hb rfl
  obtain rfl : a = key := List.mem_singleton.mp hb
  exact hnot ha

theorem place_spec {b : MemoryBackend} (h : b.Accounted) (key : String) (entry : Entry) :
    (b.place key entry).entries = b.entries.filter (·.1 ≠ key) ++ [(key, entry)] ∧
      (b.place key entry).Accounted := by
  obtain ⟨hentries, -, hheld⟩ := forget_spec h key
  have hplace : (b.place key entry).entries = b.entries.filter (·.1 ≠ key) ++ [(key, entry)] := by
    rw [← hentries]
    rfl
  refine ⟨hplace, ?_, ?_⟩
  · rw [keys, hplace]
    exact nodup_concat h.nodup key entry
  · show (b.forget key).held + codeUnits entry.value = _
    rw [hplace, hheld, hentries]
    simp

/-- What a `set` leaves is the end of what it had put in place. -/
theorem set_spec {b : MemoryBackend} (h : b.Accounted) (key : String) (entry : Entry) :
    (b.set key entry).entries <:+ (b.place key entry).entries ∧ (b.set key entry).Accounted ∧
      (b.set key entry).held ≤ memoryCeiling := by
  obtain ⟨-, hnodup, hheld⟩ := place_spec h key entry
  obtain ⟨hsuffix, htotal, hceiling⟩ := trimLoop_spec hheld
  exact ⟨hsuffix, ⟨hnodup.sublist (hsuffix.sublist.map _), htotal⟩, hceiling⟩

/-- A read that finds a value puts its key last; one that finds none may forget it. -/
theorem get_cases {b : MemoryBackend} (h : b.Accounted) (key : String) (now : ℚ) :
    (∃ entry, b.entries.lookup key = some entry ∧
      b.get key now = (some entry, ⟨b.entries.filter (·.1 ≠ key) ++ [(key, entry)], b.held⟩)) ∨
    ∃ b', b.get key now = (none, b') ∧ b'.entries.Sublist b.entries ∧ b'.Accounted := by
  unfold get
  split
  · exact .inr ⟨b, rfl, List.Sublist.refl _, h⟩
  · next entry hlookup =>
    split
    · obtain ⟨hentries, haccounted⟩ := forget_spec h key
      exact .inr ⟨_, rfl, hentries ▸ List.filter_sublist, haccounted⟩
    · exact .inl ⟨entry, hlookup, rfl⟩

/-- A key that is read keeps its value, so the total is still right. -/
theorem accounted_touched {b : MemoryBackend} (h : b.Accounted) {key : String} {entry : Entry}
    (hlookup : b.entries.lookup key = some entry) :
    Accounted ⟨b.entries.filter (·.1 ≠ key) ++ [(key, entry)], b.held⟩ where
  nodup := nodup_concat h.nodup key entry
  held := by
    have htotal := total_filter_ne h.nodup hlookup
    show b.held = total (b.entries.filter (·.1 ≠ key) ++ [(key, entry)])
    rw [total_append, total_cons, total_nil, h.held]
    show total b.entries = _ + ((codeUnits entry.value : ℤ) + 0)
    omega

theorem total_le_of_sublist {entries entries' : List (String × Entry)} (h : entries'.Sublist entries) :
    total entries' ≤ total entries := by
  induction h with
  | slnil => exact le_refl _
  | cons e _ ih =>
    rw [total_cons]
    omega
  | cons_cons e _ ih =>
    rw [total_cons, total_cons]
    omega

/-- What is right about a backend after every call. -/
structure Right (b : MemoryBackend) : Prop extends Accounted b where
  capped : b.held ≤ memoryCeiling

theorem right_empty : Right ⟨[], 0⟩ := ⟨accounted_empty, by decide⟩

theorem Right.of_sublist {b b' : MemoryBackend} (h : b.Right) (haccounted : b'.Accounted)
    (hsub : b'.entries.Sublist b.entries) : b'.Right := by
  refine ⟨haccounted, ?_⟩
  have hle := total_le_of_sublist hsub
  have hheld := h.held
  have hheld' := haccounted.held
  have hcapped := h.capped
  omega

theorem Right.forget {b : MemoryBackend} (h : b.Right) (key : String) : (b.forget key).Right := by
  obtain ⟨hentries, haccounted⟩ := forget_spec h.toAccounted key
  exact h.of_sublist haccounted (hentries ▸ List.filter_sublist)

theorem Right.forgetAll {b : MemoryBackend} (h : b.Right) (keys : List String) :
    (b.forgetAll keys).Right := by
  obtain ⟨hentries, haccounted⟩ := accounted_forgetAll h.toAccounted keys
  exact h.of_sublist haccounted (hentries ▸ List.filter_sublist)

theorem Right.clear {b : MemoryBackend} (h : b.Right) (start : Option String) :
    (b.clear start).Right := by
  cases start with
  | none => exact right_empty
  | some start => exact h.forgetAll _

theorem Right.set {b : MemoryBackend} (h : b.Right) (key : String) (entry : Entry) :
    (b.set key entry).Right := by
  obtain ⟨-, haccounted, hcapped⟩ := set_spec h.toAccounted key entry
  exact ⟨haccounted, hcapped⟩

theorem Right.get {b : MemoryBackend} (h : b.Right) (key : String) (now : ℚ) :
    (b.get key now).2.Right := by
  rcases get_cases h.toAccounted key now with ⟨entry, hlookup, heq⟩ | ⟨b', heq, hsub, hb'⟩
  · rw [heq]
    exact ⟨accounted_touched h.toAccounted hlookup, h.capped⟩
  · rw [heq]
    exact h.of_sublist hb' hsub

end MemoryBackend

/-! ### One call -/

namespace Memory

variable {m m' : Memory}

/-- Between calls the map is in the order its keys were last used in. -/
structure Inv (m : Memory) : Prop where
  right : m.backend.Right
  order : m.backend.entries.Pairwise fun a b => m.lastUse a.1 < m.lastUse b.1
  used : ∀ e ∈ m.backend.entries, m.lastUse e.1 < m.calls

theorem inv_fresh (now : ℚ) : Inv (fresh now) where
  right := MemoryBackend.right_empty
  order := List.Pairwise.nil
  used := nofun

theorem Inv.shrunk (h : Inv m) {b : MemoryBackend} (hright : b.Right)
    (hsub : b.entries.Sublist m.backend.entries) : Inv (m.withBackend b) where
  right := hright
  order := h.order.sublist hsub
  used e he := by
    have hold : m.lastUse e.1 < m.calls := h.used e (hsub.subset he)
    show m.lastUse e.1 < m.calls + 1
    omega

theorem Inv.ordered (h : Inv m) (key : String) (entry : Entry) :
    (m.backend.entries.filter (·.1 ≠ key) ++ [(key, entry)]).Pairwise
        (fun a b => (m.use key).lastUse a.1 < (m.use key).lastUse b.1) ∧
      ∀ e ∈ m.backend.entries.filter (·.1 ≠ key) ++ [(key, entry)],
        (m.use key).lastUse e.1 < m.calls + 1 := by
  have hself : (m.use key).lastUse key = m.calls := Function.update_self ..
  have hother : ∀ e ∈ m.backend.entries.filter (·.1 ≠ key),
      (m.use key).lastUse e.1 = m.lastUse e.1 ∧ m.lastUse e.1 < m.calls := by
    intro e he
    obtain ⟨hmem, hne⟩ := List.mem_filter.mp he
    exact ⟨Function.update_of_ne (of_decide_eq_true hne) .., h.used e hmem⟩
  constructor
  · refine List.pairwise_append.mpr ⟨?_, List.pairwise_singleton .., fun a ha b hb => ?_⟩
    · refine (h.order.sublist List.filter_sublist).imp_of_mem fun ha hb hlt => ?_
      rw [(hother _ ha).1, (hother _ hb).1]
      exact hlt
    · obtain rfl := List.mem_singleton.mp hb
      rw [(hother a ha).1, hself]
      exact (hother a ha).2
  · intro e he
    rcases List.mem_append.mp he with he | he
    · have hlt := hother e he
      omega
    · obtain rfl := List.mem_singleton.mp he
      rw [hself]
      omega

/-- What is left at the end of a map whose last key was used last. -/
theorem Inv.touched (h : Inv m) {key : String} {entry : Entry} {b : MemoryBackend}
    (hright : b.Right)
    (hsuffix : b.entries <:+ m.backend.entries.filter (·.1 ≠ key) ++ [(key, entry)]) :
    Inv ((m.use key).withBackend b) := by
  obtain ⟨horder, hused⟩ := h.ordered key entry
  exact ⟨hright, horder.sublist hsuffix.sublist, fun e he => hused e (hsuffix.subset he)⟩

theorem inv_step (m : Memory) (a : MemoryAct) (m' : Memory) (h : Inv m) (_ : Free m a)
    (hstep : step m a = some m') : Inv m' := by
  have haccounted := h.right.toAccounted
  -- A read moves its entry to the end; everything else only takes entries away or adds one.
  cases a with
  | get key =>
    have hright := h.right.get key m.now
    rcases MemoryBackend.get_cases haccounted key m.now with ⟨entry, -, heq⟩ | ⟨b, heq, hsub, -⟩
    · rw [heq] at hright
      simp only [step, heq, Option.some.injEq] at hstep
      subst hstep
      exact h.touched hright List.suffix_rfl
    · rw [heq] at hright
      simp only [step, heq, Option.some.injEq] at hstep
      subst hstep
      exact h.shrunk hright hsub
  | set key value ttlSeconds =>
    cases hstep
    set entry := m.entryOf value ttlSeconds
    obtain ⟨hsuffix, -⟩ := MemoryBackend.set_spec haccounted key entry
    rw [(MemoryBackend.place_spec haccounted key entry).1] at hsuffix
    exact h.touched (h.right.set key entry) hsuffix
  | delete key =>
    cases hstep
    obtain ⟨hentries, -⟩ := MemoryBackend.forget_spec haccounted key
    exact h.shrunk (h.right.forget key) (hentries ▸ List.filter_sublist)
  | clear start =>
    cases hstep
    refine h.shrunk (h.right.clear start) ?_
    cases start with
    | none => exact List.nil_sublist _
    | some start =>
      have hkeys := MemoryBackend.accounted_forgetAll haccounted
        (m.backend.keys.filter (startsWith · start))
      show (m.backend.forgetAll _).entries.Sublist _
      rw [hkeys.1]
      exact List.filter_sublist
  | sweep =>
    cases hstep
    have hkeys := MemoryBackend.accounted_forgetAll haccounted
      ((m.backend.entries.filter (·.2.expiresAt ≤ m.now)).map (·.1))
    refine h.shrunk (h.right.forgetAll _) ?_
    show (m.backend.forgetAll _).entries.Sublist _
    rw [hkeys.1]
    exact List.filter_sublist
  | dispose =>
    cases hstep
    exact h.shrunk MemoryBackend.right_empty (List.nil_sublist _)
  | clock now =>
    cases hstep
    exact ⟨h.right, h.order, h.used⟩

/-! ### Every run -/

/-- A key that is there when a `set` begins to trim, and is not when it is done. -/
def Evicted (m : Memory) (key : String) (entry : Entry) (k : String) : Prop :=
  k ∈ (m.backend.place key entry).keys ∧ k ∉ (m.backend.set key entry).keys

/-- What the memory backend keeps to, between any two calls. -/
structure Exact (m : Memory) : Prop where
  held : m.backend.held = (m.backend.entries.map fun e => (codeUnits e.2.value : ℤ)).sum
  capped : m.backend.held ≤ memoryCeiling
  /-- The loop of a `set` ends with what `set` leaves. -/
  ends : ∀ key entry, ∃ turns ≤ m.backend.entries.length + 2,
    MemoryBackend.trimTurns turns (m.backend.place key entry) = some (m.backend.set key entry) ∧
      (m.backend.set key entry).trimTurn = none
  /-- With a key, a `set` evicts every key that was used less recently. -/
  leastRecent : ∀ key value ttlSeconds m', step m (.set key value ttlSeconds) = some m' →
    ∀ a b, Evicted m key (m.entryOf value ttlSeconds) a →
      b ∈ (m.backend.place key (m.entryOf value ttlSeconds)).keys → m'.lastUse b < m'.lastUse a →
        Evicted m key (m.entryOf value ttlSeconds) b

theorem Inv.ends (h : Inv m) (key : String) (entry : Entry) :
    ∃ turns ≤ m.backend.entries.length + 2,
      MemoryBackend.trimTurns turns (m.backend.place key entry) = some (m.backend.set key entry) ∧
        (m.backend.set key entry).trimTurn = none := by
  obtain ⟨hentries, hplaced⟩ := MemoryBackend.place_spec h.right.toAccounted key entry
  obtain ⟨⟨turns, hle, hturns⟩, hover⟩ := MemoryBackend.trimTurns_trim hplaced.nodup
  have hlength : (m.backend.place key entry).entries.length ≤ m.backend.entries.length + 1 := by
    rw [hentries, List.length_append, List.length_singleton]
    have hfilter := List.length_filter_le (·.1 ≠ key) m.backend.entries
    omega
  exact ⟨turns, by omega, hturns, hover⟩

/-- Two keys of a map that is in order: what is used less recently comes first, so it is not in the
end of the map that the other is not in. -/
theorem Inv.leastRecent (h : Inv m) {key : String} {entry : Entry} {a b : String}
    (ha : Evicted m key entry a) (hb : b ∈ (m.backend.place key entry).keys)
    (hlt : (m.use key).lastUse b < (m.use key).lastUse a) : Evicted m key entry b := by
  refine ⟨hb, fun hkept => ?_⟩
  obtain ⟨hplaced, hgone⟩ := ha
  have haccounted := h.right.toAccounted
  obtain ⟨horder, -⟩ := h.ordered key entry
  obtain ⟨⟨front, hfront⟩, -⟩ := MemoryBackend.set_spec haccounted key entry
  rw [← (MemoryBackend.place_spec haccounted key entry).1, ← hfront] at horder
  obtain ⟨x, hx, rfl⟩ := List.mem_map.mp hplaced
  obtain ⟨y, hy, rfl⟩ := List.mem_map.mp hkept
  rw [← hfront] at hx
  rcases List.mem_append.mp hx with hx | hx
  · have hbefore := (List.pairwise_append.mp horder).2.2 x hx y hy
    omega
  · exact hgone (List.mem_map_of_mem hx)

/-- **The memory cache accounts exactly and evicts the least recently used**, after any calls at any
times: the total is what the values add up to and within the ceiling, `_trim` comes to an end, and
whatever it evicts, expired or not, it evicts every entry that was read or written less recently. -/
theorem exact_of_run {now : ℚ} {as : List MemoryAct} (h : Run step Free (fresh now) as m) :
    Exact m := by
  have hinv := h.invariant inv_step (inv_fresh now)
  refine ⟨hinv.right.held, hinv.right.capped, hinv.ends, ?_⟩
  rintro key value ttlSeconds m' hstep a b ha hb hlt
  cases hstep
  exact hinv.leastRecent ha hb hlt

/-- Two keys are set and the first one is read, a minute later. -/
def readAgain : List MemoryAct :=
  [.set "a" "one" 3600, .set "b" "two" 3600, .clock 60000, .get "a"]

/-- The second was used less recently. -/
theorem exact_readAgain :
    ∃ m, Exact m ∧ m.backend.keys = ["b", "a"] ∧ m.backend.held = 6 := by
  have hend : (exec step Free (fresh 0) readAgain).map
      (fun m => (m.backend.keys, m.backend.held)) = some (["b", "a"], 6) := by decide +kernel
  obtain ⟨m, hm, heq⟩ := Option.map_eq_some_iff.mp hend
  exact ⟨m, exact_of_run (Run.ofExec hm), congrArg Prod.fst heq, congrArg Prod.snd heq⟩

end Memory

/-! ### The service -/

namespace State

variable {V : Type*} {json : Json V} {s s' : State V}

/-- The service leaves its backend alone, or makes one call of it. -/
theorem right_step (s : State V) (a : Act V) (s' : State V) (h : s.backend.Right) (_ : Free s a)
    (hstep : step json s a = some s') : s'.backend.Right := by
  -- What touches the backend are the sets, the forgetting and the clearing.
  have hset : ∀ (s : State V) key value ttlSeconds now origin, s.backend.Right →
      (s.set json key value ttlSeconds now origin).backend.Right := by
    intro s key value ttlSeconds now origin h
    cases value with
    | none => exact h
    | some value => exact h.set key _
  have hparse : ∀ i, s.parse json i = some s' → s'.backend.Right := by
    intro i hparse
    obtain ⟨caller, -, hrest⟩ := Option.bind_eq_some_iff.mp hparse
    split at hrest
    · exact Option.some.inj hrest ▸ h
    · split at hrest
      · exact Option.some.inj hrest ▸ h
      · exact Option.some.inj hrest ▸ h.forget caller.key
    · cases hrest
  have hresume : ∀ i throws, s.resume i throws = some s' → s'.backend.Right := by
    intro i throws hresume
    obtain ⟨caller, -, hrest⟩ := Option.bind_eq_some_iff.mp hresume
    split at hrest
    · repeat' split at hrest
      all_goals exact Option.some.inj hrest ▸ h
    · cases hrest
  cases a with
  | get key now => exact Option.some.inj hstep ▸ h.get key now
  | wrap key ttlSeconds now => exact Option.some.inj hstep ▸ h.get key now
  | set key value ttlSeconds now => exact Option.some.inj hstep ▸ hset s key value ttlSeconds now none h
  | delete key => exact Option.some.inj hstep ▸ h.forget key
  | clear start => exact Option.some.inj hstep ▸ h.clear start
  | setDefaultTtl seconds =>
    simp only [step] at hstep
    split at hstep <;> exact Option.some.inj hstep ▸ h
  | evict now => exact Option.some.inj hstep ▸ h.forgetAll _
  | onModuleDestroy => exact Option.some.inj hstep ▸ MemoryBackend.right_empty
  | parse caller => exact hparse caller hstep
  | resume caller throws => exact hresume caller throws hstep
  | settle call outcome =>
    obtain ⟨_, -, hrest⟩ := Option.bind_eq_some_iff.mp hstep
    split at hrest
    · exact Option.some.inj hrest ▸ h
    · cases hrest
  | keep call now =>
    obtain ⟨_, -, hrest⟩ := Option.bind_eq_some_iff.mp hstep
    split at hrest
    · exact Option.some.inj hrest ▸ hset s _ _ _ now (some call) h
    · cases hrest
  | release call =>
    obtain ⟨_, -, hrest⟩ := Option.bind_eq_some_iff.mp hstep
    obtain ⟨_, -, hrest⟩ := Option.bind_eq_some_iff.mp hrest
    exact Option.some.inj hrest ▸ h
  | deliver caller =>
    obtain ⟨_, -, hrest⟩ := Option.bind_eq_some_iff.mp hstep
    split at hrest
    · obtain ⟨_, -, hrest⟩ := Option.bind_eq_some_iff.mp hrest
      split at hrest
      · exact Option.some.inj hrest ▸ h
      · exact Option.some.inj hrest ▸ h
      · cases hrest
    · cases hrest

/-- Whatever its callers do, what the service holds is accounted for and within the ceiling. -/
theorem right_of_run {as : List (Act V)} (h : Run (step json) Free boot as s) : s.backend.Right :=
  h.invariant right_step MemoryBackend.right_empty

/-- After an answer that came late was stored. -/
theorem right_rescanned :
    ((exec (step jsonBool) Free boot rescanned).get (by decide +kernel)).backend.Right :=
  right_of_run (.ofExec (Option.some_get _).symm)

end State

end MediaCenterSync.Cache
