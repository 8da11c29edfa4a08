import Mathlib.Algebra.BigOperators.Group.List.Basic
import Mathlib.Algebra.Order.Ring.Nat
import Mathlib.Data.Finset.Card

/-!
# Events in the order they happened

A history only grows at its end, so a statement about every event and what came before and after it
goes on from one history to the next by `append_eq_append_cons`: the event was there before, or it is
one of those that were added.
-/

namespace History

variable {ε : Type*}

/-- An event of a longer history is one of the history before or one of those added. -/
theorem append_eq_append_cons {log events before after : List ε} {event : ε}
    (h : log ++ events = before ++ event :: after) :
    (∃ after', log = before ++ event :: after' ∧ after = after' ++ events) ∨
      ∃ before', before = log ++ before' ∧ events = before' ++ event :: after := by
  rcases List.append_eq_append_iff.mp h with ⟨before', rfl, hevents⟩ | ⟨tail, rfl, htail⟩
  · exact .inr ⟨before', rfl, hevents⟩
  · rcases tail with _ | ⟨first, tail⟩
    · exact .inr ⟨[], by simp, by simpa using htail.symm⟩
    · obtain ⟨rfl, rfl⟩ := List.cons_eq_cons.mp htail
      exact .inl ⟨tail, rfl, rfl⟩

/-- An event of a history that grew by one is one of the history before or the one added. -/
theorem append_singleton_eq_append_cons {log before after : List ε} {last event : ε}
    (h : log ++ [last] = before ++ event :: after) :
    (∃ after', log = before ++ event :: after' ∧ after = after' ++ [last]) ∨
      before = log ∧ event = last ∧ after = [] := by
  rcases append_eq_append_cons h with hold | ⟨before', rfl, hevents⟩
  · exact .inl hold
  · rcases before' with _ | ⟨_, before'⟩
    · obtain ⟨rfl, rfl⟩ := List.cons_eq_cons.mp hevents
      exact .inr ⟨List.append_nil log, rfl, rfl⟩
    · simp at hevents

end History

/-!
## Sums over the entries of a list

What an entry contributes, and what the sum is after one of them changed (`sum_map_modify`).  Items
that are each about another entry, and no more than it, are no more than all entries together
(`sum_map_le`).
-/

namespace Tally

variable {α β : Type*}

theorem sum_map_modify {l : List α} {i : ℕ} {a : α} (h : l[i]? = some a) (f : α → α) (g : α → ℕ) :
    ((l.modify i f).map g).sum + g a = (l.map g).sum + g (f a) := by
  induction l generalizing i with
  | nil => simp at h
  | cons first rest ih =>
    cases i with
    | zero =>
      cases h
      simp only [List.modify_zero_cons, List.map_cons, List.sum_cons]
      omega
    | succ i =>
      have hrest := ih (i := i) (by simpa using h)
      simp only [List.modify_succ_cons, List.map_cons, List.sum_cons]
      omega

theorem sum_set_zero {l : List ℕ} {i n : ℕ} (h : l[i]? = some n) : (l.set i 0).sum + n = l.sum := by
  have hmodify := sum_map_modify h (fun _ => 0) id
  rw [List.modify_eq_set] at hmodify
  simpa using hmodify

theorem sum_map_le {items : List β} {key : β → ℕ} {share : β → ℕ} {entries : List ℕ}
    (hnodup : (items.map key).Nodup)
    (hle : ∀ item ∈ items, ∃ n, entries[key item]? = some n ∧ share item ≤ n) :
    (items.map share).sum ≤ entries.sum := by
  induction items generalizing entries with
  | nil => exact Nat.zero_le _
  | cons item rest ih =>
    rw [List.map_cons, List.nodup_cons] at hnodup
    obtain ⟨n, hn, hitem⟩ := hle item List.mem_cons_self
    -- The entry of this item is not that of another.
    have hrest : (rest.map share).sum ≤ (entries.set (key item) 0).sum := by
      refine ih hnodup.2 fun other hother => ?_
      have hne : key item ≠ key other := fun heq =>
        hnodup.1 (heq ▸ List.mem_map_of_mem hother)
      obtain ⟨m, hm, hle⟩ := hle other (List.mem_cons_of_mem item hother)
      exact ⟨m, by rw [List.getElem?_set_ne hne, hm], hle⟩
    have htotal := sum_set_zero hn
    rw [List.map_cons, List.sum_cons]
    omega

end Tally

/-!
## Blocks laid end to end

Blocks of given lengths, one after the other from 1 on: block `i` has the numbers behind the sum of
the lengths before it.  Every number up to the whole length is in a block (`exists_block`).
-/

namespace Blocks

variable {lengths : List ℕ} {n : ℕ}

/-- The numbers before block `i`. -/
def before (lengths : List ℕ) (i : ℕ) : ℕ := (lengths.take i).sum

theorem before_cons (length i : ℕ) :
    before (length :: lengths) (i + 1) = length + before lengths i := by
  unfold before
  rw [List.take_succ_cons, List.sum_cons]

theorem exists_block (hpos : 0 < n) (hle : n ≤ lengths.sum) :
    ∃ i, ∃ h : i < lengths.length, ∃ a, n = before lengths i + a ∧ 1 ≤ a ∧ a ≤ lengths[i] := by
  induction lengths generalizing n with
  | nil =>
    rw [List.sum_nil] at hle
    omega
  | cons length lengths ih =>
    rw [List.sum_cons] at hle
    by_cases hfirst : n ≤ length
    · exact ⟨0, Nat.succ_pos _, n, by simp [before], hpos, hfirst⟩
    · obtain ⟨i, hi, a, heq, hlower, hupper⟩ := @ih (n - length) (by omega) (by omega)
      refine ⟨i + 1, Nat.succ_lt_succ hi, a, ?_, hlower, hupper⟩
      rw [before_cons]
      omega

end Blocks

/-!
## The first of each key

Of a list whose elements have keys, the first element of each key (`firsts`).  A loop that skips an
element whose key it has seen is a loop over these (`foldl_seen`), and how many of them satisfy
something is the size of the set of their keys (`length_filter_firsts`).
-/

namespace List

variable {α κ σ : Type*} [DecidableEq κ]

/-- The first element of each key, in their order. -/
def firsts (key : α → κ) : List α → List α
  | [] => []
  | a :: rest => a :: (firsts key rest).filter (key · ≠ key a)

variable {key : α → κ} {l : List α} {a : α}

theorem mem_of_mem_firsts (h : a ∈ l.firsts key) : a ∈ l := by
  induction l with
  | nil => exact h
  | cons b rest ih =>
    rcases mem_cons.mp h with rfl | hrest
    · exact mem_cons_self
    · exact mem_cons_of_mem _ (ih (mem_of_mem_filter hrest))

theorem exists_mem_firsts (key : α → κ) (h : a ∈ l) : ∃ b ∈ l.firsts key, key b = key a := by
  induction l with
  | nil => cases h
  | cons c rest ih =>
    by_cases hkey : key c = key a
    · exact ⟨c, mem_cons_self, hkey⟩
    · rcases mem_cons.mp h with rfl | hrest
      · exact absurd rfl hkey
      · obtain ⟨b, hb, hbkey⟩ := ih hrest
        refine ⟨b, mem_cons_of_mem _ (mem_filter.mpr ⟨hb, decide_eq_true fun heq => ?_⟩), hbkey⟩
        exact hkey (heq.symm.trans hbkey)

theorem nodup_keys_firsts : ((l.firsts key).map key).Nodup := by
  induction l with
  | nil => exact nodup_nil
  | cons a rest ih =>
    rw [firsts, map_cons, nodup_cons]
    refine ⟨fun hin => ?_, ih.sublist (filter_sublist.map key)⟩
    obtain ⟨b, hb, hkey⟩ := mem_map.mp hin
    exact of_decide_eq_true (mem_filter.mp hb).2 hkey

theorem length_filter_firsts (p : α → Bool) :
    ((l.firsts key).filter p).length = (((l.firsts key).filter p).map key).toFinset.card := by
  rw [toFinset_card_of_nodup (nodup_keys_firsts.sublist (filter_sublist.map key)), length_map]

/-- **A loop that skips what it has seen** goes over the firsts that it has not seen before. -/
theorem foldl_seen (key : α → κ) (seen : σ → List κ) (visit : σ → α → σ) {step : σ → α → σ}
    {l : List α} (hskip : ∀ s, ∀ a ∈ l, key a ∈ seen s → step s a = s)
    (hvisit : ∀ s, ∀ a ∈ l, key a ∉ seen s → step s a = visit s a)
    (hseen : ∀ s a, seen (visit s a) = seen s ++ [key a]) (s : σ) :
    l.foldl step s = ((l.firsts key).filter (key · ∉ seen s)).foldl visit s := by
  induction l generalizing s with
  | nil => rfl
  | cons a rest ih =>
    rw [foldl_cons, ih (fun s b hb => hskip s b (mem_cons_of_mem _ hb)) fun s b hb =>
      hvisit s b (mem_cons_of_mem _ hb), firsts, filter_cons]
    by_cases hkey : key a ∈ seen s
    · rw [hskip s a mem_cons_self hkey, if_neg (by simpa using hkey), filter_filter]
      congr 1
      refine filter_congr fun b _ => ?_
      by_cases hb : key b ∈ seen s
      · simp [hb]
      · have hne : key b ≠ key a := fun heq => hb (heq ▸ hkey)
        simp [hb, hne]
    · rw [hvisit s a mem_cons_self hkey, if_pos (by simpa using hkey), foldl_cons, filter_filter]
      congr 1
      refine filter_congr fun b _ => ?_
      rw [hseen]
      simp [Bool.and_comm]

theorem foldl_entries {ν : Type*} (key : α → κ) (value : α → ν)
    {step : List (κ × ν) → α → List (κ × ν)} {l : List α}
    (hskip : ∀ entries, ∀ a ∈ l, key a ∈ entries.map Prod.fst → step entries a = entries)
    (hvisit : ∀ entries, ∀ a ∈ l, key a ∉ entries.map Prod.fst →
      step entries a = entries ++ [(key a, value a)]) :
    l.foldl step [] = (l.firsts key).map fun a => (key a, value a) := by
  rw [foldl_seen key (map Prod.fst) (fun entries a => entries ++ [(key a, value a)]) hskip hvisit
    fun entries a => map_append]
  simp only [map_nil, not_mem_nil, not_false_eq_true, decide_true, filter_true]
  rw [foldl_append_eq_append, nil_append, ← flatMap_def, ← map_eq_flatMap]

end List
