import Mathlib.Data.List.Count
import Mathlib.Order.Lattice
import Mathlib.Order.Nat

/-!
# Walking a store by a cursor

A store of stamped items is read a page at a time: `page s` is what a read from the cursor `s` gives,
and `next s` is where the one after it starts.  A read that leaves something out has to go on
(`Advances`): past the cursor, to a stamp that is borne, and past nothing it did not give.  Then a
finite number of reads gives every item at or after the first cursor: `exists_all_given`.
-/

namespace CursorWalk

variable {ι α : Type*} [LinearOrder α] (stamp : ι → α) (store : List ι) (next : α → α)
  (page : α → List ι)

/-- Everything at or after the cursor is given. -/
def Exhausts (s : α) : Prop := ∀ item ∈ store, s ≤ stamp item → item ∈ page s

/-- The next cursor is a later stamp, and everything before it is given. -/
structure Advances (s : α) : Prop where
  lt : s < next s
  borne : ∃ item ∈ store, stamp item = next s
  given : ∀ item ∈ store, s ≤ stamp item → stamp item < next s → item ∈ page s

variable {stamp store next page}

theorem countP_lt {s : α} (h : Advances stamp store next page s) :
    store.countP (next s < stamp ·) < store.countP (s < stamp ·) := by
  obtain ⟨item, hitem, hstamp⟩ := h.borne
  have hmono : store.countP (next s < stamp ·) ≤ (store.filter (s < stamp ·)).countP
      (next s < stamp ·) := by
    rw [List.countP_filter]
    refine List.countP_mono_left fun one _ hone => ?_
    have hone : next s < stamp one := by simpa using hone
    simpa using ⟨hone, lt_trans h.lt hone⟩
  have hthere : item ∈ store.filter (s < stamp ·) :=
    List.mem_filter.mpr ⟨hitem, by simpa [hstamp] using h.lt⟩
  have hlost : (store.filter (s < stamp ·)).countP (next s < stamp ·) <
      (store.filter (s < stamp ·)).length := by
    refine lt_of_le_of_ne List.countP_le_length fun heq => ?_
    have hall := List.countP_eq_length.mp heq item hthere
    rw [hstamp] at hall
    simp at hall
  rw [List.countP_eq_length_filter (p := fun item => decide (s < stamp item))]
  exact lt_of_le_of_lt hmono hlost

/-- **Nothing is passed over**: after a finite number of reads every item at or after the first
cursor was given. -/
theorem exists_all_given {c : α} (h : ∀ n, Exhausts stamp store page (next^[n] c) ∨
    Advances stamp store next page (next^[n] c)) :
    ∃ n, ∀ item ∈ store, c ≤ stamp item → ∃ k < n, item ∈ page (next^[k] c) := by
  generalize hcount : store.countP (c < stamp ·) = count
  induction count using Nat.strongRecOn generalizing c with
  | ind count ih =>
    rcases h 0 with hall | hadvances
    · exact ⟨1, fun item hitem hle => ⟨0, Nat.one_pos, hall item hitem hle⟩⟩
    · subst hcount
      obtain ⟨n, hn⟩ := ih _ (countP_lt hadvances)
        (fun n => by simpa only [← Function.iterate_succ_apply] using h (n + 1)) rfl
      refine ⟨n + 1, fun item hitem hle => ?_⟩
      by_cases hbefore : stamp item < next c
      · exact ⟨0, Nat.succ_pos n, hadvances.given item hitem hle hbefore⟩
      · obtain ⟨k, hk, hgiven⟩ := hn item hitem (not_lt.mp hbefore)
        exact ⟨k + 1, Nat.succ_lt_succ hk, hgiven⟩

end CursorWalk
