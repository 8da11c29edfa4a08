import Mathlib.Data.List.Basic
import Mathlib.Data.Option.Basic

/-!
# Sparse files

A file written at any offset in any order has holes: offsets below its length that nobody wrote.
They read as zero, so the length of a file says nothing about them.  Here a file is the list of
its offsets, `none` for a hole.

`Holds c f a b` says that the file has the bytes of `c` at the offsets from `a` up to `b`.  Writing
bytes of `c` where they belong keeps what is held (`Holds.write`) and extends it
(`Holds.written`).
-/

/-- The offsets of a file, holes included. -/
abbrev SparseFile (α : Type*) := List (Option α)

namespace SparseFile

variable {α : Type*}

/-- Stores the bytes from an offset on, leaving a hole behind the end when it lies beyond. -/
def write (f : SparseFile α) (position : ℕ) (bytes : List α) : SparseFile α :=
  f.take position ++ List.replicate (position - f.length) none ++ bytes.map some ++
    f.drop (position + bytes.length)

def read (zero : α) (f : SparseFile α) : List α := f.map (·.getD zero)

/-- The file has the bytes of `content` from `a` up to `b`. -/
def Holds (content : List α) (f : SparseFile α) (a b : ℕ) : Prop :=
  ∀ i, a ≤ i → i < b → ∃ x, content[i]? = some x ∧ f[i]? = some (some x)

instance [DecidableEq α] (content : List α) (f : SparseFile α) (a b : ℕ) :
    Decidable (Holds content f a b) :=
  decidable_of_iff (∀ i < b, a ≤ i → ∃ x ∈ content[i]?, f[i]? = some (some x)) <| by
    simp only [Holds, Option.mem_def]
    exact ⟨fun h i ha hb => h i hb ha, fun h i hb ha => h i ha hb⟩

theorem length_write (f : SparseFile α) (position : ℕ) (bytes : List α) :
    (f.write position bytes).length = max f.length (position + bytes.length) := by
  simp only [write, List.length_append, List.length_take, List.length_replicate, List.length_map,
    List.length_drop]
  omega

theorem getElem?_write_here (f : SparseFile α) {position i : ℕ} {bytes : List α} (hi : position ≤ i)
    (hb : i < position + bytes.length) :
    (f.write position bytes)[i]? = bytes[i - position]?.map some := by
  have hhead :
      (f.take position ++ List.replicate (position - f.length) none).length = position := by
    simp only [List.length_append, List.length_take, List.length_replicate]
    omega
  rw [write, List.getElem?_append_left, List.getElem?_append_right, hhead, List.getElem?_map]
  · rw [hhead]
    exact hi
  · rw [List.length_append, hhead, List.length_map]
    exact hb

theorem getElem?_write_away (f : SparseFile α) {position i : ℕ} {bytes : List α}
    (hi : i < position ∨ position + bytes.length ≤ i) (hf : i < f.length) :
    (f.write position bytes)[i]? = f[i]? := by
  have hhead :
      (f.take position ++ List.replicate (position - f.length) none).length = position := by
    simp only [List.length_append, List.length_take, List.length_replicate]
    omega
  obtain hi | hi := hi
  · rw [write, List.append_assoc, List.getElem?_append_left, List.getElem?_append_left,
      List.getElem?_take_of_lt hi]
    · simp only [List.length_take]
      omega
    · rw [hhead]
      exact hi
  · rw [write, List.getElem?_append_right]
    · simp only [List.length_append, hhead, List.length_map, List.getElem?_drop]
      congr 1
      omega
    · rw [List.length_append, hhead, List.length_map]
      exact hi

theorem Holds.mono {c : List α} {f : SparseFile α} {a a' b b' : ℕ} (h : Holds c f a b)
    (ha : a ≤ a') (hb : b' ≤ b) : Holds c f a' b' :=
  fun i hi hi' => h i (by omega) (by omega)

theorem holds_of_le {c : List α} {f : SparseFile α} {a b : ℕ} (h : b ≤ a) : Holds c f a b :=
  fun i hi hi' => by omega

theorem Holds.trans {c : List α} {f : SparseFile α} {a b d : ℕ} (h : Holds c f a b)
    (h' : Holds c f b d) : Holds c f a d := by
  intro i hi hi'
  by_cases hb : i < b
  · exact h i hi hb
  · exact h' i (by omega) hi'

theorem holds_write (content : List α) (f : SparseFile α) (position : ℕ) {n : ℕ}
    (hn : position + n ≤ content.length) :
    Holds content (f.write position ((content.drop position).take n)) position (position + n) := by
  intro i hi hi'
  have hlength : ((content.drop position).take n).length = n := by
    simp only [List.length_take, List.length_drop]
    omega
  refine ⟨content[i], List.getElem?_eq_getElem (by omega), ?_⟩
  rw [getElem?_write_here f hi (by omega), List.getElem?_take_of_lt (by omega), List.getElem?_drop]
  have hadd : position + (i - position) = i := by omega
  rw [hadd, List.getElem?_eq_getElem (by omega)]
  rfl

theorem Holds.write {c : List α} {f : SparseFile α} {a b : ℕ} (h : Holds c f a b) (position n : ℕ) :
    Holds c (f.write position ((c.drop position).take n)) a b := by
  intro i hi hi'
  obtain ⟨x, hx, hf⟩ := h i hi hi'
  have hlength : i < f.length := (List.getElem?_eq_some_iff.mp hf).1
  by_cases haway : i < position ∨ position + ((c.drop position).take n).length ≤ i
  · exact ⟨x, hx, by rw [getElem?_write_away f haway hlength, hf]⟩
  · refine ⟨x, hx, ?_⟩
    obtain ⟨hi₁, hi₂⟩ := not_or.mp haway
    have hlow : position ≤ i := by omega
    have hhigh : i < position + ((c.drop position).take n).length := by omega
    have hn : i - position < n := by
      simp only [List.length_take, List.length_drop] at hhigh
      omega
    have hadd : position + (i - position) = i := by omega
    rw [getElem?_write_here f hlow hhigh, List.getElem?_take_of_lt hn, List.getElem?_drop, hadd, hx]
    rfl

theorem Holds.written {c : List α} {f : SparseFile α} {a position n : ℕ} (h : Holds c f a position)
    (hn : position + n ≤ c.length) :
    Holds c (f.write position ((c.drop position).take n)) a (position + n) :=
  (h.write position n).trans (holds_write c f position hn)

end SparseFile
