import Mathlib.Data.List.Nodup

/-!
# Lists read one after another, and read by key

A list is read when every element is (`mapM_eq_some_iff`), and what was read of it are the values of
its elements (`mem_of_mapM`).  Where every key is there once, a key gives its entry.
-/

namespace Fallible

variable {α β κ : Type*} {f : α → Option β} {l : List α} {read : List β}

theorem mapM_eq_some_iff : l.mapM f = some read ↔ List.Forall₂ (f · = some ·) l read := by
  induction l generalizing read with
  | nil => simp [List.forall₂_nil_left_iff, eq_comm]
  | cons a rest ih =>
    rw [List.mapM_cons, List.forall₂_cons_left_iff]
    simp only [Option.bind_eq_bind, Option.bind_eq_some_iff, Option.pure_def, Option.some.injEq, ih]
    constructor
    · rintro ⟨b, hb, tail, htail, rfl⟩
      exact ⟨b, tail, hb, htail, rfl⟩
    · rintro ⟨b, tail, hb, htail, rfl⟩
      exact ⟨b, hb, tail, htail, rfl⟩

theorem mapM_eq_none_iff : l.mapM f = none ↔ ∃ a ∈ l, f a = none := by
  induction l with
  | nil => simp
  | cons a rest ih =>
    rw [List.mapM_cons]
    cases h : f a <;> cases hrest : rest.mapM f <;> simp_all

theorem mem_of_mapM (h : l.mapM f = some read) (b : β) : b ∈ read ↔ ∃ a ∈ l, f a = some b := by
  rw [mapM_eq_some_iff] at h
  induction h with
  | nil => simp
  | @cons a c rest tail hac _ ih =>
    simp only [List.mem_cons, ih, exists_eq_or_imp, hac, Option.some.injEq]
    exact or_congr_left eq_comm

theorem map_of_mapM {g : β → κ} {k : α → κ} (h : l.mapM f = some read)
    (hkey : ∀ a b, f a = some b → g b = k a) : read.map g = l.map k := by
  rw [mapM_eq_some_iff] at h
  induction h with
  | nil => rfl
  | cons hab _ ih => rw [List.map_cons, List.map_cons, ih, hkey _ _ hab]

theorem lookup_eq_some_iff_mem [DecidableEq κ] {entries : List (κ × β)}
    (hnodup : (entries.map Prod.fst).Nodup) (key : κ) (value : β) :
    entries.lookup key = some value ↔ (key, value) ∈ entries := by
  induction entries with
  | nil => simp
  | cons entry rest ih =>
    obtain ⟨k, v⟩ := entry
    rw [List.map_cons, List.nodup_cons] at hnodup
    by_cases hkey : key = k
    · subst hkey
      have hrest : (key, value) ∉ rest := fun h =>
        hnodup.1 (List.mem_map.mpr ⟨_, h, rfl⟩)
      simp [hrest, eq_comm]
    · rw [List.lookup_cons, beq_false_of_ne hkey]
      simp [ih hnodup.2, hkey]

/-! ### Steps that may be refused -/

section

universe u v

variable {ε : Type v} {α β : Type u}

theorem exists_eq_ok {x : Except ε α} (h : x.isOk = true) : ∃ a, x = .ok a := by
  cases x with
  | ok a => exact ⟨a, rfl⟩
  | error e => exact absurd h Bool.false_ne_true

theorem bind_eq_ok {b : β} {x : Except ε α} {g : α → Except ε β} :
    x >>= g = .ok b ↔ ∃ a, x = .ok a ∧ g a = .ok b := by
  cases x with
  | ok a => exact ⟨fun h => ⟨a, rfl, h⟩, by rintro ⟨_, ⟨⟩, h⟩; exact h⟩
  | error e => exact ⟨nofun, by rintro ⟨_, ⟨⟩, _⟩⟩

theorem forM_eq_ok {l : List α} {check : α → Except ε Unit} :
    l.forM check = .ok ⟨⟩ ↔ ∀ a ∈ l, check a = .ok ⟨⟩ := by
  induction l with
  | nil => exact ⟨fun _ _ => nofun, fun _ => rfl⟩
  | cons a rest ih =>
    change (check a >>= fun _ => rest.forM check) = .ok ⟨⟩ ↔ _
    rw [bind_eq_ok, List.forall_mem_cons, ← ih]
    constructor
    · rintro ⟨⟨⟩, ha, hrest⟩
      exact ⟨ha, hrest⟩
    · rintro ⟨ha, hrest⟩
      exact ⟨⟨⟩, ha, hrest⟩

end

end Fallible
