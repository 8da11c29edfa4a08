import Mathlib.Data.Nat.Notation

/-!
# Copies of a store that is written

A store goes from one content to the next, and its writes are counted.  A copy of it carries how
many of them it has seen.  `Follows content writes` says of a copy that it has seen no more writes
than there were, and that it is the content if it has seen them all.  So a copy that falls behind
says nothing, and one that is known to be up to date is the store.
-/

/-- A value, and how many writes it has seen. -/
structure Copy (α : Type*) where
  value : α
  seen : ℕ

namespace Copy

variable {α β : Type*} {content content' : α} {writes : ℕ} {copy : Copy α}

def map (f : α → β) (copy : Copy α) : Copy β := ⟨f copy.value, copy.seen⟩

@[simp] theorem map_value (f : α → β) : (copy.map f).value = f copy.value := rfl

@[simp] theorem map_seen (f : α → β) : (copy.map f).seen = copy.seen := rfl

/-- The copy is the content, unless it fell behind. -/
structure Follows (content : α) (writes : ℕ) (copy : Copy α) : Prop where
  le : copy.seen ≤ writes
  eq : copy.seen = writes → copy.value = content

theorem follows_taken (content : α) (writes : ℕ) : Follows content writes ⟨content, writes⟩ :=
  ⟨Nat.le_refl _, fun _ => rfl⟩

theorem Follows.write (h : copy.Follows content writes) : copy.Follows content' (writes + 1) where
  le := Nat.le_succ_of_le h.le
  eq hseen := absurd (Nat.le_trans (Nat.le_of_eq hseen.symm) h.le) (Nat.not_succ_le_self writes)

theorem Follows.map (h : copy.Follows content writes) (f : α → β) :
    (copy.map f).Follows (f content) writes where
  le := h.le
  eq hseen := congrArg f (h.eq hseen)

/-- A write keeps up to date what was up to date and knows of the write. -/
theorem Follows.wrote (copy : Copy α) {value content' : β} (hle : copy.seen ≤ writes)
    (heq : copy.seen = writes → value = content') :
    Follows content' (writes + 1) ⟨value, copy.seen + 1⟩ where
  le := Nat.succ_le_succ hle
  eq hseen := heq (Nat.succ.inj hseen)

end Copy
