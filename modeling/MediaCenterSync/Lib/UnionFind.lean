import Mathlib.Data.List.Basic
import Mathlib.Logic.Relation

/-!
# Union-find over any type

A forest is given by where each element points, a root pointing at itself.  The root of an element
is found by following it (`climb`), which stops because nothing points back (`Acyclic`): then it is
found in as many turns as there are elements that are no root, and one more
(`climb_eq_root`).

`root_update` says what pointing one root at another does to the root of every element, and
`eqvGen_merge` what that means for the relation the roots stand for: two elements have one root
exactly when the pairs that were joined connect them.
-/

namespace UnionFind

variable {α : Type*} [DecidableEq α]

/-- Follows the forest for so many turns. -/
def climb (up : α → α) : ℕ → α → Option α
  | 0, _ => none
  | turns + 1, a => if up a = a then some a else climb up turns (up a)

/-- Nothing points back. -/
def Acyclic (up : α → α) : Prop := ∃ depth : α → ℕ, ∀ a, up a ≠ a → depth (up a) < depth a

/-- Every element that points elsewhere is one of these. -/
def Within (up : α → α) (keys : List α) : Prop := ∀ a, up a ≠ a → a ∈ keys

/-- Where an element leads, in as many turns as it can take. -/
def root (up : α → α) (keys : List α) (a : α) : α := (climb up (keys.length + 1) a).getD a

section

variable {up : α → α} {keys : List α}

theorem climb_mono {turns turns' : ℕ} (h : turns ≤ turns') {a r : α}
    (hr : climb up turns a = some r) : climb up turns' a = some r := by
  induction turns generalizing turns' a with
  | zero => cases hr
  | succ turns ih =>
    obtain ⟨more, rfl⟩ : ∃ more, turns' = more + 1 := ⟨turns' - 1, by omega⟩
    rw [climb] at hr ⊢
    split
    · rename_i hfixed
      rwa [if_pos hfixed] at hr
    · rename_i hmoves
      rw [if_neg hmoves] at hr
      exact ih (by omega) hr

/-- **Termination**: what is passed on the way is not met again. -/
theorem climb_isSome (hacyclic : Acyclic up) (hkeys : Within up keys) (a : α) :
    ∃ r, climb up (keys.length + 1) a = some r := by
  obtain ⟨depth, hdepth⟩ := hacyclic
  -- Only elements of at most this depth can still be met.
  have key : ∀ (n : ℕ) (keys : List α) (a : α), keys.length ≤ n →
      (∀ b, depth b ≤ depth a → up b ≠ b → b ∈ keys) → ∃ r, climb up (n + 1) a = some r := by
    intro n
    induction n with
    | zero =>
      intro keys a hlength hmem
      have hfixed : up a = a := by
        by_contra hmoves
        have := List.length_pos_of_mem (hmem a (Nat.le_refl _) hmoves)
        omega
      exact ⟨a, by rw [climb, if_pos hfixed]⟩
    | succ n ih =>
      intro keys a hlength hmem
      by_cases hfixed : up a = a
      · exact ⟨a, by rw [climb, if_pos hfixed]⟩
      · have ha := hmem a (Nat.le_refl _) hfixed
        have hless := hdepth a hfixed
        obtain ⟨r, hr⟩ := ih (keys.erase a) (up a) (by rw [List.length_erase_of_mem ha]; omega)
          fun b hb hmoves => by
            have hne : b ≠ a := by
              rintro rfl
              omega
            exact (List.mem_erase_of_ne hne).mpr (hmem b (by omega) hmoves)
        exact ⟨r, by rw [climb, if_neg hfixed, hr]⟩
  exact key keys.length keys a (Nat.le_refl _) fun b _ hb => hkeys b hb

theorem climb_eq_root (hacyclic : Acyclic up) (hkeys : Within up keys) {turns : ℕ}
    (h : keys.length < turns) (a : α) : climb up turns a = some (root up keys a) := by
  obtain ⟨r, hr⟩ := climb_isSome hacyclic hkeys a
  rw [root, hr, climb_mono h hr]
  rfl

theorem root_of_fixed {a : α} (h : up a = a) : root up keys a = a := by
  rw [root, climb, if_pos h]
  rfl

theorem root_up (hacyclic : Acyclic up) (hkeys : Within up keys) (a : α) :
    root up keys (up a) = root up keys a := by
  by_cases hfixed : up a = a
  · rw [hfixed]
  · have hlong : climb up (keys.length + 2) a = some (root up keys a) :=
      climb_eq_root hacyclic hkeys (by omega) a
    rw [climb, if_neg hfixed, climb_eq_root hacyclic hkeys (by omega)] at hlong
    exact Option.some.inj hlong

/-- **Uniqueness**: the root is what stays the same along the forest. -/
theorem eq_root (hacyclic : Acyclic up) (hkeys : Within up keys) {f : α → α}
    (hfixed : ∀ a, up a = a → f a = a) (hup : ∀ a, f (up a) = f a) (a : α) :
    f a = root up keys a := by
  obtain ⟨depth, hdepth⟩ := hacyclic
  induction hn : depth a using Nat.strongRecOn generalizing a with
  | ind n ih =>
    by_cases h : up a = a
    · rw [hfixed a h, root_of_fixed h]
    · have hless := hdepth a h
      rw [← hup, ← root_up ⟨depth, hdepth⟩ hkeys a]
      exact ih _ (by omega) (up a) rfl

theorem up_root (hacyclic : Acyclic up) (hkeys : Within up keys) (a : α) :
    up (root up keys a) = root up keys a := by
  obtain ⟨depth, hdepth⟩ := hacyclic
  induction hn : depth a using Nat.strongRecOn generalizing a with
  | ind n ih =>
    by_cases h : up a = a
    · rw [root_of_fixed h, h]
    · have hless := hdepth a h
      rw [← root_up ⟨depth, hdepth⟩ hkeys a]
      exact ih _ (by omega) (up a) rfl

end

/-! ### Joining two roots -/

section

variable {up : α → α} {keys : List α} {l r : α}

/-- A root that points at another one is as deep as both. -/
theorem Acyclic.update (hacyclic : Acyclic up) (hkeys : Within up keys) (hl : up l = l)
    (hr : up r = r) (hne : l ≠ r) : Acyclic (Function.update up l r) := by
  obtain ⟨depth, hdepth⟩ := hacyclic
  have hup := root_up (⟨depth, hdepth⟩ : Acyclic up) hkeys
  refine ⟨fun a => if root up keys a = l then depth a + depth r + 1 else depth a, fun a ha => ?_⟩
  by_cases hal : a = l
  · subst hal
    rw [Function.update_self]
    simp only [root_of_fixed hr, root_of_fixed hl, Ne.symm hne, if_true, if_false]
    omega
  · rw [Function.update_of_ne hal] at ha ⊢
    have hless := hdepth a ha
    simp only [hup]
    split <;> omega

/-- **Join**: what led to the one root leads to the other. -/
theorem root_update (hacyclic : Acyclic up) (hkeys : Within up keys) (hl : up l = l) (hr : up r = r)
    (hne : l ≠ r) {keys' : List α} (hkeys' : Within (Function.update up l r) keys') (a : α) :
    root (Function.update up l r) keys' a = if root up keys a = l then r else root up keys a := by
  symm
  refine eq_root (hacyclic.update hkeys hl hr hne) hkeys'
    (f := fun a => if root up keys a = l then r else root up keys a)
    (fun a ha => ?_) (fun a => ?_) a
  · by_cases hal : a = l
    · subst hal
      rw [Function.update_self] at ha
      exact absurd ha.symm hne
    · rw [Function.update_of_ne hal] at ha
      simp only [root_of_fixed ha, hal, if_false]
  · by_cases hal : a = l
    · subst hal
      rw [Function.update_self]
      simp only [root_of_fixed hr, root_of_fixed hl, Ne.symm hne, if_true, if_false]
    · rw [Function.update_of_ne hal]
      simp only [root_up hacyclic hkeys]

end

/-- **Joining one more pair**: the roots stand for the pairs that were joined. -/
theorem eqvGen_merge {ρ ρ' : α → α} {joined : α → α → Prop}
    (h : ∀ a b, ρ a = ρ b ↔ Relation.EqvGen joined a b) (x y : α)
    (hmerge : ∀ a, ρ' a = if ρ a = ρ x then ρ y else ρ a) (a b : α) :
    ρ' a = ρ' b ↔ Relation.EqvGen (fun a b => joined a b ∨ a = x ∧ b = y) a b := by
  have hold : ∀ {a b}, ρ a = ρ b →
      Relation.EqvGen (fun a b => joined a b ∨ a = x ∧ b = y) a b := fun hab =>
    ((h _ _).mp hab).mono fun _ _ => .inl
  have hpair : Relation.EqvGen (fun a b => joined a b ∨ a = x ∧ b = y) x y :=
    .rel x y (.inr ⟨rfl, rfl⟩)
  constructor
  · intro hab
    rw [hmerge, hmerge] at hab
    split at hab
    · rename_i hax
      split at hab
      · rename_i hbx
        exact hold (hax.trans hbx.symm)
      · exact ((hold hax).trans _ _ _ hpair).trans _ _ _ (hold hab)
    · split at hab
      · rename_i hbx
        exact (hold hab).trans _ _ _ ((hold hbx).trans _ _ _ hpair).symm
      · exact hold hab
  · intro hab
    induction hab with
    | rel a b hab =>
      obtain hab | ⟨rfl, rfl⟩ := hab
      · rw [hmerge, hmerge, (h a b).mpr (.rel a b hab)]
      · rw [hmerge, hmerge, if_pos rfl]
        split <;> rfl
    | refl a => rfl
    | symm a b _ ih => exact ih.symm
    | trans a b c _ _ ih ih' => exact ih.trans ih'

end UnionFind
