import Mathlib.Data.List.Induction
import Mathlib.Data.List.Nodup
import Mathlib.Order.Lattice

/-!
# The best of each key

A list is gone through, and of the elements of each key the first of the least is kept
(`keepLeast`).  What is kept in the end is what *leads* the list: less than what is before it with
its key, and no more than what is after it (`mem_kept`).
-/

namespace Best

variable {α κ δ : Type*} [LinearOrder δ]

/-- The first of the least of its key. -/
def Leads (key : α → κ) (measure : α → δ) (l : List α) (b : α) : Prop :=
  ∃ before after, l = before ++ b :: after ∧
    (∀ c ∈ before, key c = key b → measure b < measure c) ∧
    ∀ c ∈ after, key c = key b → measure b ≤ measure c

variable {key : α → κ} {measure : α → δ} {l held : List α} {a b : α}

theorem Leads.mem (h : Leads key measure l b) : b ∈ l := by
  obtain ⟨before, after, rfl, _⟩ := h
  exact List.mem_append_right _ List.mem_cons_self

theorem Leads.le (h : Leads key measure l b) (ha : a ∈ l) (hkey : key a = key b) :
    measure b ≤ measure a := by
  obtain ⟨before, after, rfl, hbefore, hafter⟩ := h
  rcases List.mem_append.mp ha with ha | ha
  · exact le_of_lt (hbefore a ha hkey)
  · rcases List.mem_cons.mp ha with rfl | ha
    · exact le_refl _
    · exact hafter a ha hkey

theorem leads_concat_iff : Leads key measure (l ++ [a]) b ↔
    Leads key measure l b ∧ (key a = key b → measure b ≤ measure a) ∨
      b = a ∧ ∀ c ∈ l, key c = key a → measure a < measure c := by
  constructor
  · rintro ⟨before, after, heq, hbefore, hafter⟩
    rcases List.eq_nil_or_concat after with rfl | ⟨after, last, rfl⟩
    · obtain ⟨rfl, hb⟩ := List.append_inj' heq rfl
      obtain rfl := (List.cons_eq_cons.mp hb).1
      exact .inr ⟨rfl, hbefore⟩
    · rw [List.concat_eq_append, ← List.cons_append, ← List.append_assoc] at heq
      obtain ⟨rfl, hlast⟩ := List.append_inj' heq rfl
      obtain rfl := (List.cons_eq_cons.mp hlast).1
      rw [List.concat_eq_append] at hafter
      refine .inl ⟨⟨before, after, rfl, hbefore, fun c hc => ?_⟩, ?_⟩
      · exact hafter c (List.mem_append_left _ hc)
      · exact hafter a (List.mem_append_right _ List.mem_cons_self)
  · rintro (⟨⟨before, after, rfl, hbefore, hafter⟩, ha⟩ | ⟨rfl, hless⟩)
    · refine ⟨before, after ++ [a], by simp, hbefore, fun c hc => ?_⟩
      rcases List.mem_append.mp hc with hc | hc
      · exact hafter c hc
      · rw [List.mem_singleton.mp hc]
        exact ha
    · exact ⟨l, [], rfl, hless, nofun⟩

theorem leads_map_iff {β : Type*} {f : β → α} {l : List β} :
    Leads key measure (l.map f) b ↔
      ∃ a, Leads (fun a => key (f a)) (fun a => measure (f a)) l a ∧ f a = b := by
  constructor
  · rintro ⟨before, after, heq, hbefore, hafter⟩
    obtain ⟨before, rest, rfl, rfl, hrest⟩ := List.map_eq_append_iff.mp heq
    obtain ⟨a, after, rfl, rfl, rfl⟩ := List.map_eq_cons_iff.mp hrest
    exact ⟨a, ⟨before, after, rfl, fun c hc => hbefore _ (List.mem_map_of_mem hc),
      fun c hc => hafter _ (List.mem_map_of_mem hc)⟩, rfl⟩
  · rintro ⟨a, ⟨before, after, rfl, hbefore, hafter⟩, rfl⟩
    refine ⟨before.map f, after.map f, by simp, fun c hc => ?_, fun c hc => ?_⟩
    · obtain ⟨d, hd, rfl⟩ := List.mem_map.mp hc
      exact hbefore d hd
    · obtain ⟨d, hd, rfl⟩ := List.mem_map.mp hc
      exact hafter d hd

/-! ### What is kept -/

variable [DecidableEq κ]

/-- One more element: it is kept if its key is new, or in the place of one that is more. -/
def keepLeast (key : α → κ) (measure : α → δ) (held : List α) (a : α) : List α :=
  if held.any (key · = key a) then
    held.map fun known => if key known = key a ∧ measure a < measure known then a else known
  else held ++ [a]

theorem map_keepLeast (key : α → κ) (measure : α → δ) (held : List α) (a : α) :
    (keepLeast key measure held a).map key =
      if key a ∈ held.map key then held.map key else held.map key ++ [key a] := by
  have hany : held.any (key · = key a) = true ↔ key a ∈ held.map key := by
    simp only [List.any_eq_true, decide_eq_true_eq, List.mem_map]
  unfold keepLeast
  by_cases h : key a ∈ held.map key
  · rw [if_pos (hany.mpr h), if_pos h, List.map_map]
    refine List.map_congr_left fun known _ => ?_
    simp only [Function.comp_apply]
    split
    · next hsame => exact hsame.1.symm
    · rfl
  · rw [if_neg (fun hheld => h (hany.mp hheld)), if_neg h, List.map_append]
    rfl

theorem nodup_keepLeast (h : (held.map key).Nodup) :
    ((keepLeast key measure held a).map key).Nodup := by
  rw [map_keepLeast]
  split
  · exact h
  · next hnew =>
    rw [← List.concat_eq_append, List.nodup_concat]
    exact ⟨hnew, h⟩

theorem mem_keepLeast (h : (held.map key).Nodup) : b ∈ keepLeast key measure held a ↔
    b ∈ held ∧ (key a = key b → measure b ≤ measure a) ∨
      b = a ∧ ∀ c ∈ held, key c = key a → measure a < measure c := by
  unfold keepLeast
  split
  · next hany =>
    obtain ⟨old, hold, hkey⟩ := List.any_eq_true.mp hany
    replace hkey : key old = key a := of_decide_eq_true hkey
    rw [List.mem_map]
    constructor
    · rintro ⟨known, hknown, rfl⟩
      split
      · next hless =>
        refine .inr ⟨rfl, fun c hc hck => ?_⟩
        rw [List.inj_on_of_nodup_map h hc hknown (hck.trans hless.1.symm)]
        exact hless.2
      · next hkept => exact .inl ⟨hknown, fun heq => not_lt.mp fun hlt => hkept ⟨heq.symm, hlt⟩⟩
    · rintro (⟨hb, hle⟩ | ⟨rfl, hless⟩)
      · exact ⟨b, hb, if_neg fun hlt => absurd hlt.2 (not_lt.mpr (hle hlt.1.symm))⟩
      · exact ⟨old, hold, if_pos ⟨hkey, hless old hold hkey⟩⟩
  · next hnone =>
    have hnew : ∀ c ∈ held, key c ≠ key a := fun c hc heq =>
      hnone (List.any_eq_true.mpr ⟨c, hc, decide_eq_true heq⟩)
    rw [List.mem_append, List.mem_singleton]
    constructor
    · rintro (hb | rfl)
      · exact .inl ⟨hb, fun heq => absurd heq.symm (hnew b hb)⟩
      · exact .inr ⟨rfl, fun c hc heq => absurd heq (hnew c hc)⟩
    · rintro (⟨hb, _⟩ | ⟨rfl, _⟩)
      · exact .inl hb
      · exact .inr rfl

def kept (key : α → κ) (measure : α → δ) (l : List α) : List α :=
  l.foldl (keepLeast key measure) []

theorem kept_concat (l : List α) (a : α) :
    kept key measure (l ++ [a]) = keepLeast key measure (kept key measure l) a := by
  rw [kept, List.foldl_concat]
  rfl

theorem nodup_kept (l : List α) : ((kept key measure l).map key).Nodup := by
  induction l using List.reverseRecOn with
  | nil => exact List.nodup_nil
  | append_singleton l a ih =>
    rw [kept_concat]
    exact nodup_keepLeast ih

theorem exists_mem_kept (ha : a ∈ l) : ∃ b ∈ kept key measure l, key b = key a := by
  rw [← List.mem_map]
  induction l using List.reverseRecOn with
  | nil => cases ha
  | append_singleton l last ih =>
    rw [kept_concat, map_keepLeast]
    rcases List.mem_append.mp ha with hmem | hmem
    · split
      · exact ih hmem
      · exact List.mem_append_left _ (ih hmem)
    · obtain rfl := List.mem_singleton.mp hmem
      split
      · next hold => exact hold
      · exact List.mem_append_right _ List.mem_cons_self

/-- **What is kept leads the list.** -/
theorem mem_kept : b ∈ kept key measure l ↔ Leads key measure l b := by
  induction l using List.reverseRecOn generalizing b with
  | nil => exact ⟨nofun, fun h => absurd h.mem List.not_mem_nil⟩
  | append_singleton l a ih =>
    rw [kept_concat, mem_keepLeast (nodup_kept l), leads_concat_iff, ih]
    refine or_congr_right (and_congr_right fun _ => ?_)
    constructor
    · intro hless c hc hkey
      obtain ⟨d, hd, hdkey⟩ : ∃ d ∈ kept key measure l, key d = key c := exists_mem_kept hc
      exact lt_of_lt_of_le (hless d hd (hdkey.trans hkey)) ((ih.mp hd).le hc hdkey.symm)
    · exact fun hless c hc hkey => hless c (ih.mp hc).mem hkey

theorem exists_leads (ha : a ∈ l) : ∃ b, Leads key measure l b ∧ key b = key a := by
  obtain ⟨b, hb, hkey⟩ : ∃ b ∈ kept key measure l, key b = key a := exists_mem_kept ha
  exact ⟨b, mem_kept.mp hb, hkey⟩

end Best
