import Mathlib.Algebra.BigOperators.Group.List.Basic
import Mathlib.Data.List.Infix
import Mathlib.Data.List.Nodup

/-!
# Maps that keep the order of their keys

A map as a list of entries, in the order their keys were first set.  `modify` sets one key from what
is there; `groupBy` sets one after another, from a list of items that name their keys.  What a key
ends up with is a fold over the items that name it (`get_groupBy`), and every key is there once
(`mem_groupBy`).
-/

namespace OrderedMap

variable {κ ν ι : Type*} [DecidableEq κ]

/-- What is at a key. -/
def get : List (κ × ν) → κ → Option ν
  | [], _ => none
  | entry :: rest, key => if entry.1 = key then some entry.2 else get rest key

/-- Sets a key from what is there; a new key comes last. -/
def modify : List (κ × ν) → κ → (Option ν → ν) → List (κ × ν)
  | [], key, f => [(key, f none)]
  | entry :: rest, key, f =>
    if entry.1 = key then (key, f (some entry.2)) :: rest else entry :: modify rest key f

def has (entries : List (κ × ν)) (key : κ) : Bool :=
  entries.any (·.1 = key)

def delete (entries : List (κ × ν)) (key : κ) : List (κ × ν) :=
  entries.filter (·.1 ≠ key)

def groupBy (key : ι → κ) (add : ι → Option ν → ν) (items : List ι) : List (κ × ν) :=
  items.foldl (fun entries item => modify entries (key item) (add item)) []

theorem get_modify_self (entries : List (κ × ν)) (key : κ) (f : Option ν → ν) :
    get (modify entries key f) key = some (f (get entries key)) := by
  induction entries with
  | nil => simp [modify, get]
  | cons entry rest ih =>
    by_cases hkey : entry.1 = key
    · simp [modify, get, hkey]
    · simp [modify, get, hkey, ih]

theorem get_modify_of_ne {entries : List (κ × ν)} {key other : κ} (hne : other ≠ key)
    (f : Option ν → ν) : get (modify entries key f) other = get entries other := by
  induction entries with
  | nil => simp [modify, get, hne.symm]
  | cons entry rest ih =>
    by_cases hkey : entry.1 = key
    · simp [modify, get, hkey, hne.symm]
    · simp [modify, get, hkey, ih]

theorem keys_modify (entries : List (κ × ν)) (key : κ) (f : Option ν → ν) :
    (modify entries key f).map (·.1) =
      if key ∈ entries.map (·.1) then entries.map (·.1) else entries.map (·.1) ++ [key] := by
  induction entries with
  | nil => rfl
  | cons entry rest ih =>
    by_cases hkey : entry.1 = key
    · simp [modify, hkey]
    · simp only [modify, if_neg hkey, List.map_cons, ih, List.mem_cons, Ne.symm hkey, false_or]
      split_ifs <;> rfl

theorem nodup_keys_modify {entries : List (κ × ν)} (h : (entries.map (·.1)).Nodup) (key : κ)
    (f : Option ν → ν) : ((modify entries key f).map (·.1)).Nodup := by
  rw [keys_modify]
  split_ifs with hkey
  · exact h
  · exact List.nodup_append.mpr ⟨h, List.nodup_singleton key, fun a ha b hb => by
      rintro rfl
      exact hkey (List.mem_singleton.mp hb ▸ ha)⟩

theorem mem_iff_get {entries : List (κ × ν)} (h : (entries.map (·.1)).Nodup) {key : κ} {value : ν} :
    (key, value) ∈ entries ↔ get entries key = some value := by
  induction entries with
  | nil => simp [get]
  | cons entry rest ih =>
    rw [List.map_cons, List.nodup_cons] at h
    by_cases hkey : entry.1 = key
    · obtain ⟨k, v⟩ := entry
      obtain rfl : k = key := hkey
      have hrest : (k, value) ∉ rest := fun hin => h.1 (List.mem_map.mpr ⟨_, hin, rfl⟩)
      simp [get, hrest, eq_comm]
    · have hne : (key, value) ≠ entry := fun heq => hkey (heq ▸ rfl)
      simp [get, hkey, hne, ih h.2]

variable (key : ι → κ) (add : ι → Option ν → ν)

theorem groupBy_concat (items : List ι) (item : ι) :
    groupBy key add (items ++ [item]) = modify (groupBy key add items) (key item) (add item) := by
  simp [groupBy]

/-- **A key ends up with what the items that name it add up to**, in their order. -/
theorem get_groupBy (items : List ι) (k : κ) :
    get (groupBy key add items) k =
      (items.filter (key · = k)).foldl (fun value item => some (add item value)) none := by
  induction items using List.reverseRecOn with
  | nil => rfl
  | append_singleton items item ih =>
    rw [groupBy_concat, List.filter_append, List.foldl_append, ← ih]
    by_cases hk : key item = k
    · subst hk
      rw [get_modify_self]
      simp
    · rw [get_modify_of_ne (Ne.symm hk)]
      simp [hk]

theorem nodup_keys_groupBy (items : List ι) : ((groupBy key add items).map (·.1)).Nodup := by
  induction items using List.reverseRecOn with
  | nil => exact List.nodup_nil
  | append_singleton items item ih =>
    rw [groupBy_concat]
    exact nodup_keys_modify ih _ _

/-- The keys stand in the order in which they were first named. -/
theorem keys_groupBy (items : List ι) :
    (groupBy key add items).map (·.1) = (items.map key).eraseDups := by
  induction items using List.reverseRecOn with
  | nil => rfl
  | append_singleton items item ih =>
    rw [groupBy_concat, keys_modify, ih, List.map_append, List.eraseDups_append]
    simp only [List.map_cons, List.map_nil, List.mem_eraseDups]
    have hlast : [key item].removeAll (items.map key) =
        if key item ∈ items.map key then [] else [key item] := by
      simp only [List.removeAll, List.filter_cons, List.filter_nil, List.elem_eq_mem]
      split_ifs <;> simp_all
    rw [hlast]
    split_ifs
    · rw [List.eraseDups_nil, List.append_nil]
    · rfl

theorem keys_groupBy_append (items rest : List ι) :
    (groupBy key add items).map (·.1) <+: (groupBy key add (items ++ rest)).map (·.1) := by
  induction rest using List.reverseRecOn with
  | nil => rw [List.append_nil]
  | append_singleton rest item ih =>
    rw [← List.append_assoc, groupBy_concat, keys_modify]
    split_ifs
    · exact ih
    · exact ih.trans (List.prefix_append _ _)

theorem mem_groupBy {items : List ι} {k : κ} {value : ν} :
    (k, value) ∈ groupBy key add items ↔
      (items.filter (key · = k)).foldl (fun value item => some (add item value)) none
        = some value := by
  rw [mem_iff_get (nodup_keys_groupBy key add items), get_groupBy]

theorem foldl_append (value : Option (List ι)) {items : List ι} (h : items ≠ []) :
    items.foldl (fun value item => some (value.getD [] ++ [item])) value
      = some (value.getD [] ++ items) := by
  induction items using List.reverseRecOn with
  | nil => exact absurd rfl h
  | append_singleton items item ih =>
    rw [List.foldl_append, List.foldl_cons, List.foldl_nil]
    by_cases hitems : items = []
    · rw [hitems, List.foldl_nil, List.nil_append]
    · rw [ih hitems, Option.getD_some, List.append_assoc]

theorem mem_groupBy_append {items : List ι} {k : κ} {members : List ι} :
    (k, members) ∈ groupBy key (fun item value => value.getD [] ++ [item]) items ↔
      members ≠ [] ∧ members = items.filter (key · = k) := by
  rw [mem_groupBy]
  by_cases hitems : items.filter (key · = k) = []
  · rw [hitems, List.foldl_nil]
    exact ⟨nofun, fun h => absurd h.2 h.1⟩
  · rw [foldl_append none hitems]
    exact ⟨fun h => Option.some.inj h ▸ ⟨hitems, rfl⟩, fun h => congrArg some h.2.symm⟩

theorem flatMap_modify_concat (entries : List (κ × List ι)) (k : κ) (item : ι) :
    ((modify entries k fun value => value.getD [] ++ [item]).flatMap (·.2)).Perm
      (entries.flatMap (·.2) ++ [item]) := by
  induction entries with
  | nil => exact List.Perm.refl _
  | cons entry rest ih =>
    unfold modify
    split_ifs
    · simp only [List.flatMap_cons, Option.getD_some, List.append_assoc]
      exact List.perm_append_comm.append_left _
    · simp only [List.flatMap_cons, List.append_assoc]
      exact ih.append_left _

/-- **Grouping loses nothing and repeats nothing.** -/
theorem flatMap_groupBy_append (items : List ι) :
    ((groupBy key (fun item value => value.getD [] ++ [item]) items).flatMap (·.2)).Perm items := by
  induction items using List.reverseRecOn with
  | nil => exact List.Perm.refl _
  | append_singleton items item ih =>
    rw [groupBy_concat]
    exact (flatMap_modify_concat ..).trans (ih.append_right _)

/-- A key that is only ever overwritten gives the last item that names it. -/
theorem get_groupBy_last (items : List ι) (k : κ) :
    get (groupBy key (fun item _ => item) items) k = (items.filter (key · = k)).getLast? := by
  rw [get_groupBy]
  obtain hnone | ⟨named, item, hnamed⟩ := List.eq_nil_or_concat (items.filter (key · = k))
  · rw [hnone]
    rfl
  · simp [hnamed]

/-- What is said of a key by all that is set at it holds of every entry. -/
theorem forall_mem_groupBy {key : ι → κ} {add : ι → Option ν → ν} {P : κ → ν → Prop}
    (hadd : ∀ item value, (∀ v ∈ value, P (key item) v) → P (key item) (add item value))
    (items : List ι) : ∀ entry ∈ groupBy key add items, P entry.1 entry.2 := by
  rintro ⟨k, value⟩ hentry
  have hall : ∀ v ∈ (items.filter (key · = k)).foldl (fun value item => some (add item value)) none,
      P k v := by
    refine List.foldlRecOn (motive := fun value : Option ν => ∀ v ∈ value, P k v) _ _ (by simp) ?_
    rintro value hvalue item hitem _ ⟨⟩
    obtain rfl : key item = k := of_decide_eq_true (List.mem_filter.mp hitem).2
    exact hadd item value hvalue
  exact hall value ((mem_groupBy key add).mp hentry)

/-- What every setting of a key keeps, the first item decides of the first entry. -/
theorem head?_groupBy_cons {μ : Type*} {add : ι → Option ν → ν} {g : ν → μ}
    (hadd : ∀ item value, g (add item (some value)) = g value) (key : ι → κ) (item : ι)
    (items : List ι) :
    (groupBy key add (item :: items)).head?.map (fun entry => g entry.2) =
      some (g (add item none)) := by
  induction items using List.reverseRecOn with
  | nil => rfl
  | append_singleton items last ih =>
    rw [← List.cons_append, groupBy_concat]
    rcases hentries : groupBy key add (item :: items) with _ | ⟨entry, rest⟩
    · rw [hentries] at ih
      exact absurd ih nofun
    · rw [hentries] at ih
      rw [modify]
      split_ifs
      · exact (congrArg some (hadd last entry.2)).trans ih
      · exact ih

/-! ### The keys that are there -/

theorem has_iff {entries : List (κ × ν)} {k : κ} :
    has entries k = true ↔ ∃ value, (k, value) ∈ entries := by
  simp only [has, List.any_eq_true, decide_eq_true_eq]
  constructor
  · rintro ⟨⟨_, value⟩, hentry, rfl⟩
    exact ⟨value, hentry⟩
  · rintro ⟨value, hentry⟩
    exact ⟨(k, value), hentry, rfl⟩

theorem mem_delete {entries : List (κ × ν)} {k : κ} {entry : κ × ν} :
    entry ∈ delete entries k ↔ entry ∈ entries ∧ entry.1 ≠ k := by
  simp [delete]

theorem mem_foldl_delete {entries : List (κ × ν)} {items : List ι} {entry : κ × ν} :
    entry ∈ items.foldl (fun left item => delete left (key item)) entries ↔
      entry ∈ entries ∧ ∀ item ∈ items, key item ≠ entry.1 := by
  induction items generalizing entries with
  | nil => simp
  | cons item items ih =>
    rw [List.foldl_cons, ih, mem_delete, List.forall_mem_cons, and_assoc, ne_comm]

theorem has_foldl_delete {entries : List (κ × ν)} {items : List ι} {k : κ} :
    has (items.foldl (fun left item => delete left (key item)) entries) k = true ↔
      has entries k = true ∧ ∀ item ∈ items, key item ≠ k := by
  rw [has_iff, has_iff]
  exact ⟨fun ⟨value, h⟩ => ⟨⟨value, ((mem_foldl_delete key).mp h).1⟩, ((mem_foldl_delete key).mp h).2⟩,
    fun ⟨⟨value, h⟩, hkeys⟩ => ⟨value, (mem_foldl_delete key).mpr ⟨h, hkeys⟩⟩⟩

theorem foldl_delete_sublist (entries : List (κ × ν)) (items : List ι) :
    (items.foldl (fun left item => delete left (key item)) entries).Sublist entries := by
  induction items generalizing entries with
  | nil => exact List.Sublist.refl _
  | cons item items ih => exact (ih _).trans List.filter_sublist

theorem has_groupBy {items : List ι} {k : κ} :
    has (groupBy key (fun item _ => item) items) k = true ↔ ∃ item ∈ items, key item = k := by
  rw [has_iff]
  constructor
  · rintro ⟨value, hvalue⟩
    rw [mem_iff_get (nodup_keys_groupBy key _ items), get_groupBy_last] at hvalue
    have hmem := List.mem_filter.mp (List.mem_of_getLast? hvalue)
    exact ⟨value, hmem.1, of_decide_eq_true hmem.2⟩
  · rintro ⟨item, hitem, rfl⟩
    have hne : items.filter (key · = key item) ≠ [] :=
      List.ne_nil_of_mem (List.mem_filter.mpr ⟨hitem, decide_eq_true rfl⟩)
    refine ⟨(items.filter (key · = key item)).getLast hne, ?_⟩
    rw [mem_iff_get (nodup_keys_groupBy key _ items), get_groupBy_last,
      List.getLast?_eq_some_getLast hne]

/-! ### The same map under other items -/

section

variable {μ ι' : Type*} {g : ν → μ}

theorem map_modify {f : Option ν → ν} {f' : Option μ → μ}
    (hf : ∀ value, g (f value) = f' (value.map g)) (entries : List (κ × ν)) (key : κ) :
    (modify entries key f).map (Prod.map id g) = modify (entries.map (Prod.map id g)) key f' := by
  induction entries with
  | nil => simp [modify, hf]
  | cons entry rest ih =>
    by_cases hkey : entry.1 = key
    · simp [modify, hkey, hf]
    · simp [modify, hkey, ih]

/-- **Items that name the same keys are grouped alike.** -/
theorem groupBy_map {key : ι → κ} {add : ι → Option ν → ν} {key' : ι' → κ}
    {add' : ι' → Option μ → μ} {φ : ι → ι'} (hkey : ∀ item, key' (φ item) = key item)
    (hadd : ∀ item value, g (add item value) = add' (φ item) (value.map g)) (items : List ι) :
    groupBy key' add' (items.map φ) = (groupBy key add items).map (Prod.map id g) := by
  induction items using List.reverseRecOn with
  | nil => rfl
  | append_singleton items item ih =>
    rw [List.map_append, List.map_singleton, groupBy_concat, groupBy_concat, ih,
      map_modify (hadd item), hkey]

end

/-! ### What keys add up to -/

section

variable {M : Type*} [AddCommMonoid M]

/-- What the entries of a key add up to. -/
def total (entries : List (κ × M)) (k : κ) : M :=
  (entries.map fun entry => if entry.1 = k then entry.2 else 0).sum

/-- The same keys are there, and every key adds up to the same. -/
structure Alike (entries entries' : List (κ × M)) : Prop where
  keys (k : κ) : k ∈ entries.map (·.1) ↔ k ∈ entries'.map (·.1)
  total (k : κ) : total entries k = total entries' k

variable {entries entries' rest rest' : List (κ × M)}

theorem total_cons (entry : κ × M) (entries : List (κ × M)) (k : κ) :
    total (entry :: entries) k = (if entry.1 = k then entry.2 else 0) + total entries k :=
  List.sum_cons

theorem total_append (entries rest : List (κ × M)) (k : κ) :
    total (entries ++ rest) k = total entries k + total rest k := by
  rw [total, List.map_append, List.sum_append]
  rfl

theorem Alike.refl (entries : List (κ × M)) : Alike entries entries :=
  ⟨fun _ => Iff.rfl, fun _ => rfl⟩

theorem Alike.symm (h : Alike entries entries') : Alike entries' entries :=
  ⟨fun k => (h.keys k).symm, fun k => (h.total k).symm⟩

theorem Alike.trans {entries'' : List (κ × M)} (h : Alike entries entries')
    (h' : Alike entries' entries'') : Alike entries entries'' :=
  ⟨fun k => (h.keys k).trans (h'.keys k), fun k => (h.total k).trans (h'.total k)⟩

theorem Alike.append (h : Alike entries entries') (hrest : Alike rest rest') :
    Alike (entries ++ rest) (entries' ++ rest') where
  keys k := by
    simp only [List.map_append, List.mem_append]
    exact or_congr (h.keys k) (hrest.keys k)
  total k := by
    rw [total_append, total_append, h.total, hrest.total]

theorem alike_of_perm (h : entries.Perm entries') : Alike entries entries' where
  keys _ := (h.map _).mem_iff
  total _ := (h.map _).sum_eq

/-- A key that is there once adds up to its entry. -/
theorem total_of_mem (h : (entries.map (·.1)).Nodup) {k : κ} {value : M}
    (hmem : (k, value) ∈ entries) : total entries k = value := by
  induction entries with
  | nil => exact absurd hmem List.not_mem_nil
  | cons entry entries ih =>
    rw [List.map_cons, List.nodup_cons] at h
    have hothers : ∀ other ∈ entries, other.1 = entry.1 → False :=
      fun other hother hkey => h.1 (hkey ▸ List.mem_map_of_mem hother)
    rw [total_cons]
    rcases List.mem_cons.mp hmem with rfl | hmem
    · have hrest : total entries k = 0 := by
        refine List.sum_eq_zero fun weight hweight => ?_
        obtain ⟨other, hother, rfl⟩ := List.mem_map.mp hweight
        exact if_neg fun hkey => hothers other hother hkey
      rw [if_pos rfl, hrest, add_zero]
    · rw [if_neg fun hkey => hothers _ hmem hkey.symm, zero_add, ih h.2 hmem]

/-- **Maps that are alike have the same entries.** -/
theorem Alike.perm (h : Alike entries entries') (hnodup : (entries.map (·.1)).Nodup)
    (hnodup' : (entries'.map (·.1)).Nodup) : entries.Perm entries' := by
  have hsub : ∀ {a b : List (κ × M)}, Alike a b → (a.map (·.1)).Nodup → (b.map (·.1)).Nodup →
      ∀ entry ∈ a, entry ∈ b := by
    intro a b hab ha hb entry hentry
    obtain ⟨other, hother, hkey⟩ := List.mem_map.mp ((hab.keys _).mp (List.mem_map_of_mem hentry))
    have hvalue : entry.2 = other.2 := by
      rw [← total_of_mem ha hentry, hab.total, ← hkey]
      exact total_of_mem hb hother
    exact (Prod.ext hkey hvalue.symm : other = entry) ▸ hother
  rw [List.perm_ext_iff_of_nodup (.of_map _ hnodup) (.of_map _ hnodup')]
  exact fun entry => ⟨hsub h hnodup hnodup' entry, hsub h.symm hnodup' hnodup entry⟩

/-- Every entry is added to what its key has. -/
def balance (entries : List (κ × M)) : List (κ × M) :=
  groupBy (·.1) (fun entry value => value.getD 0 + entry.2) entries

theorem total_modify (entries : List (κ × M)) (key : κ) (amount : M) (k : κ) :
    total (modify entries key fun value => value.getD 0 + amount) k =
      total (entries ++ [(key, amount)]) k := by
  induction entries with
  | nil => simp [modify]
  | cons entry rest ih =>
    by_cases hkey : entry.1 = key
    · rw [modify, if_pos hkey, List.cons_append, total_cons, total_cons, total_append, hkey]
      by_cases hk : key = k <;> simp [total, hk, add_assoc, add_comm, add_left_comm]
    · rw [modify, if_neg hkey, List.cons_append, total_cons, total_cons, ih]

theorem sum_modify (entries : List (κ × M)) (key : κ) (amount : M) :
    ((modify entries key fun value => value.getD 0 + amount).map (·.2)).sum =
      (entries.map (·.2)).sum + amount := by
  induction entries with
  | nil => simp [modify]
  | cons entry rest ih =>
    by_cases hkey : entry.1 = key
    · simp [modify, hkey, add_assoc, add_comm]
    · simp [modify, hkey, ih, add_assoc]

/-- **A balance is alike to what it was made of.** -/
theorem alike_balance (entries : List (κ × M)) : Alike (balance entries) entries := by
  induction entries using List.reverseRecOn with
  | nil => exact .refl []
  | append_singleton entries entry ih =>
    have hgrown := ih.append (.refl [entry])
    rw [balance, groupBy_concat]
    refine ⟨fun k => ?_, fun k => (total_modify _ _ _ k).trans (hgrown.total k)⟩
    rw [← hgrown.keys, keys_modify, List.map_append]
    split_ifs with hmem
    · rw [List.mem_append, List.map_singleton, List.mem_singleton]
      exact ⟨.inl, fun h => h.elim id (· ▸ hmem)⟩
    · rfl

theorem sum_balance (entries : List (κ × M)) :
    ((balance entries).map (·.2)).sum = (entries.map (·.2)).sum := by
  induction entries using List.reverseRecOn with
  | nil => rfl
  | append_singleton entries entry ih =>
    rw [balance, groupBy_concat, sum_modify, List.map_append, List.sum_append, ← ih]
    simp [balance]

end

end OrderedMap
