import Mathlib.Data.List.Nodup

/-!
# A table of rows

Rows that carry their own key, in the order they were inserted.  Saving a row writes all of it over
the row of its key, and inserts it where there is none.
-/

namespace Table

variable {ρ κ : Type*} [DecidableEq κ] (key : ρ → κ)

def find (rows : List ρ) (k : κ) : Option ρ :=
  rows.find? (key · = k)

def save (rows : List ρ) (row : ρ) : List ρ :=
  if rows.any (key · = key row) then rows.map fun one => if key one = key row then row else one
  else rows ++ [row]

def delete (rows : List ρ) (k : κ) : List ρ :=
  rows.filter (key · ≠ k)

variable {key} {rows : List ρ} {row : ρ} {k : κ}

theorem key_of_find (h : find key rows k = some row) : key row = k := by
  simpa using List.find?_some h

theorem mem_of_find (h : find key rows k = some row) : row ∈ rows :=
  List.mem_of_find?_eq_some h

theorem find_of_mem (hnodup : (rows.map key).Nodup) (h : row ∈ rows) :
    find key rows (key row) = some row := by
  induction rows with
  | nil => exact absurd h List.not_mem_nil
  | cons first rest ih =>
    rw [List.map_cons, List.nodup_cons] at hnodup
    rw [find, List.find?_cons]
    rcases List.mem_cons.mp h with rfl | hrest
    · rw [decide_eq_true rfl]
    · have hne : key first ≠ key row := fun heq =>
        hnodup.1 (heq ▸ List.mem_map_of_mem hrest)
      rw [decide_eq_false hne]
      exact ih hnodup.2 hrest

theorem find_perm {rows' : List ρ} (hnodup : (rows.map key).Nodup) (hperm : rows.Perm rows')
    (k : κ) : find key rows' k = find key rows k := by
  rcases hfind : find key rows k with _ | row
  · refine List.find?_eq_none.mpr fun row hrow => ?_
    exact List.find?_eq_none.mp hfind row (hperm.mem_iff.mpr hrow)
  · obtain rfl := key_of_find hfind
    exact find_of_mem ((hperm.map key).nodup_iff.mp hnodup) (hperm.mem_iff.mp (mem_of_find hfind))

theorem find_map {f : ρ → ρ} (hf : ∀ row, key (f row) = key row) (k : κ) :
    find key (rows.map f) k = (find key rows k).map f := by
  rw [find, List.find?_map, find]
  congr 2
  funext row
  rw [Function.comp_apply, hf]

variable (key row) in
theorem find_concat (hnew : ∀ other ∈ rows, key other ≠ key row) :
    find key (rows ++ [row]) (key row) = some row := by
  rw [find, List.find?_append, List.find?_eq_none.mpr, Option.none_or, List.find?_singleton,
    decide_eq_true rfl, if_pos rfl]
  exact fun other hother heq => hnew other hother (of_decide_eq_true heq)

variable (key row) in
theorem delete_concat (hnew : ∀ other ∈ rows, key other ≠ key row) :
    delete key (rows ++ [row]) (key row) = rows := by
  have hgone : [row].filter (key · ≠ key row) = [] := List.filter_eq_nil_iff.mpr (by simp)
  rw [delete, List.filter_append, hgone, List.append_nil]
  exact List.filter_eq_self.mpr fun other hother => decide_eq_true (hnew other hother)

theorem mem_save {other : ρ} (h : other ∈ save key rows row) : other = row ∨ other ∈ rows := by
  unfold save at h
  split_ifs at h
  · obtain ⟨one, hone, rfl⟩ := List.mem_map.mp h
    split_ifs
    · exact .inl rfl
    · exact .inr hone
  · rcases List.mem_append.mp h with hold | hnew
    · exact .inr hold
    · exact .inl (List.mem_singleton.mp hnew)

theorem find_save_self : find key (save key rows row) (key row) = some row := by
  unfold save find
  split_ifs with hany
  · induction rows with
    | nil => simp at hany
    | cons first rest ih =>
      by_cases hfirst : key first = key row
      · simp [hfirst]
      · have hrest : rest.any (key · = key row) = true := by simpa [hfirst] using hany
        simpa [hfirst] using ih hrest
  · rw [List.find?_append]
    have hnone : rows.find? (key · = key row) = none := by
      simpa [List.find?_eq_none] using hany
    simp [hnone]

theorem find_save_of_ne (hne : k ≠ key row) : find key (save key rows row) k = find key rows k := by
  unfold save find
  split_ifs with hany
  · clear hany
    induction rows with
    | nil => rfl
    | cons first rest ih =>
      by_cases hfirst : key first = key row
      · have hk : key first ≠ k := fun heq => hne (heq.symm.trans hfirst)
        have hk' : key row ≠ k := hne.symm
        simp only [List.map_cons, if_pos hfirst, List.find?_cons, decide_eq_false hk,
          decide_eq_false hk']
        exact ih
      · rw [List.map_cons, if_neg hfirst, List.find?_cons, List.find?_cons, ih]
  · rw [List.find?_append]
    simp [hne.symm]

theorem find_delete_self : find key (delete key rows k) k = none := by
  simp [find, delete, List.find?_eq_none]

theorem find_delete_of_ne {k' : κ} (hne : k' ≠ k) :
    find key (delete key rows k) k' = find key rows k' := by
  induction rows with
  | nil => rfl
  | cons first rest ih =>
    by_cases hfirst : key first = k
    · have hk : key first ≠ k' := fun heq => hne (heq.symm.trans hfirst)
      have hdrop : delete key (first :: rest) k = delete key rest k := by
        simp [delete, hfirst]
      rw [hdrop, ih, find, find, List.find?_cons, decide_eq_false hk]
    · have hkeep : delete key (first :: rest) k = first :: delete key rest k := by
        simp [delete, hfirst]
      unfold find at ih
      rw [hkeep, find, find, List.find?_cons, List.find?_cons, ih]

theorem nodup_save (h : (rows.map key).Nodup) : ((save key rows row).map key).Nodup := by
  unfold save
  split_ifs with hany
  · have hkeys : (rows.map fun one => if key one = key row then row else one).map key =
        rows.map key := by
      rw [List.map_map]
      refine List.map_congr_left fun one _ => ?_
      rw [Function.comp_apply]
      split_ifs with hkey
      · exact hkey.symm
      · rfl
    rwa [hkeys]
  · rw [List.map_append, List.map_singleton]
    refine List.nodup_append.mpr ⟨h, List.nodup_singleton _, ?_⟩
    rintro a ha b hb rfl
    obtain ⟨one, hone, hkey⟩ := List.mem_map.mp ha
    exact hany (by simpa using ⟨one, hone, hkey.trans (List.mem_singleton.mp hb)⟩)

theorem nodup_delete (h : (rows.map key).Nodup) (k : κ) :
    ((delete key rows k).map key).Nodup :=
  h.sublist (List.filter_sublist.map key)

/-- A second column stays unique where a save takes no value from another row. -/
theorem nodup_save_unique {β : Type*} {column : ρ → β} (hkeys : (rows.map key).Nodup)
    (h : (rows.map column).Nodup)
    (hrow : ∀ other ∈ rows, column other = column row → key other = key row) :
    ((save key rows row).map column).Nodup := by
  have hfree : ∀ other ∈ rows, key other ≠ key row → column other ≠ column row :=
    fun other hother hne heq => hne (hrow other hother heq)
  unfold save
  split_ifs with hany
  · rw [List.nodup_iff_pairwise_ne, List.map_map, List.pairwise_map]
    have hboth := (List.pairwise_map.mp hkeys).and (List.pairwise_map.mp h)
    refine hboth.imp_of_mem fun {a b} ha hb hab => ?_
    simp only [Function.comp_apply]
    -- at most one of the two is the row that is written over
    split_ifs with hakey hbkey hbkey
    · exact absurd (hakey.trans hbkey.symm) hab.1
    · exact (hfree b hb hbkey).symm
    · exact hfree a ha hakey
    · exact hab.2
  · rw [List.map_append, List.map_singleton]
    refine List.nodup_append.mpr ⟨h, List.nodup_singleton _, ?_⟩
    rintro a ha b hb rfl
    obtain ⟨one, hone, hcolumn⟩ := List.mem_map.mp ha
    rw [List.mem_singleton] at hb
    exact hany (by simpa using ⟨one, hone, hrow one hone (hcolumn.trans hb)⟩)

end Table
