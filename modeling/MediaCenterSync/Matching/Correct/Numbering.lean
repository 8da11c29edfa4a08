import Mathlib.Algebra.Ring.Int.Defs
import Mathlib.Order.Bounds.Basic
import MediaCenterSync.Lib.Fallible
import MediaCenterSync.Lib.Lists
import MediaCenterSync.Lib.Table
import MediaCenterSync.Matching.Numbering

/-!
# The alignment is the bijection of the season offsets

* `flatRun_eq_some`, `flatRun_eq_none`: the flat side is recognised when it has one season number
  and no number twice.
* `seasonTable_of_split`, `split_of_seasonTable`: the split side is recognised when it is seasons
  `1..K` that each hold `1..L`, and its table has every episode at the sum of the lengths of the
  seasons before it and its own number.
* `mem_alignAbsoluteNumbering`: an episode of the one is paired with an episode of the other when
  the two sides are one show from end to end and the offset says so.

The table is read season after season; `Holds` is what it has after the first of them
(`holds_succ`, `seasonRuns_holds`).
-/

namespace MediaCenterSync.Matching

open Fallible

variable {rows flat split : List Numbered} {lengths : List ℕ} {table table' : SeasonTable}
variable {season : ℤ} {length count : ℕ}

/-! ### The two sides -/

/-- Numbered straight through: one season number for all of it, or none at all, and no number
twice. -/
structure Flat (flat : List Numbered) : Prop where
  ne_nil : flat ≠ []
  one_season : ∃ season, ∀ f ∈ flat, f.season = season
  once : (flat.map (·.number)).Nodup

/-- Seasons `1..K` of the given lengths, `K` at least 2, each with the episodes `1..L` once each. -/
structure Split (split : List Numbered) (lengths : List ℕ) : Prop where
  two : 2 ≤ lengths.length
  pos : ∀ length ∈ lengths, 0 < length
  once : (split.map fun e => (e.season, e.number)).Nodup
  mem_iff : ∀ season number, (∃ e ∈ split, e.season = season ∧ e.number = number) ↔
    ∃ s, ∃ h : s < lengths.length, season = some (s + 1 : ℤ) ∧ 1 ≤ number ∧ number ≤ lengths[s]

/-- A flat side and a split one that are one show from end to end: the highest number of the flat
side is the sum of the season lengths, and past every one of them. -/
structure Aligned (flat split : List Numbered) (lengths : List ℕ) : Prop where
  is_flat : Flat flat
  is_split : Split split lengths
  highest : IsGreatest {n | ∃ f ∈ flat, f.number = n} (lengths.sum : ℤ)
  past : ∀ length ∈ lengths, length < lengths.sum

/-- Flat episode `n` and split episode `(s, e)` with `n = L₁ + … + L₍ₛ₋₁₎ + e`. -/
def Pairs (flat split : List Numbered) (lengths : List ℕ) (pair : NumberingPair) : Prop :=
  ∃ f ∈ flat, ∃ e ∈ split, ∃ s : ℕ, e.season = some (s + 1 : ℤ) ∧
    f.number = Blocks.before lengths s + e.number ∧ pair = ⟨f.id, e.id⟩

/-! ### The flat side is recognised -/

theorem flat_iff : Flat rows ↔
    (rows.map (·.season)).dedup.length = 1 ∧ (rows.map (·.number)).Nodup := by
  constructor
  · rintro ⟨hne, ⟨season, hseason⟩, hnodup⟩
    obtain ⟨first, hfirst⟩ := List.exists_mem_of_ne_nil rows hne
    have hperm : (rows.map (·.season)).dedup.Perm [season] := by
      refine (List.perm_ext_iff_of_nodup (List.nodup_dedup _)
        (List.nodup_singleton _)).mpr fun other => ?_
      rw [List.mem_dedup, List.mem_map, List.mem_singleton]
      constructor
      · rintro ⟨f, hf, rfl⟩
        exact hseason f hf
      · rintro rfl
        exact ⟨first, hfirst, hseason first hfirst⟩
    exact ⟨hperm.length_eq, hnodup⟩
  · rintro ⟨hlength, hnodup⟩
    obtain ⟨season, hseason⟩ := List.length_eq_one_iff.mp hlength
    refine ⟨?_, ⟨season, fun f hf => ?_⟩, hnodup⟩
    · rintro rfl
      cases hseason
    · have hmem : f.season ∈ (rows.map (·.season)).dedup :=
        List.mem_dedup.mpr (List.mem_map_of_mem hf)
      rw [hseason] at hmem
      exact List.mem_singleton.mp hmem

theorem flatRun_eq_some (h : Flat rows) : flatRun rows =
    some ⟨rows.map fun f => (f.number, f.id), (rows.map (·.number)).foldl max 0⟩ := by
  obtain ⟨hlength, hnodup⟩ := flat_iff.mp h
  unfold flatRun
  rw [if_neg (not_not.mpr hlength), if_neg (by simp [hnodup])]

theorem flatRun_eq_none (h : ¬ Flat rows) : flatRun rows = none := by
  rw [flat_iff, not_and_or] at h
  unfold flatRun
  rcases h with hlength | hnodup
  · rw [if_pos hlength]
  · by_cases hlength : (rows.map (·.season)).dedup.length ≠ 1
    · rw [if_pos hlength]
    · rw [if_neg hlength, if_pos (by simp [hnodup])]

theorem le_foldl_max {numbers : List ℤ} {start n : ℤ} (h : n ∈ numbers ∨ n ≤ start) :
    n ≤ numbers.foldl max start := by
  induction numbers generalizing start with
  | nil => simpa using h
  | cons first rest ih =>
    rw [List.foldl_cons]
    refine ih ?_
    rcases h with hmem | hle
    · rcases List.mem_cons.mp hmem with rfl | hrest
      · exact .inr (le_max_right _ _)
      · exact .inl hrest
    · exact .inr (le_max_of_le_left hle)

theorem foldl_max_mem (numbers : List ℤ) (start : ℤ) :
    numbers.foldl max start ∈ numbers ∨ numbers.foldl max start = start := by
  induction numbers generalizing start with
  | nil => exact .inr rfl
  | cons first rest ih =>
    rw [List.foldl_cons]
    rcases ih (max start first) with hmem | heq
    · exact .inl (List.mem_cons_of_mem first hmem)
    · rcases max_choice start first with hmax | hmax
      · exact .inr (heq.trans hmax)
      · exact .inl (List.mem_cons.mpr (.inl (heq.trans hmax)))

theorem highest_iff (hne : rows ≠ []) (hpos : ∀ f ∈ rows, 1 ≤ f.number) (top : ℤ) :
    (rows.map (·.number)).foldl max 0 = top ↔ IsGreatest {n | ∃ f ∈ rows, f.number = n} top := by
  have hgreatest :
      IsGreatest {n | ∃ f ∈ rows, f.number = n} ((rows.map (·.number)).foldl max 0) := by
    refine ⟨?_, ?_⟩
    · rcases foldl_max_mem (rows.map (·.number)) 0 with hmem | hzero
      · exact List.mem_map.mp hmem
      · -- A row has a number above 0, so the highest one has too.
        obtain ⟨f, hf⟩ := List.exists_mem_of_ne_nil rows hne
        have hle : f.number ≤ (rows.map (·.number)).foldl max 0 :=
          le_foldl_max (.inl (List.mem_map_of_mem hf))
        have hf1 := hpos f hf
        omega
    · rintro n ⟨f, hf, rfl⟩
      exact le_foldl_max (.inl (List.mem_map_of_mem hf))
  constructor
  · rintro rfl
    exact hgreatest
  · intro h
    exact hgreatest.unique h

/-! ### The split side is recognised -/

/-- The numbers `1..length`. -/
def oneTo (length : ℕ) : List ℤ := (List.range length).map fun n : ℕ => (n + 1 : ℤ)

theorem nodup_oneTo : (oneTo length).Nodup :=
  List.nodup_range.map fun n m h => by omega

theorem mem_oneTo {number : ℤ} : number ∈ oneTo length ↔ 1 ≤ number ∧ number ≤ length := by
  unfold oneTo
  rw [List.mem_map]
  constructor
  · rintro ⟨n, hn, rfl⟩
    have hlt := List.mem_range.mp hn
    omega
  · rintro ⟨hpos, hle⟩
    exact ⟨(number - 1).toNat, List.mem_range.mpr (by omega), by omega⟩

theorem oneTo_add (total length : ℕ) :
    oneTo (total + length) =
      oneTo total ++ (List.range length).map fun index : ℕ => (total + index + 1 : ℤ) := by
  unfold oneTo
  rw [List.range_add, List.map_append, List.map_map]
  rfl

def within (split : List Numbered) (season : ℤ) : List Numbered :=
  split.filter (·.season = some season)

theorem mem_within {e : Numbered} : e ∈ within split season ↔ e ∈ split ∧ e.season = some season := by
  simp [within]

/-- Season `season` is there, and it is `1..length`. -/
structure Full (split : List Numbered) (season : ℤ) (length : ℕ) : Prop where
  pos : 0 < length
  mem_iff : ∀ number, (∃ e ∈ split, e.season = some season ∧ e.number = number) ↔
    1 ≤ number ∧ number ≤ length

section

variable (honce : (split.map fun e => (e.season, e.number)).Nodup)
include honce

theorem once_within (season : ℤ) : ((within split season).map (·.number)).Nodup := by
  refine List.pairwise_map.mpr (List.Pairwise.imp_of_mem ?_
    ((List.pairwise_map.mp honce).filter (·.season = some season)))
  intro e e' he he' hne hnumber
  rw [(mem_within.mp he).2, (mem_within.mp he').2, hnumber] at hne
  exact hne rfl

/-- A season that is `1..length` has `length` rows. -/
theorem Full.length_within (h : Full split season length) :
    (within split season).length = length := by
  have hperm : ((within split season).map (·.number)).Perm (oneTo length) := by
    refine (List.perm_ext_iff_of_nodup (once_within honce season) nodup_oneTo).mpr fun number => ?_
    rw [mem_oneTo, ← h.mem_iff, List.mem_map]
    simp only [mem_within, and_assoc]
  simpa [oneTo] using hperm.length_eq

omit honce in
/-- Where the first numbers are all there, as many as there are rows, the season has no other. -/
theorem full_of_found (hne : within split season ≠ [])
    (hfound : ∀ index < (within split season).length,
      ∃ e ∈ within split season, e.number = index + 1) :
    Full split season (within split season).length := by
  refine ⟨List.length_pos_iff.mpr hne, fun number => ?_⟩
  have hsubset : oneTo (within split season).length ⊆ (within split season).map (·.number) := by
    intro number hnumber
    obtain ⟨index, hindex, rfl⟩ := List.mem_map.mp hnumber
    obtain ⟨e, he, heq⟩ := hfound index (List.mem_range.mp hindex)
    exact List.mem_map.mpr ⟨e, he, heq⟩
  have hperm := (List.subperm_of_subset nodup_oneTo hsubset).perm_of_length_le (by simp [oneTo])
  rw [← mem_oneTo, hperm.mem_iff, List.mem_map]
  simp only [mem_within, and_assoc]

theorem seasonRun_isSome (h : Full split season length) (total : ℕ) :
    seasonRun (within split season) total ≠ none := by
  unfold seasonRun
  rw [Ne, mapM_eq_none_iff]
  rintro ⟨index, hindex, hnone⟩
  rw [h.length_within honce, List.mem_range] at hindex
  obtain ⟨e, he, hseason, hnumber⟩ := (h.mem_iff (index + 1)).mpr (by omega)
  simp only [Option.bind_eq_bind, Option.pure_def, Option.bind_eq_none_iff] at hnone
  rcases hfind : (within split season).find? (·.number = (index + 1 : ℤ)) with _ | found
  · have hmiss := List.find?_eq_none.mp hfind e (mem_within.mpr ⟨he, hseason⟩)
    simp [hnumber] at hmiss
  · exact absurd (hnone found hfind) (Option.some_ne_none _)

theorem seasonRun_eq_some {total : ℕ} {run : List (ℤ × String)} (hne : within split season ≠ [])
    (h : seasonRun (within split season) total = some run) :
    Full split season (within split season).length ∧
      run.map Prod.fst =
        (List.range (within split season).length).map (fun index : ℕ => (total + index + 1 : ℤ)) ∧
      ∀ n id, (n, id) ∈ run ↔
        ∃ e ∈ split, e.season = some season ∧ n = total + e.number ∧ id = e.id := by
  have hreads : ∀ (index : ℕ) (entry : ℤ × String), (do
      let episode ← (within split season).find? (·.number = (index + 1 : ℤ))
      return ((total + index + 1 : ℤ), episode.id)) = some entry ↔
        ∃ e ∈ within split season, e.number = index + 1 ∧ entry = ((total + index + 1 : ℤ), e.id) := by
    intro index entry
    simp only [Option.bind_eq_bind, Option.pure_def, Option.bind_eq_some_iff, Option.some.injEq]
    constructor
    · rintro ⟨e, hfind, rfl⟩
      exact ⟨e, List.mem_of_find?_eq_some hfind, by simpa using List.find?_some hfind, rfl⟩
    · rintro ⟨e, he, hnumber, rfl⟩
      have hfind := Table.find_of_mem (once_within honce season) he
      rw [hnumber] at hfind
      exact ⟨e, hfind, rfl⟩
  have hfull : Full split season (within split season).length := by
    refine full_of_found hne fun index hindex => ?_
    have hread := mt mapM_eq_none_iff.mpr (h ▸ Option.some_ne_none run)
    push Not at hread
    obtain ⟨entry, hentry⟩ :=
      Option.ne_none_iff_exists'.mp (hread index (List.mem_range.mpr hindex))
    obtain ⟨e, he, hnumber, _⟩ := (hreads index entry).mp hentry
    exact ⟨e, he, hnumber⟩
  refine ⟨hfull, map_of_mapM h fun index entry hentry => ?_, fun n id => ?_⟩
  · obtain ⟨e, _, _, rfl⟩ := (hreads index entry).mp hentry
    rfl
  · rw [mem_of_mapM h]
    constructor
    · rintro ⟨index, _, hentry⟩
      obtain ⟨e, he, hnumber, heq⟩ := (hreads index (n, id)).mp hentry
      obtain ⟨rfl, rfl⟩ := Prod.mk.inj heq
      obtain ⟨hmem, hseason⟩ := mem_within.mp he
      exact ⟨e, hmem, hseason, by omega, rfl⟩
    · rintro ⟨e, he, hseason, rfl, rfl⟩
      obtain ⟨hpos, hle⟩ := (hfull.mem_iff e.number).mp ⟨e, he, hseason, rfl⟩
      refine ⟨(e.number - 1).toNat, List.mem_range.mpr (by omega), (hreads _ _).mpr ?_⟩
      exact ⟨e, mem_within.mpr ⟨he, hseason⟩, by omega, Prod.ext (by dsimp only; omega) rfl⟩

/-- What the table has after the first `lengths.length` seasons. -/
structure Holds (split : List Numbered) (lengths : List ℕ) (table : SeasonTable) : Prop where
  keys : table.byAbsolute.map Prod.fst = oneTo table.total
  total : table.total = lengths.sum
  longest : ∀ n : ℕ, table.longest < n ↔ 0 < n ∧ ∀ length ∈ lengths, length < n
  full : ∀ s, ∀ h : s < lengths.length, Full split (s + 1) lengths[s]
  mem : ∀ n id, (n, id) ∈ table.byAbsolute ↔ ∃ s < lengths.length, ∃ e ∈ split,
    e.season = some (s + 1 : ℤ) ∧ n = Blocks.before lengths s + e.number ∧ id = e.id

omit honce in
theorem holds_nil : Holds split [] ⟨[], 0, 0⟩ where
  keys := rfl
  total := rfl
  longest n := by simp
  full s h := absurd h (Nat.not_lt_zero s)
  mem n id := by simp

omit honce in
theorem before_concat {s : ℕ} (h : s ≤ lengths.length) :
    Blocks.before (lengths ++ [length]) s = Blocks.before lengths s := by
  unfold Blocks.before
  rw [List.take_append_of_le_length h]

theorem holds_succ {run : List (ℤ × String)} (h : Holds split lengths table)
    (hne : within split (lengths.length + 1) ≠ [])
    (hrun : seasonRun (within split (lengths.length + 1)) table.total = some run) :
    Holds split (lengths ++ [(within split (lengths.length + 1)).length])
      { byAbsolute := table.byAbsolute ++ run
        total := table.total + (within split (lengths.length + 1)).length
        longest := max table.longest (within split (lengths.length + 1)).length } := by
  obtain ⟨hfull, hkeys, hmem⟩ := seasonRun_eq_some honce hne hrun
  refine ⟨?_, ?_, fun n => ?_, fun s hs => ?_, fun n id => ?_⟩
  · rw [List.map_append, h.keys, hkeys, oneTo_add]
  · rw [List.sum_append, List.sum_singleton, h.total]
  · rw [max_lt_iff, h.longest, List.forall_mem_append, List.forall_mem_singleton, and_assoc]
  · rw [List.length_append, List.length_singleton, Nat.lt_succ_iff_lt_or_eq] at hs
    rcases hs with hlt | rfl
    · rw [List.getElem_append_left hlt]
      exact h.full s hlt
    · rw [List.getElem_concat_length rfl]
      exact hfull
  · rw [List.mem_append, h.mem, hmem]
    constructor
    · rintro (⟨s, hs, he⟩ | he)
      · refine ⟨s, by simp; omega, ?_⟩
        rw [before_concat (Nat.le_of_lt hs)]
        exact he
      · refine ⟨lengths.length, by simp, ?_⟩
        rw [before_concat (Nat.le_refl _), Blocks.before, List.take_length, ← h.total]
        exact he
    · rintro ⟨s, hs, he⟩
      rw [List.length_append, List.length_singleton, Nat.lt_succ_iff_lt_or_eq] at hs
      rcases hs with hlt | rfl
      · rw [before_concat (Nat.le_of_lt hlt)] at he
        exact .inl ⟨s, hlt, he⟩
      · rw [before_concat (Nat.le_refl _), Blocks.before, List.take_length, ← h.total] at he
        exact .inr he

theorem seasonRuns_holds (h : Holds split lengths table)
    (hruns : seasonRuns split (lengths.length + 1) count table = some table') :
    ∃ lengths', lengths'.length = lengths.length + count ∧ Holds split lengths' table' := by
  induction count generalizing lengths table with
  | zero =>
    cases hruns
    exact ⟨lengths, rfl, h⟩
  | succ count ih =>
    simp only [seasonRuns] at hruns
    split_ifs at hruns with hne
    obtain ⟨run, hrun, hrest⟩ := Option.bind_eq_some_iff.mp hruns
    have hnext := holds_succ honce h hne hrun
    obtain ⟨lengths', hlength, hholds⟩ := ih hnext (by
      rw [List.length_append, List.length_singleton, Nat.cast_succ]
      exact hrest)
    refine ⟨lengths', ?_, hholds⟩
    rw [hlength, List.length_append, List.length_singleton]
    omega

theorem seasonRuns_isSome (hfull : ∀ s < count, ∃ length, Full split (season + s) length)
    (table : SeasonTable) : seasonRuns split season count table ≠ none := by
  induction count generalizing season table with
  | zero => exact Option.some_ne_none table
  | succ count ih =>
    obtain ⟨length, hfirst⟩ := hfull 0 (Nat.succ_pos count)
    rw [Nat.cast_zero, add_zero] at hfirst
    have hne : within split season ≠ [] := by
      refine List.length_pos_iff.mp ?_
      rw [hfirst.length_within honce]
      exact hfirst.pos
    obtain ⟨run, hrun⟩ :=
      Option.ne_none_iff_exists'.mp (seasonRun_isSome honce hfirst table.total)
    change (if within split season = [] then none else
      (seasonRun (within split season) table.total).bind _) ≠ none
    rw [if_neg hne, hrun, Option.bind_some]
    refine ih (fun s hs => ?_) _
    obtain ⟨length, hrest⟩ := hfull (s + 1) (Nat.succ_lt_succ hs)
    refine ⟨length, ?_⟩
    rwa [Nat.cast_succ, add_comm (s : ℤ), ← add_assoc] at hrest

end

/-- The season numbers `1..K`. -/
def seasonsTo (count : ℕ) : List (Option ℤ) := (oneTo count).map some

theorem nodup_seasonsTo : (seasonsTo count).Nodup :=
  nodup_oneTo.map (Option.some_injective ℤ)

theorem mem_seasonsTo {season : Option ℤ} :
    season ∈ seasonsTo count ↔ ∃ s < count, season = some (s + 1 : ℤ) := by
  simp only [seasonsTo, oneTo, List.map_map, List.mem_map, List.mem_range, Function.comp_apply]
  exact exists_congr fun s => and_congr_right fun _ => eq_comm

theorem Split.full (h : Split split lengths) (s : ℕ) (hs : s < lengths.length) :
    Full split (s + 1) lengths[s] where
  pos := h.pos _ (List.getElem_mem hs)
  mem_iff number := by
    rw [h.mem_iff]
    constructor
    · rintro ⟨t, _, heq, hnumber⟩
      obtain rfl : s = t := by
        have hcast := Option.some.inj heq
        omega
      exact hnumber
    · intro hnumber
      exact ⟨s, hs, rfl, hnumber⟩

theorem Split.seasons (h : Split split lengths) :
    (split.map (·.season)).dedup.Perm (seasonsTo lengths.length) := by
  refine (List.perm_ext_iff_of_nodup (List.nodup_dedup _) nodup_seasonsTo).mpr fun season => ?_
  rw [List.mem_dedup, List.mem_map, mem_seasonsTo]
  constructor
  · rintro ⟨e, he, rfl⟩
    obtain ⟨s, hs, hseason, _⟩ := (h.mem_iff e.season e.number).mp ⟨e, he, rfl, rfl⟩
    exact ⟨s, hs, hseason⟩
  · rintro ⟨s, hs, rfl⟩
    have hpos := (h.full s hs).pos
    obtain ⟨e, he, hseason, _⟩ := (h.mem_iff (some (s + 1)) 1).mpr ⟨s, hs, rfl, by omega, by omega⟩
    exact ⟨e, he, hseason⟩

theorem Split.lengths_unique {lengths' : List ℕ} (h : Split split lengths)
    (h' : Split split lengths') : lengths = lengths' := by
  have hlength : lengths.length = lengths'.length := by
    have heq := h.seasons.symm.trans h'.seasons
    simpa [seasonsTo, oneTo] using heq.length_eq
  refine List.ext_getElem hlength fun s hs hs' => ?_
  rw [← (h.full s hs).length_within h.once, ← (h'.full s hs').length_within h.once]

theorem Split.not_flat (h : Split split lengths) : ¬ Flat split := by
  rintro hflat
  have hlength := h.seasons.length_eq
  rw [(flat_iff.mp hflat).1] at hlength
  have htwo := h.two
  simp only [seasonsTo, oneTo, List.length_map, List.length_range] at hlength
  omega

theorem seasonTable_of_split (h : Split split lengths) : seasonTable split ≠ none := by
  have hseasons : (split.map (·.season)).dedup.length = lengths.length := by
    simpa [seasonsTo, oneTo] using h.seasons.length_eq
  have hnumbered : split.all (fun e => e.season.any (1 ≤ ·)) = true := by
    refine List.all_eq_true.mpr fun e he => ?_
    obtain ⟨s, _, hseason, _⟩ := (h.mem_iff e.season e.number).mp ⟨e, he, rfl, rfl⟩
    rw [hseason, Option.any_some, decide_eq_true_eq]
    omega
  unfold seasonTable
  dsimp only
  rw [if_neg (by simp [hnumbered]), if_neg (by simp [h.once]),
    if_neg (by rw [hseasons, not_lt]; exact h.two), hseasons]
  refine seasonRuns_isSome h.once (fun s hs => ⟨lengths[s], ?_⟩) _
  rw [add_comm]
  exact h.full s hs

theorem split_of_seasonTable (h : seasonTable split = some table) :
    ∃ lengths, Split split lengths ∧ Holds split lengths table := by
  unfold seasonTable at h
  dsimp only at h
  split_ifs at h with hnumbered honce htwo
  simp only [Bool.not_eq_true', decide_eq_false_iff_not, not_not] at honce
  obtain ⟨lengths, hlength, hholds⟩ := seasonRuns_holds honce holds_nil h
  rw [List.length_nil, zero_add] at hlength
  -- As many seasons as there are, from 1 on, are all of them.
  have hsubset : seasonsTo lengths.length ⊆ (split.map (·.season)).dedup := by
    intro season hseason
    obtain ⟨s, hs, rfl⟩ := mem_seasonsTo.mp hseason
    have hpos := (hholds.full s hs).pos
    obtain ⟨e, he, heq, _⟩ := ((hholds.full s hs).mem_iff 1).mpr (by omega)
    exact List.mem_dedup.mpr (List.mem_map.mpr ⟨e, he, heq⟩)
  have hperm := (List.subperm_of_subset nodup_seasonsTo hsubset).perm_of_length_le
    (by simp [seasonsTo, oneTo, hlength])
  refine ⟨lengths, ⟨by omega, fun length hmem => ?_, honce, fun season number => ?_⟩, hholds⟩
  · obtain ⟨s, hs, rfl⟩ := List.getElem_of_mem hmem
    exact (hholds.full s hs).pos
  · constructor
    · rintro ⟨e, he, rfl, rfl⟩
      obtain ⟨s, hs, hseason⟩ := mem_seasonsTo.mp
        (hperm.mem_iff.mpr (List.mem_dedup.mpr (List.mem_map_of_mem he)))
      exact ⟨s, hs, hseason, ((hholds.full s hs).mem_iff e.number).mp ⟨e, he, hseason, rfl⟩⟩
    · rintro ⟨s, hs, rfl, hnumber⟩
      exact ((hholds.full s hs).mem_iff number).mpr hnumber

/-! ### The pairs -/

def pairUp (flat : FlatRun) (split : List Numbered) : List NumberingPair :=
  match seasonTable split with
  | none => []
  | some table =>
    if flat.highest ≤ table.longest ∨ (table.total : ℤ) ≠ flat.highest then []
    else
      flat.byNumber.filterMap fun (absolute, absoluteId) =>
        (table.byAbsolute.lookup absolute).map fun splitId => ⟨absoluteId, splitId⟩

theorem alignAbsoluteNumbering_eq (left right : List NumberedEpisode) :
    alignAbsoluteNumbering left right =
      match flatRun (numbered left), flatRun (numbered right) with
      | some flat, none => pairUp flat (numbered right)
      | none, some flat => pairUp flat (numbered left)
      | _, _ => [] :=
  rfl

theorem Holds.aligned_iff (hflat : Flat flat) (hpos : ∀ f ∈ flat, 1 ≤ f.number)
    (hsplit : Split split lengths) (h : Holds split lengths table) :
    Aligned flat split lengths ↔ ¬ ((flat.map (·.number)).foldl max 0 ≤ table.longest ∨
      (table.total : ℤ) ≠ (flat.map (·.number)).foldl max 0) := by
  have hhighest : (flat.map (·.number)).foldl max 0 = (lengths.sum : ℤ) ↔
      IsGreatest {n | ∃ f ∈ flat, f.number = n} (lengths.sum : ℤ) :=
    highest_iff hflat.ne_nil hpos lengths.sum
  rw [not_or, not_not, not_le, h.total, eq_comm (a := ((lengths.sum : ℕ) : ℤ))]
  constructor
  · rintro ⟨_, _, hgreatest, hpast⟩
    have htop := hhighest.mpr hgreatest
    refine ⟨?_, htop⟩
    rw [htop, Int.ofNat_lt, h.longest]
    have htwo := hsplit.two
    have hzero : 0 < lengths.length := by omega
    exact ⟨Nat.lt_of_le_of_lt (Nat.zero_le _) (hpast _ (List.getElem_mem hzero)), hpast⟩
  · rintro ⟨hlongest, htop⟩
    rw [htop, Int.ofNat_lt, h.longest] at hlongest
    exact ⟨hflat, hsplit, hhighest.mp htop, hlongest.2⟩

theorem mem_pairUp (hflat : Flat flat) (hpos : ∀ f ∈ flat, 1 ≤ f.number) (pair : NumberingPair) :
    pair ∈ pairUp ⟨flat.map fun f => (f.number, f.id), (flat.map (·.number)).foldl max 0⟩ split ↔
      ∃ lengths, Aligned flat split lengths ∧ Pairs flat split lengths pair := by
  unfold pairUp
  rcases htable : seasonTable split with _ | table
  · refine ⟨fun h => absurd h List.not_mem_nil, ?_⟩
    rintro ⟨lengths, haligned, _⟩
    exact absurd htable (seasonTable_of_split haligned.is_split)
  · obtain ⟨lengths, hsplit, hholds⟩ := split_of_seasonTable htable
    have haligned := hholds.aligned_iff hflat hpos hsplit
    dsimp only
    by_cases hrefused : (flat.map (·.number)).foldl max 0 ≤ (table.longest : ℤ) ∨
        (table.total : ℤ) ≠ (flat.map (·.number)).foldl max 0
    · rw [if_pos hrefused]
      refine ⟨fun h => absurd h List.not_mem_nil, ?_⟩
      rintro ⟨lengths', haligned', _⟩
      obtain rfl := haligned'.is_split.lengths_unique hsplit
      exact absurd hrefused (haligned.mp haligned')
    · rw [if_neg hrefused, List.mem_filterMap]
      have hlookup : ∀ (n : ℤ) (id : String), table.byAbsolute.lookup n = some id ↔
          ∃ s < lengths.length, ∃ e ∈ split,
            e.season = some (s + 1 : ℤ) ∧ n = Blocks.before lengths s + e.number ∧ id = e.id :=
        fun n id => (lookup_eq_some_iff_mem (hholds.keys ▸ nodup_oneTo) n id).trans
          (hholds.mem n id)
      constructor
      · rintro ⟨entry, hentry, hpair⟩
        obtain ⟨f, hf, rfl⟩ := List.mem_map.mp hentry
        obtain ⟨splitId, hfound, rfl⟩ := Option.map_eq_some_iff.mp hpair
        obtain ⟨s, _, e, he, hseason, hnumber, rfl⟩ := (hlookup f.number splitId).mp hfound
        exact ⟨lengths, haligned.mpr hrefused, f, hf, e, he, s, hseason, hnumber, rfl⟩
      · rintro ⟨lengths', haligned', f, hf, e, he, s, hseason, hnumber, rfl⟩
        obtain rfl := haligned'.is_split.lengths_unique hsplit
        refine ⟨(f.number, f.id), List.mem_map_of_mem hf, Option.map_eq_some_iff.mpr
          ⟨e.id, (hlookup f.number e.id).mpr ?_, rfl⟩⟩
        obtain ⟨t, ht, heq, _⟩ := (hsplit.mem_iff _ _).mp ⟨e, he, hseason, rfl⟩
        obtain rfl : s = t := by
          have hcast := Option.some.inj heq
          omega
        exact ⟨s, ht, e, he, hseason, hnumber, rfl⟩

/-! ### The two arguments -/

variable {left left' right right' : List NumberedEpisode} {pair : NumberingPair}

/-- An episode that has a number to go by. -/
def reduced (episode : NumberedEpisode) : Option Numbered := do
  let number ← episode.episodeNumber
  if 1 ≤ number ∧ episode.seasonNumber ≠ some 0 then
    some ⟨episode.id, episode.seasonNumber, number⟩
  else none

theorem reduced_eq_some {episode : NumberedEpisode} {f : Numbered}
    (h : reduced episode = some f) : f.id = episode.id ∧ 1 ≤ f.number := by
  obtain ⟨number, _, hif⟩ := Option.bind_eq_some_iff.mp h
  split_ifs at hif with hnumber
  cases hif
  exact ⟨rfl, hnumber.1⟩

theorem one_le_of_mem_numbered : ∀ f ∈ numbered left, 1 ≤ f.number := by
  intro f hf
  obtain ⟨episode, _, hreduced⟩ := List.mem_filterMap.mp hf
  exact (reduced_eq_some hreduced).2

theorem nodup_ids_numbered (h : (left.map (·.id)).Nodup) : ((numbered left).map (·.id)).Nodup := by
  refine List.pairwise_map.mpr (List.Pairwise.filterMap reduced ?_ (List.pairwise_map.mp h))
  intro e e' hne f hf f' hf'
  rwa [(reduced_eq_some hf).1, (reduced_eq_some hf').1]

theorem mem_alignAbsoluteNumbering : pair ∈ alignAbsoluteNumbering left right ↔
    (∃ lengths, Aligned (numbered left) (numbered right) lengths ∧
        Pairs (numbered left) (numbered right) lengths pair) ∨
      ∃ lengths, Aligned (numbered right) (numbered left) lengths ∧
        Pairs (numbered right) (numbered left) lengths pair := by
  have hnone : ∀ {rows rows' : List Numbered}, ¬ Flat rows → ¬ ∃ lengths,
      Aligned rows rows' lengths ∧ Pairs rows rows' lengths pair := by
    rintro rows rows' hflat ⟨lengths, haligned, _⟩
    exact hflat haligned.is_flat
  have hboth : ∀ {rows rows' : List Numbered}, Flat rows' → ¬ ∃ lengths,
      Aligned rows rows' lengths ∧ Pairs rows rows' lengths pair := by
    rintro rows rows' hflat ⟨lengths, haligned, _⟩
    exact haligned.is_split.not_flat hflat
  rw [alignAbsoluteNumbering_eq]
  by_cases hleft : Flat (numbered left) <;> by_cases hright : Flat (numbered right)
  · rw [flatRun_eq_some hleft, flatRun_eq_some hright, iff_false_left List.not_mem_nil, not_or]
    exact ⟨hboth hright, hboth hleft⟩
  · rw [flatRun_eq_some hleft, flatRun_eq_none hright, or_iff_left (hnone hright)]
    exact mem_pairUp hleft one_le_of_mem_numbered pair
  · rw [flatRun_eq_none hleft, flatRun_eq_some hright, or_iff_right (hnone hleft)]
    exact mem_pairUp hright one_le_of_mem_numbered pair
  · rw [flatRun_eq_none hleft, flatRun_eq_none hright, iff_false_left List.not_mem_nil, not_or]
    exact ⟨hnone hleft, hnone hright⟩

theorem mem_alignAbsoluteNumbering_comm :
    pair ∈ alignAbsoluteNumbering left right ↔ pair ∈ alignAbsoluteNumbering right left := by
  rw [mem_alignAbsoluteNumbering, mem_alignAbsoluteNumbering, or_comm]

theorem mem_alignAbsoluteNumbering_of_aligned
    (h : Aligned (numbered left) (numbered right) lengths) :
    pair ∈ alignAbsoluteNumbering left right ↔
      Pairs (numbered left) (numbered right) lengths pair := by
  rw [mem_alignAbsoluteNumbering]
  constructor
  · rintro (⟨lengths', haligned, hpairs⟩ | ⟨lengths', haligned, _⟩)
    · obtain rfl := haligned.is_split.lengths_unique h.is_split
      exact hpairs
    · exact absurd h.is_flat haligned.is_split.not_flat
  · intro hpairs
    exact .inl ⟨lengths, h, hpairs⟩

/-! ### One to one -/

/-- The pairs are those of the offsets, every flat episode is in one, and no identifier is in two. -/
structure Bijects (flat split : List Numbered) (lengths : List ℕ) (pairs : List NumberingPair) :
    Prop where
  mem_iff : ∀ pair, pair ∈ pairs ↔ Pairs flat split lengths pair
  every : ∀ f ∈ flat, ∃ pair ∈ pairs, pair.absoluteId = f.id
  absolute_once : (pairs.map (·.absoluteId)).Nodup
  split_once : (pairs.map (·.splitId)).Nodup

theorem exists_pairs (h : Aligned flat split lengths) (hpos : ∀ f ∈ flat, 1 ≤ f.number) :
    ∀ f ∈ flat, ∃ splitId, Pairs flat split lengths ⟨f.id, splitId⟩ := by
  intro f hf
  have hone := hpos f hf
  have htop : f.number ≤ lengths.sum := h.highest.2 ⟨f, hf, rfl⟩
  obtain ⟨s, hs, number, hnumber, hlower, hupper⟩ :=
    @Blocks.exists_block lengths f.number.toNat (by omega) (by omega)
  obtain ⟨e, he, hseason, hcoordinate⟩ :=
    (h.is_split.mem_iff (some (s + 1)) number).mpr ⟨s, hs, rfl, by omega, by omega⟩
  exact ⟨e.id, f, hf, e, he, s, hseason, by omega, rfl⟩

theorem nodup_pairUp (hids : (flat.map (·.id)).Nodup) (highest : ℤ) :
    ((pairUp ⟨flat.map fun f => (f.number, f.id), highest⟩ split).map (·.absoluteId)).Nodup := by
  unfold pairUp
  rcases seasonTable split with _ | table
  · exact List.nodup_nil
  · dsimp only
    split_ifs
    · exact List.nodup_nil
    · have hentries : (flat.map fun f => (f.number, f.id)).Pairwise (·.2 ≠ ·.2) :=
        List.pairwise_map.mpr (List.pairwise_map.mp hids)
      refine List.pairwise_map.mpr (List.Pairwise.filterMap _ ?_ hentries)
      intro entry entry' hne pair hpair pair' hpair'
      obtain ⟨_, _, rfl⟩ := Option.map_eq_some_iff.mp hpair
      obtain ⟨_, _, rfl⟩ := Option.map_eq_some_iff.mp hpair'
      exact hne

theorem nodup_absoluteIds (hleft : (left.map (·.id)).Nodup) (hright : (right.map (·.id)).Nodup) :
    ((alignAbsoluteNumbering left right).map (·.absoluteId)).Nodup := by
  rw [alignAbsoluteNumbering_eq]
  by_cases hl : Flat (numbered left) <;> by_cases hr : Flat (numbered right)
  · rw [flatRun_eq_some hl, flatRun_eq_some hr]
    exact List.nodup_nil
  · rw [flatRun_eq_some hl, flatRun_eq_none hr]
    exact nodup_pairUp (nodup_ids_numbered hleft) _
  · rw [flatRun_eq_none hl, flatRun_eq_some hr]
    exact nodup_pairUp (nodup_ids_numbered hright) _
  · rw [flatRun_eq_none hl, flatRun_eq_none hr]
    exact List.nodup_nil

theorem bijects (hpos : ∀ f ∈ flat, 1 ≤ f.number) (hids : (split.map (·.id)).Nodup)
    (h : Aligned flat split lengths) {pairs : List NumberingPair}
    (hmem : ∀ pair, pair ∈ pairs ↔ Pairs flat split lengths pair)
    (honce : (pairs.map (·.absoluteId)).Nodup) : Bijects flat split lengths pairs where
  mem_iff := hmem
  every f hf := by
    obtain ⟨splitId, hpairs⟩ := exists_pairs h hpos f hf
    exact ⟨_, (hmem _).mpr hpairs, rfl⟩
  absolute_once := honce
  split_once := by
    refine (honce.of_map).map_on fun pair hpair pair' hpair' heq => ?_
    obtain ⟨f, hf, e, he, s, hseason, hnumber, rfl⟩ := (hmem pair).mp hpair
    obtain ⟨f', hf', e', he', s', hseason', hnumber', rfl⟩ := (hmem pair').mp hpair'
    obtain rfl := List.inj_on_of_nodup_map hids he he' heq
    have hcast := Option.some.inj (hseason.symm.trans hseason')
    obtain rfl : s = s' := by omega
    obtain rfl := List.inj_on_of_nodup_map h.is_flat.once hf hf' (hnumber.trans hnumber'.symm)
    rfl

theorem bijects_alignAbsoluteNumbering (hleft : (left.map (·.id)).Nodup)
    (hright : (right.map (·.id)).Nodup) (h : Aligned (numbered left) (numbered right) lengths) :
    Bijects (numbered left) (numbered right) lengths (alignAbsoluteNumbering left right) :=
  bijects one_le_of_mem_numbered (nodup_ids_numbered hright) h
    (fun _ => mem_alignAbsoluteNumbering_of_aligned h) (nodup_absoluteIds hleft hright)

theorem bijects_alignAbsoluteNumbering_swap (hleft : (left.map (·.id)).Nodup)
    (hright : (right.map (·.id)).Nodup) (h : Aligned (numbered right) (numbered left) lengths) :
    Bijects (numbered right) (numbered left) lengths (alignAbsoluteNumbering left right) :=
  bijects one_le_of_mem_numbered (nodup_ids_numbered hleft) h
    (fun _ => mem_alignAbsoluteNumbering_comm.trans (mem_alignAbsoluteNumbering_of_aligned h))
    (nodup_absoluteIds hleft hright)

/-! ### In whatever order the rows are -/

theorem Aligned.perm {flat' split' : List Numbered} (hflat : flat.Perm flat')
    (hsplit : split.Perm split') (h : Aligned flat split lengths) :
    Aligned flat' split' lengths where
  is_flat :=
    { ne_nil := fun hnil => h.is_flat.ne_nil (hnil ▸ hflat).eq_nil
      one_season := by simpa only [hflat.mem_iff] using h.is_flat.one_season
      once := (hflat.map _).nodup_iff.mp h.is_flat.once }
  is_split :=
    { two := h.is_split.two
      pos := h.is_split.pos
      once := (hsplit.map _).nodup_iff.mp h.is_split.once
      mem_iff := by simpa only [hsplit.mem_iff] using h.is_split.mem_iff }
  highest := by simpa only [hflat.mem_iff] using h.highest
  past := h.past

theorem Pairs.perm {flat' split' : List Numbered} (hflat : flat.Perm flat')
    (hsplit : split.Perm split') (h : Pairs flat split lengths pair) :
    Pairs flat' split' lengths pair := by
  simpa only [Pairs, hflat.mem_iff, hsplit.mem_iff] using h

theorem mem_alignAbsoluteNumbering_of_perm (hleft : left.Perm left') (hright : right.Perm right')
    (h : pair ∈ alignAbsoluteNumbering left right) :
    pair ∈ alignAbsoluteNumbering left' right' := by
  have hleft : (numbered left).Perm (numbered left') := hleft.filterMap _
  have hright : (numbered right).Perm (numbered right') := hright.filterMap _
  rw [mem_alignAbsoluteNumbering] at h ⊢
  rcases h with ⟨lengths, haligned, hpairs⟩ | ⟨lengths, haligned, hpairs⟩
  · exact .inl ⟨lengths, haligned.perm hleft hright, hpairs.perm hleft hright⟩
  · exact .inr ⟨lengths, haligned.perm hright hleft, hpairs.perm hright hleft⟩
/-! ### Without some of the flat rows -/

/-- The rows that are left of a flat side have the highest one. -/
def KeepsHighest (left left' : List NumberedEpisode) : Prop :=
  ∀ f ∈ numbered left, (∀ other ∈ numbered left, other.number ≤ f.number) → f ∈ numbered left'

section

variable (hflat : Flat (numbered left)) (hsub : left'.Sublist left)
  (hkeep : KeepsHighest left left')
include hflat hsub hkeep

omit hsub in
theorem exists_highest : ∃ f ∈ numbered left',
    IsGreatest {n | ∃ g ∈ numbered left, g.number = n} f.number := by
  obtain ⟨⟨f, hf, heq⟩, hupper⟩ := (highest_iff hflat.ne_nil one_le_of_mem_numbered _).mp rfl
  rw [← heq] at hupper
  exact ⟨f, hkeep f hf fun other hother => hupper ⟨other, hother, rfl⟩, ⟨f, hf, rfl⟩, hupper⟩

theorem flat_of_sublist : Flat (numbered left') := by
  have hrows : (numbered left').Sublist (numbered left) := hsub.filterMap _
  obtain ⟨f, hf, _⟩ := exists_highest hflat hkeep
  obtain ⟨season, hseason⟩ := hflat.one_season
  exact ⟨List.ne_nil_of_mem hf, ⟨season, fun g hg => hseason g (hrows.subset hg)⟩,
    hflat.once.sublist (hrows.map _)⟩

theorem isGreatest_iff_of_sublist (top : ℤ) :
    IsGreatest {n | ∃ f ∈ numbered left', f.number = n} top ↔
      IsGreatest {n | ∃ f ∈ numbered left, f.number = n} top := by
  have hrows : (numbered left').Sublist (numbered left) := hsub.filterMap _
  obtain ⟨f, hf, hgreatest⟩ := exists_highest hflat hkeep
  have hgreatest' : IsGreatest {n | ∃ g ∈ numbered left', g.number = n} f.number := by
    refine ⟨⟨f, hf, rfl⟩, ?_⟩
    rintro n ⟨g, hg, rfl⟩
    exact hgreatest.2 ⟨g, hrows.subset hg, rfl⟩
  constructor
  · intro htop
    rwa [htop.unique hgreatest']
  · intro htop
    rwa [htop.unique hgreatest]

theorem aligned_iff_of_sublist :
    Aligned (numbered left') split lengths ↔ Aligned (numbered left) split lengths := by
  constructor
  · intro h
    exact ⟨hflat, h.is_split,
      (isGreatest_iff_of_sublist hflat hsub hkeep _).mp h.highest, h.past⟩
  · intro h
    exact ⟨flat_of_sublist hflat hsub hkeep, h.is_split,
      (isGreatest_iff_of_sublist hflat hsub hkeep _).mpr h.highest, h.past⟩

omit hflat hkeep in
theorem pairs_iff_of_sublist (hids : (left.map (·.id)).Nodup) :
    Pairs (numbered left') split lengths pair ↔
      Pairs (numbered left) split lengths pair ∧ ∃ e ∈ left', e.id = pair.absoluteId := by
  have hrows : (numbered left').Sublist (numbered left) := hsub.filterMap _
  constructor
  · rintro ⟨f, hf, e, he, s, hseason, hnumber, rfl⟩
    obtain ⟨episode, hepisode, hreduced⟩ := List.mem_filterMap.mp hf
    exact ⟨⟨f, hrows.subset hf, e, he, s, hseason, hnumber, rfl⟩, episode, hepisode,
      (reduced_eq_some hreduced).1.symm⟩
  · rintro ⟨⟨f, hf, e, he, s, hseason, hnumber, rfl⟩, episode, hepisode, hid⟩
    obtain ⟨other, hother, hreduced⟩ := List.mem_filterMap.mp hf
    obtain rfl := List.inj_on_of_nodup_map hids (hsub.subset hepisode) hother
      (hid.trans (reduced_eq_some hreduced).1)
    exact ⟨f, List.mem_filterMap.mpr ⟨episode, hepisode, hreduced⟩, e, he, s, hseason, hnumber, rfl⟩

theorem mem_alignAbsoluteNumbering_of_sublist (hids : (left.map (·.id)).Nodup) :
    pair ∈ alignAbsoluteNumbering left' right ↔
      pair ∈ alignAbsoluteNumbering left right ∧ ∃ e ∈ left', e.id = pair.absoluteId := by
  have hother : ∀ {rows rows' : List Numbered}, Flat rows' →
      ¬ ∃ lengths, Aligned rows rows' lengths ∧ Pairs rows rows' lengths pair := by
    rintro rows rows' hrows ⟨lengths, haligned, _⟩
    exact haligned.is_split.not_flat hrows
  rw [mem_alignAbsoluteNumbering, mem_alignAbsoluteNumbering, or_iff_left (hother hflat),
    or_iff_left (hother (flat_of_sublist hflat hsub hkeep)), ← exists_and_right]
  refine exists_congr fun lengths => ?_
  rw [aligned_iff_of_sublist hflat hsub hkeep, pairs_iff_of_sublist hsub hids, and_assoc]

end

/-! ### The whole -/

structure IsOffsetBijection (left right : List NumberedEpisode) : Prop where
  empty_unless : alignAbsoluteNumbering left right ≠ [] → ∃ lengths,
    Aligned (numbered left) (numbered right) lengths ∨
      Aligned (numbered right) (numbered left) lengths
  flat_left : ∀ lengths, Aligned (numbered left) (numbered right) lengths →
    Bijects (numbered left) (numbered right) lengths (alignAbsoluteNumbering left right)
  flat_right : ∀ lengths, Aligned (numbered right) (numbered left) lengths →
    Bijects (numbered right) (numbered left) lengths (alignAbsoluteNumbering left right)
  swap : ∀ pair, pair ∈ alignAbsoluteNumbering right left ↔ pair ∈ alignAbsoluteNumbering left right
  perm : ∀ left' right', left.Perm left' → right.Perm right' → ∀ pair,
    pair ∈ alignAbsoluteNumbering left' right' ↔ pair ∈ alignAbsoluteNumbering left right
  remove_left : ∀ left', left'.Sublist left → Flat (numbered left) → KeepsHighest left left' →
    ∀ pair, pair ∈ alignAbsoluteNumbering left' right ↔
      pair ∈ alignAbsoluteNumbering left right ∧ ∃ e ∈ left', e.id = pair.absoluteId
  remove_right : ∀ right', right'.Sublist right → Flat (numbered right) →
    KeepsHighest right right' → ∀ pair, pair ∈ alignAbsoluteNumbering left right' ↔
      pair ∈ alignAbsoluteNumbering left right ∧ ∃ e ∈ right', e.id = pair.absoluteId

/-- **The alignment is the bijection of the season offsets**, of the rows with a season other than 0
and a number of at least 1. -/
theorem isOffsetBijection (hleft : (left.map (·.id)).Nodup) (hright : (right.map (·.id)).Nodup) :
    IsOffsetBijection left right where
  empty_unless hne := by
    obtain ⟨pair, hpair⟩ := List.exists_mem_of_ne_nil _ hne
    rcases mem_alignAbsoluteNumbering.mp hpair with ⟨lengths, h, _⟩ | ⟨lengths, h, _⟩
    · exact ⟨lengths, .inl h⟩
    · exact ⟨lengths, .inr h⟩
  flat_left _ := bijects_alignAbsoluteNumbering hleft hright
  flat_right _ := bijects_alignAbsoluteNumbering_swap hleft hright
  swap _ := mem_alignAbsoluteNumbering_comm
  perm left' right' hl hr pair :=
    ⟨mem_alignAbsoluteNumbering_of_perm hl.symm hr.symm, mem_alignAbsoluteNumbering_of_perm hl hr⟩
  remove_left left' hsub hflat hkeep pair :=
    mem_alignAbsoluteNumbering_of_sublist hflat hsub hkeep hleft
  remove_right right' hsub hflat hkeep pair := by
    rw [mem_alignAbsoluteNumbering_comm, @mem_alignAbsoluteNumbering_comm left]
    exact mem_alignAbsoluteNumbering_of_sublist hflat hsub hkeep hright

/-- Two episodes of one run, and three of two seasons. -/
theorem isOffsetBijection_run : IsOffsetBijection
    [⟨"one", none, some 1⟩, ⟨"three", none, some 3⟩]
    [⟨"special", some 0, some 1⟩, ⟨"2x1", some 2, some 1⟩, ⟨"1x2", some 1, some 2⟩,
      ⟨"1x1", some 1, some 1⟩] :=
  isOffsetBijection (by decide) (by decide)

/-- The rows that have a number and a season other than 0. -/
def withNumber (episodes : List NumberedEpisode) : List Numbered :=
  episodes.filterMap fun episode => do
    let number ← episode.episodeNumber
    if episode.seasonNumber ≠ some 0 then some ⟨episode.id, episode.seasonNumber, number⟩ else none

/-- An episode 0 of a season is dropped like a special. -/
theorem alignAbsoluteNumbering_episodeZero : ∃ left right : List NumberedEpisode,
    (left.map (·.id)).Nodup ∧ (right.map (·.id)).Nodup ∧ alignAbsoluteNumbering left right ≠ [] ∧
      ¬ ∃ lengths, Aligned (withNumber left) (withNumber right) lengths ∨
        Aligned (withNumber right) (withNumber left) lengths := by
  refine ⟨[⟨"three", none, some 3⟩], [⟨"1x0", some 1, some 0⟩, ⟨"1x1", some 1, some 1⟩,
    ⟨"1x2", some 1, some 2⟩, ⟨"2x1", some 2, some 1⟩], by decide, by decide, by decide, ?_⟩
  rintro ⟨lengths, h | h⟩
  · -- Episode 0 is not one of `1..L`.
    obtain ⟨_, _, _, hpos, _⟩ := (h.is_split.mem_iff (some 1) 0).mp
      ⟨⟨"1x0", some 1, 0⟩, by decide, rfl, rfl⟩
    exact absurd hpos (by decide)
  · obtain ⟨season, hseason⟩ := h.is_flat.one_season
    have hfirst := hseason ⟨"1x1", some 1, 1⟩ (by decide)
    have hsecond := hseason ⟨"2x1", some 2, 1⟩ (by decide)
    exact absurd (hfirst.trans hsecond.symm) (by decide)

end MediaCenterSync.Matching
