import MediaCenterSync.Releases.Grouping

/-!
# What a line shows and what a grab takes

A line is named after its best seeded copy and ranked by the flags and the trackers of all of them,
and then its copies are reordered by the preference.  So every listing is in one line and the lines
that are held come last whatever the preference says; but the name is that of the copy a grab takes,
and the lines are in the order of those copies, only where the listings say so (`LeavesAsShown`):
`shows_iff`.

`arrived` are the lines before any of them is moved, and `spec_foldCopies` reads what they are off
the listings of their keys.
-/

namespace MediaCenterSync.Releases

open Comparator

section

variable {toLowerCase : String → String} {preference : ReleasePreference}

/-! ### The comparators -/

theorem lawful_compareGroups : Lawful compareGroups := by
  have hsize := lawful_key_desc fun group : ReleaseGroup => ((group.size.getD 0 : ℕ) : ℤ)
  have hseeders := hsize.orElse_key_desc fun group => ((group.seeders.getD 0 : ℕ) : ℤ)
  exact hseeders.orElse_key fun group => (group.heldAlready.toNat : ℤ)

theorem lawful_compareByRanks (ranks : List ReleasePreferenceRank) :
    Lawful fun left right => compareByRanks toLowerCase left right ranks := by
  induction ranks with
  | nil => exact ⟨fun _ _ => .inl le_rfl, fun _ _ _ _ _ => le_rfl⟩
  | cons rank rest ih =>
    unfold compareByRanks
    split_ifs
    · exact ih
    · exact ih.orElse_key fun release => (placeOf toLowerCase release rank : ℤ)

theorem compareByRanks_swap (ranks : List ReleasePreferenceRank) (a b : PreferableRelease) :
    compareByRanks toLowerCase b a ranks = -compareByRanks toLowerCase a b ranks := by
  induction ranks with
  | nil => rfl
  | cons rank rest ih =>
    unfold compareByRanks
    split_ifs
    · exact ih
    · rw [ih]
      unfold orElse
      split_ifs <;> omega

theorem lawful_compareLines : Lawful (compareLines toLowerCase preference) := by
  have hranks : Lawful fun a b : ReleaseGroup =>
      compareByReleasePreference toLowerCase preference a.preferable b.preferable :=
    (lawful_compareByRanks preference.ranks).comap ReleaseGroup.preferable
  exact hranks.orElse_key fun group => (group.heldAlready.toNat : ℤ)

theorem compareLines_swap (a b : ReleaseGroup) :
    compareLines toLowerCase preference b a = -compareLines toLowerCase preference a b := by
  have hranks : compareByReleasePreference toLowerCase preference b.preferable a.preferable =
      -compareByReleasePreference toLowerCase preference a.preferable b.preferable :=
    compareByRanks_swap ..
  unfold compareLines
  rw [hranks]
  unfold orElse
  split_ifs <;> omega

/-! ### The lines as they arrive -/

/-- The lines in the order in which the first of their listings came. -/
def arrived (releases : List Release) : List ReleaseGroup :=
  (copiesByKey releases).filterMap fun (key, copies) => foldCopies key copies

theorem foldCopies_eq_some {key : String} {copies : List Release} {line : ReleaseGroup}
    (h : foldCopies key copies = some line) :
    line.key = key ∧ line.releases = sort better copies := by
  unfold foldCopies at h
  split at h
  · cases h
  · next first others hsort =>
    cases h
    exact ⟨rfl, hsort.symm⟩

theorem foldCopies_eq_none {key : String} {copies : List Release}
    (h : foldCopies key copies = none) :
    sort better copies = [] := by
  unfold foldCopies at h
  split at h
  · assumption
  · cases h

theorem nodup_keys_arrived (releases : List Release) : ((arrived releases).map (·.key)).Nodup := by
  have hkeys : (copiesByKey releases).Pairwise fun entry other => entry.1 ≠ other.1 :=
    List.pairwise_map.mp (OrderedMap.nodup_keys_groupBy ..)
  refine List.pairwise_map.mpr (hkeys.filterMap _ fun entry other hne line hline more hmore => ?_)
  rw [(foldCopies_eq_some hline).1, (foldCopies_eq_some hmore).1]
  exact hne

theorem perm_arrived (releases : List Release) :
    ((arrived releases).flatMap (·.releases)).Perm releases := by
  have hsorted (entries : List (String × List Release)) :
      ((entries.filterMap fun (key, copies) => foldCopies key copies).flatMap (·.releases)).Perm
        (entries.flatMap (·.2)) := by
    induction entries with
    | nil => exact List.Perm.refl _
    | cons entry rest ih =>
      obtain ⟨key, copies⟩ := entry
      have hperm := sort_perm better copies
      rw [List.filterMap_cons, List.flatMap_cons]
      dsimp only
      cases hfold : foldCopies key copies with
      | none =>
        rw [foldCopies_eq_none hfold] at hperm
        rw [hperm.nil_eq.symm]
        exact ih
      | some line =>
        rw [List.flatMap_cons, (foldCopies_eq_some hfold).2]
        exact hperm.append ih
  exact (hsorted _).trans (OrderedMap.flatMap_groupBy_append ..)

/-! ### The property -/

variable (toLowerCase preference)

/-- The copy of a line that a grab takes once a preference has ordered them. -/
def ReleaseGroup.taken (line : ReleaseGroup) : Release := (line.prefer toLowerCase preference).first

/-- What a list of lines promises of the listings it was made of. -/
structure Shows (releases : List Release) (lines : List ReleaseGroup) : Prop where
  /-- Every listing is a copy of one line, once. -/
  once : (lines.flatMap (·.releases)).Perm releases
  named : ∀ line ∈ lines, line.title = line.first.title
  heldLast : lines.Pairwise fun line later => line.heldAlready = true → later.heldAlready = true
  /-- No line comes before one whose first copy is to be preferred. -/
  inOrder : lines.Pairwise fun line later => line.heldAlready = later.heldAlready →
    compareByReleasePreference toLowerCase preference line.first.preferable
      later.first.preferable ≤ 0

/-- A line goes ahead of one that came later: by the preference, or, where that finds them equally
good, by its seeders and its size. -/
def GoesAhead (line later : ReleaseGroup) : Prop :=
  orElse (compareLines toLowerCase preference (line.prefer toLowerCase preference)
    (later.prefer toLowerCase preference)) (compareGroups line later) ≤ 0

instance (line later : ReleaseGroup) : Decidable (GoesAhead toLowerCase preference line later) :=
  inferInstanceAs (Decidable (_ ≤ _))

/-- The lines agree with the copies that are taken of them. -/
structure LinesAgree (releases : List Release) : Prop where
  named : ∀ line ∈ arrived releases, line.title = (line.taken toLowerCase preference).title
  inOrder : (arrived releases).Pairwise fun line later => line.heldAlready = later.heldAlready →
    if GoesAhead toLowerCase preference line later then
      compareByReleasePreference toLowerCase preference
        (line.taken toLowerCase preference).preferable
        (later.taken toLowerCase preference).preferable ≤ 0
    else
      compareByReleasePreference toLowerCase preference
        (later.taken toLowerCase preference).preferable
        (line.taken toLowerCase preference).preferable ≤ 0

/-- The listings of one key, in the order they came. -/
def copiesOf (releases : List Release) (key : String) : List Release :=
  releases.filter (·.keyOf = key)

/-- Which of two copies is to be taken: by the preference, and where that finds them equally good,
the better seeded. -/
def compareCopies (left right : Release) : ℤ :=
  orElse (compareByReleasePreference toLowerCase preference left.preferable right.preferable)
    (better left right)

/-- What ranks a line: the words of one copy, and the flags and the trackers of all. -/
def shownAs (seeded : Release) (copies : List Release) : PreferableRelease :=
  { seeded.preferable with
    flags := copies.flatMap (·.flags)
    indexers := copies.map (·.indexer) }

def seedersOf (copies : List Release) : ℕ := (copies.map fun one => one.seeders.getD 0).sum

def largestOf (copies : List Release) : ℕ := (copies.map fun one => one.size.getD 0).foldr max 0

/-- The copies are ranked ahead of others whose key came later: by their words, flags and trackers,
or, where those tie, by seeders and size. -/
def Leads (seeded : Release) (copies : List Release) (other : Release) (others : List Release) :
    Prop :=
  orElse (compareByReleasePreference toLowerCase preference (shownAs seeded copies)
    (shownAs other others))
      (orElse ((seedersOf others : ℤ) - seedersOf copies)
        ((largestOf others : ℤ) - largestOf copies)) ≤ 0

instance (seeded other : Release) (copies others : List Release) :
    Decidable (Leads toLowerCase preference seeded copies other others) :=
  inferInstanceAs (Decidable (_ ≤ _))

/-- To the preference, one of the copies is as good as every one of others. -/
def Matches (copies others : List Release) : Prop :=
  ∃ copy ∈ copies, ∀ other ∈ others,
    compareByReleasePreference toLowerCase preference copy.preferable other.preferable ≤ 0

/-- What the listings say where a line shows what is taken of it: of one key, the best seeded and
the one the preference is for bear one name; and of two keys that are both held or both not, the one
that is ranked ahead has a copy that, to the preference, is as good as every copy of the other. -/
structure LeavesAsShown (releases : List Release) : Prop where
  named : ∀ key seeded taken, First better (copiesOf releases key) seeded →
    First (compareCopies toLowerCase preference) (copiesOf releases key) taken →
      seeded.title = taken.title
  inOrder : (releases.map Release.keyOf).eraseDups.Pairwise fun key later =>
    ((copiesOf releases key).any (·.heldAlready) = (copiesOf releases later).any (·.heldAlready)) →
      ∀ seeded other, First better (copiesOf releases key) seeded →
        First better (copiesOf releases later) other →
          if Leads toLowerCase preference seeded (copiesOf releases key) other
              (copiesOf releases later) then
            Matches toLowerCase preference (copiesOf releases key) (copiesOf releases later)
          else Matches toLowerCase preference (copiesOf releases later) (copiesOf releases key)

variable {toLowerCase preference} {releases : List Release}

theorem mem_ordered {line : ReleaseGroup} :
    line ∈ orderGroupsByPreference toLowerCase preference (groupReleases releases) ↔
      ∃ arrival ∈ arrived releases, arrival.prefer toLowerCase preference = line := by
  unfold orderGroupsByPreference groupReleases
  rw [mem_sort, List.mem_map]
  exact exists_congr fun arrival => and_congr_left fun _ => mem_sort

theorem perm_ordered : ((orderGroupsByPreference toLowerCase preference
    (groupReleases releases)).flatMap (·.releases)).Perm releases := by
  have hlines : (orderGroupsByPreference toLowerCase preference (groupReleases releases)).Perm
      ((arrived releases).map (·.prefer toLowerCase preference)) :=
    (sort_perm _ _).trans ((sort_perm _ _).map _)
  have hcopies : (((arrived releases).map (·.prefer toLowerCase preference)).flatMap
      (·.releases)).Perm ((arrived releases).flatMap (·.releases)) := by
    rw [List.flatMap_map]
    exact List.Perm.flatMap_left _ fun line _ => sort_perm _ _
  exact ((hlines.flatMap_right _).trans hcopies).trans (perm_arrived releases)

theorem heldLast_ordered : (orderGroupsByPreference toLowerCase preference
    (groupReleases releases)).Pairwise fun line later =>
      line.heldAlready = true → later.heldAlready = true := by
  refine (pairwise_sort lawful_compareLines _).imp fun {line later} hle hheld => ?_
  unfold compareLines at hle
  rw [orElse_le_iff, hheld] at hle
  cases hlater : later.heldAlready with
  | true => rfl
  | false => simp [hlater] at hle

/-- Which of two lines stands first in the end, from the order they came in. -/
theorem pairwise_ordered {R : ReleaseGroup → ReleaseGroup → Prop} :
    (orderGroupsByPreference toLowerCase preference (groupReleases releases)).Pairwise R ↔
      (arrived releases).Pairwise fun line later =>
        if GoesAhead toLowerCase preference line later then
          R (line.prefer toLowerCase preference) (later.prefer toLowerCase preference)
        else R (later.prefer toLowerCase preference) (line.prefer toLowerCase preference) := by
  have hnodup := nodup_keys_arrived releases
  have hgrouped : ((groupReleases releases).map (·.key)).Nodup :=
    ((sort_perm compareGroups (arrived releases)).map _).nodup_iff.mpr hnodup
  have hpreferred : (((groupReleases releases).map
      (·.prefer toLowerCase preference)).map (·.key)).Nodup := by
    rw [List.map_map]
    exact hgrouped
  unfold orderGroupsByPreference
  rw [pairwise_sort_iff lawful_compareLines hpreferred.of_map, List.pairwise_map]
  unfold groupReleases
  rw [show (copiesByKey releases).filterMap (fun (key, copies) => foldCopies key copies) =
    arrived releases from rfl, pairwise_sort_iff lawful_compareGroups hnodup.of_map]
  refine List.Pairwise.iff fun line later => ?_
  have hswap := @compareLines_swap toLowerCase preference
    (line.prefer toLowerCase preference) (later.prefer toLowerCase preference)
  have hahead : GoesAhead toLowerCase preference line later ↔ _ := orElse_le_iff
  split_ifs <;> first | exact Iff.rfl | (rw [hahead] at *; exfalso; omega)

theorem shows_iff_linesAgree : Shows toLowerCase preference releases
      (orderGroupsByPreference toLowerCase preference (groupReleases releases)) ↔
    LinesAgree toLowerCase preference releases := by
  have hnamed : (∀ line ∈ orderGroupsByPreference toLowerCase preference (groupReleases releases),
      line.title = line.first.title) ↔
        ∀ line ∈ arrived releases, line.title = (line.taken toLowerCase preference).title := by
    constructor
    · intro h line hline
      exact h _ (mem_ordered.mpr ⟨line, hline, rfl⟩)
    · intro h line hline
      obtain ⟨arrival, harrival, rfl⟩ := mem_ordered.mp hline
      exact h arrival harrival
  have hpairs (line later : ReleaseGroup) :
      (if GoesAhead toLowerCase preference line later then
        line.heldAlready = later.heldAlready →
          compareByReleasePreference toLowerCase preference
            (line.taken toLowerCase preference).preferable
            (later.taken toLowerCase preference).preferable ≤ 0
      else
        later.heldAlready = line.heldAlready →
          compareByReleasePreference toLowerCase preference
            (later.taken toLowerCase preference).preferable
            (line.taken toLowerCase preference).preferable ≤ 0) ↔
      (line.heldAlready = later.heldAlready →
        if GoesAhead toLowerCase preference line later then
          compareByReleasePreference toLowerCase preference
            (line.taken toLowerCase preference).preferable
            (later.taken toLowerCase preference).preferable ≤ 0
        else
          compareByReleasePreference toLowerCase preference
            (later.taken toLowerCase preference).preferable
            (line.taken toLowerCase preference).preferable ≤ 0) := by
    split_ifs
    · exact Iff.rfl
    · rw [eq_comm]
  constructor
  · intro h
    exact ⟨hnamed.mp h.named, (List.Pairwise.iff hpairs).mp (pairwise_ordered.mp h.inOrder)⟩
  · intro h
    exact ⟨perm_ordered, hnamed.mpr h.named, heldLast_ordered,
      pairwise_ordered.mpr ((List.Pairwise.iff hpairs).mpr h.inOrder)⟩

/-! ### The lines, read off the listings -/

/-- A fold that only ever goes down to what some value allows. -/
theorem foldl_le_iff {f : ℕ → String → ℕ} {P : String → ℕ → Prop}
    (hf : ∀ best value n, f best value ≤ n ↔ best ≤ n ∨ P value n) {carried : List String}
    {best n : ℕ} : carried.foldl f best ≤ n ↔ best ≤ n ∨ ∃ value ∈ carried, P value n := by
  induction carried generalizing best with
  | nil => simp
  | cons value rest ih => rw [List.foldl_cons, ih, hf, List.exists_mem_cons_iff, or_assoc]

/-- A place is at most what a value that is carried has among the wanted ones. -/
theorem placeOf_le_iff {release : PreferableRelease} {rank : ReleasePreferenceRank} {n : ℕ} :
    placeOf toLowerCase release rank ≤ n ↔ MAX_SAFE_INTEGER ≤ n ∨
      ∃ value ∈ readers toLowerCase rank.dimension release,
        ∃ place ∈ (rank.values.map (fold toLowerCase rank.dimension)).findIdx?
          (· = fold toLowerCase rank.dimension value), place ≤ n := by
  unfold placeOf
  dsimp only
  rw [foldl_le_iff (P := fun value n =>
    ∃ place ∈ (rank.values.map (fold toLowerCase rank.dimension)).findIdx? (· = value), place ≤ n)]
  · simp only [List.mem_map, exists_exists_and_eq_and]
  · intro best value n
    split
    · next place hplace =>
      simp only [hplace, Option.mem_some_iff, exists_eq_left']
      split_ifs <;> omega
    · next hnone => simp [hnone]

/-- Two that carry the same in every dimension. -/
def Alike (toLowerCase : String → String) (a b : PreferableRelease) : Prop :=
  ∀ dimension value,
    value ∈ readers toLowerCase dimension a ↔ value ∈ readers toLowerCase dimension b

theorem Alike.placeOf_eq {a b : PreferableRelease} (h : Alike toLowerCase a b)
    (rank : ReleasePreferenceRank) : placeOf toLowerCase a rank = placeOf toLowerCase b rank := by
  refine eq_of_forall_ge_iff fun n => ?_
  simp only [placeOf_le_iff, h rank.dimension]

theorem Alike.compare_eq {a b a' b' : PreferableRelease} (ha : Alike toLowerCase a a')
    (hb : Alike toLowerCase b b') :
    compareByReleasePreference toLowerCase preference a b
      = compareByReleasePreference toLowerCase preference a' b' := by
  unfold compareByReleasePreference
  induction preference.ranks with
  | nil => rfl
  | cons rank rest ih => simp only [compareByRanks, ha.placeOf_eq, hb.placeOf_eq, ih]

theorem mem_releaseCostOf {flags : List String} {cost : String} :
    cost ∈ releaseCostOf toLowerCase flags ↔
      (∃ flag ∈ flags, FREE_RELEASE_FLAGS.lookup (toLowerCase flag) = some cost) ∧
        (cost = "free" ∨
          ¬ ∃ flag ∈ flags, FREE_RELEASE_FLAGS.lookup (toLowerCase flag) = some "free") := by
  have hcosts (flag cost : String) (h : FREE_RELEASE_FLAGS.lookup flag = some cost) :
      cost = "free" ∨ cost = "half" := by
    obtain ⟨before, after, heq, -⟩ := List.lookup_eq_some_iff.mp h
    have hmem : (flag, cost) ∈ FREE_RELEASE_FLAGS := by simp [heq]
    simp only [FREE_RELEASE_FLAGS, List.mem_cons, Prod.mk.injEq, List.not_mem_nil, or_false] at hmem
    grind
  unfold releaseCostOf
  dsimp only
  rw [← List.mem_filterMap, ← List.mem_filterMap]
  generalize hlist : flags.filterMap (fun flag => FREE_RELEASE_FLAGS.lookup (toLowerCase flag))
    = costs
  have hall : ∀ one ∈ costs, one = "free" ∨ one = "half" := by
    intro one hone
    rw [← hlist, List.mem_filterMap] at hone
    obtain ⟨flag, -, hflag⟩ := hone
    exact hcosts _ _ hflag
  split_ifs with hfree
  · simp only [Option.mem_some_iff, hfree, not_true, or_false]
    exact ⟨fun h => ⟨h ▸ hfree, h.symm⟩, fun h => h.2.symm⟩
  · simp only [hfree, not_false_eq_true, or_true, and_true]
    -- without a free one, all cost half
    cases costs with
    | nil => simp
    | cons first rest =>
      have hhalf : ∀ one ∈ first :: rest, one = "half" := fun one hone =>
        (hall one hone).resolve_left fun heq => hfree (heq ▸ hone)
      rw [List.head?_cons, Option.mem_some_iff]
      constructor
      · rintro rfl
        exact List.mem_cons_self
      · intro hcost
        rw [hhalf first List.mem_cons_self, hhalf cost hcost]

theorem alike_of_mem {a b : PreferableRelease} (htitle : a.title = b.title)
    (hquality : a.quality = b.quality) (hsource : a.source = b.source)
    (hlanguages : a.languages = b.languages) (hflags : ∀ flag, flag ∈ a.flags ↔ flag ∈ b.flags)
    (hindexers : ∀ indexer, indexer ∈ a.indexers ↔ indexer ∈ b.indexers) :
    Alike toLowerCase a b := by
  intro dimension value
  cases dimension with
  | RESOLUTION => rw [readers, readers, hquality, htitle]
  | CODEC => rw [readers, readers, htitle]
  | TEAM => rw [readers, readers, htitle]
  | SOURCE => rw [readers, readers, hsource, htitle]
  | LANGUAGE => rw [readers, readers, hlanguages, htitle]
  | COST =>
    have hcost : value ∈ releaseCostOf toLowerCase a.flags ↔
        value ∈ releaseCostOf toLowerCase b.flags := by
      rw [mem_releaseCostOf, mem_releaseCostOf]
      simp only [hflags]
    rwa [readers, readers, Option.mem_toList, Option.mem_toList]
  | INDEXER => exact hindexers value

theorem largestOf_le_iff {copies : List Release} {n : ℕ} :
    largestOf copies ≤ n ↔ ∀ one ∈ copies, one.size.getD 0 ≤ n := by
  unfold largestOf
  induction copies with
  | nil => simp
  | cons one rest ih => simp [ih]

theorem largestSize_concat (copies : List Release) (one : Release) :
    largestSize (copies ++ [one]) =
      match one.size with
      | some size => if (largestSize copies).getD 0 < size then some size else largestSize copies
      | none => largestSize copies := by
  unfold largestSize
  rw [List.foldl_append]
  rfl

theorem largestSize_le_iff {copies : List Release} {n : ℕ} :
    (largestSize copies).getD 0 ≤ n ↔ ∀ one ∈ copies, one.size.getD 0 ≤ n := by
  induction copies using List.reverseRecOn with
  | nil => simp [largestSize]
  | append_singleton copies one ih =>
    rw [largestSize_concat]
    simp only [List.mem_append, List.mem_singleton, or_imp, forall_and, forall_eq, ← ih]
    cases hsize : one.size with
    | none => simp
    | some size =>
      simp only [Option.getD_some]
      split_ifs with hlarger
      · rw [Option.getD_some]
        omega
      · omega

theorem largestSize_getD {copies sorted : List Release} (h : sorted.Perm copies) :
    (largestSize sorted).getD 0 = largestOf copies := by
  refine eq_of_forall_ge_iff fun n => ?_
  rw [largestSize_le_iff, largestOf_le_iff]
  exact ⟨fun hall one hone => hall one (h.mem_iff.mpr hone),
    fun hall one hone => hall one (h.mem_iff.mp hone)⟩

theorem lawful_better : Lawful better := by
  have hsize := lawful_key_desc fun release : Release => ((release.size.getD 0 : ℕ) : ℤ)
  exact hsize.orElse_key_desc fun release => ((release.seeders.getD 0 : ℕ) : ℤ)

theorem compareByReleasePreference_swap (a b : PreferableRelease) :
    compareByReleasePreference toLowerCase preference b a
      = -compareByReleasePreference toLowerCase preference a b :=
  compareByRanks_swap ..

theorem lawful_compareByReleasePreference : Lawful fun a b : Release =>
    compareByReleasePreference toLowerCase preference a.preferable b.preferable :=
  (lawful_compareByRanks preference.ranks).comap Release.preferable

theorem taken_eq_iff {line : ReleaseGroup} {copies : List Release}
    (hcopies : line.releases = sort better copies) {copy : Release} :
    line.taken toLowerCase preference = copy ↔
      First (compareCopies toLowerCase preference) copies copy := by
  unfold compareCopies
  rw [← head?_sort_sort_iff lawful_compareByReleasePreference lawful_better
    fun a b => compareByReleasePreference_swap ..]
  have hhead : (sort (fun left right =>
      compareByReleasePreference toLowerCase preference left.preferable right.preferable)
        (sort better copies)).head? = some (line.taken toLowerCase preference) := by
    rw [← hcopies]
    exact List.head?_eq_some_head (line.prefer toLowerCase preference).releases_ne_nil
  rw [hhead, Option.some.injEq]

/-- What a line is, of the listings of its key. -/
structure Folded (copies : List Release) (line : ReleaseGroup) (seeded : Release) : Prop where
  first : First better copies seeded
  releases : line.releases = sort better copies
  title : line.title = seeded.title
  quality : line.quality = seeded.quality
  source : line.source = seeded.source
  languages : line.languages = seeded.languages
  flags : ∀ flag, flag ∈ line.flags ↔ ∃ copy ∈ copies, flag ∈ copy.flags
  held : line.heldAlready = copies.any (·.heldAlready)
  seeders : line.seeders.getD 0 = seedersOf copies
  size : line.size.getD 0 = largestOf copies

theorem spec_foldCopies {key : String} {copies : List Release} {line : ReleaseGroup}
    (h : foldCopies key copies = some line) : ∃ seeded, Folded copies line seeded := by
  have hperm := sort_perm better copies
  unfold foldCopies at h
  split at h
  · cases h
  · next first others hsort =>
    cases h
    rw [hsort] at hperm
    refine ⟨first, (head?_sort_iff lawful_better).mp (by rw [hsort, List.head?_cons]), hsort.symm,
      rfl, rfl, rfl, rfl, fun flag => ?_, ?_, ?_, largestSize_getD hperm⟩
    · simp only [lineOf, distinct, List.mem_eraseDups, List.mem_flatMap, hperm.mem_iff]
    · exact hperm.any_eq
    · have hsum : ((first :: others).map fun one => one.seeders.getD 0).sum = seedersOf copies :=
        (hperm.map _).sum_eq
      simp only [lineOf]
      split_ifs with hsome
      · rw [Option.getD_some, hsum]
      · -- no copy says how many seeders it has
        rw [Option.getD_none, ← hsum]
        refine (List.sum_eq_zero fun seeders hseeders => ?_).symm
        obtain ⟨one, hone, rfl⟩ := List.mem_map.mp hseeders
        have hnone : one.seeders = none := by
          by_contra hne
          exact hsome (List.any_eq_true.mpr ⟨one, hone, Option.isSome_iff_ne_none.mpr hne⟩)
        rw [hnone, Option.getD_none]

theorem exists_foldCopies {copies : List Release} (key : String) (h : copies ≠ []) :
    ∃ line, foldCopies key copies = some line := by
  unfold foldCopies
  split
  · next hnil =>
    have hperm := sort_perm better copies
    rw [hnil] at hperm
    exact absurd hperm.nil_eq.symm h
  · exact ⟨_, rfl⟩

theorem arrived_eq (releases : List Release) :
    arrived releases = (releases.map Release.keyOf).eraseDups.filterMap fun key =>
      foldCopies key (copiesOf releases key) := by
  have hentries : copiesByKey releases = (releases.map Release.keyOf).eraseDups.map fun key =>
      (key, copiesOf releases key) := by
    rw [← OrderedMap.keys_groupBy Release.keyOf (fun release copies => copies.getD [] ++ [release]),
      List.map_map]
    refine (List.map_id' _).symm.trans (List.map_congr_left fun entry hentry => ?_)
    exact Prod.ext rfl ((OrderedMap.mem_groupBy_append Release.keyOf).mp hentry).2
  unfold arrived
  rw [hentries, List.filterMap_map]
  rfl

theorem mem_arrived {line : ReleaseGroup} :
    line ∈ arrived releases ↔ ∃ key, foldCopies key (copiesOf releases key) = some line := by
  rw [arrived_eq, List.mem_filterMap]
  refine exists_congr fun key => and_iff_right_of_imp fun hline => ?_
  obtain ⟨seeded, hfolded⟩ := spec_foldCopies hline
  obtain ⟨hmem, hkey⟩ := List.mem_filter.mp hfolded.first.mem
  exact List.mem_eraseDups.mpr (List.mem_map.mpr ⟨seeded, hmem, of_decide_eq_true hkey⟩)

theorem Folded.alike {copies : List Release} {line : ReleaseGroup} {seeded : Release}
    (h : Folded copies line seeded) : Alike toLowerCase
      (line.prefer toLowerCase preference).preferable (shownAs seeded copies) := by
  refine alike_of_mem h.title h.quality h.source h.languages (fun flag => ?_) fun indexer => ?_
  · exact (h.flags flag).trans List.mem_flatMap.symm
  · have hperm : (line.prefer toLowerCase preference).releases.Perm copies := by
      refine (sort_perm _ _).trans ?_
      rw [h.releases]
      exact sort_perm _ _
    simp only [ReleaseGroup.preferable, shownAs]
    change indexer ∈ distinct ((line.prefer toLowerCase preference).releases.map (·.indexer)) ↔ _
    rw [distinct, List.mem_eraseDups, (hperm.map _).mem_iff]

theorem goesAhead_iff {copies others : List Release} {line later : ReleaseGroup}
    {seeded other : Release} (h : Folded copies line seeded) (hlater : Folded others later other)
    (hheld : line.heldAlready = later.heldAlready) :
    GoesAhead toLowerCase preference line later ↔
      Leads toLowerCase preference seeded copies other others := by
  have hranks : compareByReleasePreference toLowerCase preference
      (line.prefer toLowerCase preference).preferable
        (later.prefer toLowerCase preference).preferable =
      compareByReleasePreference toLowerCase preference (shownAs seeded copies)
        (shownAs other others) := h.alike.compare_eq hlater.alike
  have hlines : compareLines toLowerCase preference (line.prefer toLowerCase preference)
      (later.prefer toLowerCase preference) =
      compareByReleasePreference toLowerCase preference (shownAs seeded copies)
        (shownAs other others) := by
    rw [← hranks]
    unfold compareLines ReleaseGroup.prefer
    rw [hheld, sub_self]
    rfl
  have hgroups : compareGroups line later =
      orElse ((seedersOf others : ℤ) - seedersOf copies)
        ((largestOf others : ℤ) - largestOf copies) := by
    unfold compareGroups
    rw [hheld, sub_self, h.seeders, hlater.seeders, h.size, hlater.size]
    rfl
  rw [GoesAhead, hlines, hgroups]
  rfl

/-- The copy that is taken of a line is as good as that of another exactly when some copy is as good
as all of the other's. -/
theorem taken_le_iff {copies others : List Release} {line later : ReleaseGroup}
    (hline : line.releases = sort better copies) (hlater : later.releases = sort better others) :
    compareByReleasePreference toLowerCase preference
        (line.taken toLowerCase preference).preferable
        (later.taken toLowerCase preference).preferable ≤ 0 ↔
      Matches toLowerCase preference copies others := by
  have hlawful : Lawful fun a b : Release =>
      compareByReleasePreference toLowerCase preference a.preferable b.preferable :=
    lawful_compareByReleasePreference
  -- nothing is better than what is taken
  have hbest : ∀ {line : ReleaseGroup} {copies : List Release},
      line.releases = sort better copies →
        line.taken toLowerCase preference ∈ copies ∧ ∀ copy ∈ copies,
          compareByReleasePreference toLowerCase preference
            (line.taken toLowerCase preference).preferable copy.preferable ≤ 0 := by
    intro line copies hcopies
    have hfirst : First (compareCopies toLowerCase preference) copies
        (line.taken toLowerCase preference) := (taken_eq_iff hcopies).mp rfl
    have hboth := hlawful.orElse lawful_better fun a b => compareByReleasePreference_swap ..
    refine ⟨hfirst.mem, fun copy hcopy => ?_⟩
    have hle := hfirst.le hboth copy hcopy
    rw [orElse_le_iff] at hle
    omega
  obtain ⟨hmem, hle⟩ := hbest hline
  obtain ⟨hother, hleOther⟩ := hbest hlater
  constructor
  · exact fun h => ⟨_, hmem, fun other hin => hlawful.trans _ _ other h (hleOther other hin)⟩
  · rintro ⟨copy, hcopy, hall⟩
    exact hlawful.trans _ copy _ (hle copy hcopy) (hall _ hother)

theorem linesAgree_iff :
    LinesAgree toLowerCase preference releases ↔ LeavesAsShown toLowerCase preference releases := by
  -- A line is seeded by the first of its copies, and takes the best of them.
  have hnamed : (∀ line ∈ arrived releases,
        line.title = (line.taken toLowerCase preference).title) ↔
      ∀ key seeded taken, First better (copiesOf releases key) seeded →
        First (compareCopies toLowerCase preference) (copiesOf releases key) taken →
          seeded.title = taken.title := by
    constructor
    · intro h key seeded taken hseeded htaken
      obtain ⟨line, hline⟩ := exists_foldCopies key (List.ne_nil_of_mem hseeded.mem)
      obtain ⟨first, hfolded⟩ := spec_foldCopies hline
      have hsame : first = seeded := hfolded.first.unique lawful_better hseeded
      rw [← hsame, ← hfolded.title, ← (taken_eq_iff hfolded.releases).mpr htaken]
      exact h line (mem_arrived.mpr ⟨key, hline⟩)
    · intro h line hline
      obtain ⟨key, hfold⟩ := mem_arrived.mp hline
      obtain ⟨seeded, hfolded⟩ := spec_foldCopies hfold
      rw [hfolded.title]
      exact h key seeded _ hfolded.first ((taken_eq_iff hfolded.releases).mp rfl)
  -- The lines come in the order of their keys, and each pair is compared as its copies are.
  have hpairs : (arrived releases).Pairwise (fun line later =>
      line.heldAlready = later.heldAlready →
        if GoesAhead toLowerCase preference line later then
          compareByReleasePreference toLowerCase preference
            (line.taken toLowerCase preference).preferable
            (later.taken toLowerCase preference).preferable ≤ 0
        else
          compareByReleasePreference toLowerCase preference
            (later.taken toLowerCase preference).preferable
            (line.taken toLowerCase preference).preferable ≤ 0) ↔
      (releases.map Release.keyOf).eraseDups.Pairwise fun key later =>
        ((copiesOf releases key).any (·.heldAlready) =
          (copiesOf releases later).any (·.heldAlready)) →
        ∀ seeded other, First better (copiesOf releases key) seeded →
          First better (copiesOf releases later) other →
            if Leads toLowerCase preference seeded (copiesOf releases key) other
                (copiesOf releases later) then
              Matches toLowerCase preference (copiesOf releases key) (copiesOf releases later)
            else Matches toLowerCase preference (copiesOf releases later)
              (copiesOf releases key) := by
    rw [arrived_eq, List.pairwise_filterMap]
    refine List.Pairwise.iff fun key later => ?_
    constructor
    · intro h hheld seeded other hseeded hother
      obtain ⟨line, hline⟩ := exists_foldCopies key (List.ne_nil_of_mem hseeded.mem)
      obtain ⟨next, hnext⟩ := exists_foldCopies later (List.ne_nil_of_mem hother.mem)
      obtain ⟨first, hfolded⟩ := spec_foldCopies hline
      obtain ⟨last, hlast⟩ := spec_foldCopies hnext
      obtain rfl : first = seeded := hfolded.first.unique lawful_better hseeded
      obtain rfl : last = other := hlast.first.unique lawful_better hother
      have hsame : line.heldAlready = next.heldAlready := by rw [hfolded.held, hlast.held, hheld]
      have hpair := h line hline next hnext hsame
      simp only [goesAhead_iff hfolded hlast hsame, taken_le_iff hfolded.releases hlast.releases,
        taken_le_iff hlast.releases hfolded.releases] at hpair
      exact hpair
    · intro h line hline next hnext hsame
      obtain ⟨first, hfolded⟩ := spec_foldCopies hline
      obtain ⟨last, hlast⟩ := spec_foldCopies hnext
      simp only [goesAhead_iff hfolded hlast hsame, taken_le_iff hfolded.releases hlast.releases,
        taken_le_iff hlast.releases hfolded.releases]
      exact h (by rw [← hfolded.held, ← hlast.held, hsame]) first last hfolded.first hlast.first
  exact ⟨fun h => ⟨hnamed.mp h.named, hpairs.mp h.inOrder⟩,
    fun h => ⟨hnamed.mpr h.named, hpairs.mpr h.inOrder⟩⟩

end

def listing (title indexer : String) (seeders : ℕ) (flags : List String) : Release where
  id := indexer
  title := title
  indexer := indexer
  size := some 2000000000
  seeders := some seeders
  kind := .MOVIE
  seasonNumber := none
  episodeNumber := none
  quality := some "1080p"
  source := some "WEB-DL"
  languages := []
  coverage := ⟨⟨none, [], false⟩, false⟩
  heldAlready := false
  offTarget := false
  flags := flags

def wellSeeded : Release := listing "Dune.2021.1080p.WEB-DL.x265-GRP" "One" 9 []

def freeListing : Release := listing "Dune 2021 1080p WEB-DL x265-GRP" "Two" 3 ["freeleech"]

def freeFirst : ReleasePreference := ⟨[⟨.COST, ["free"]⟩]⟩

theorem copiesByKey_listings :
    copiesByKey [wellSeeded, freeListing] = [(wellSeeded.keyOf, [wellSeeded, freeListing])] := by
  have hcodec : releaseCodecOf freeListing.title = releaseCodecOf wellSeeded.title := by
    decide +kernel
  have hteam : releaseTeamOf freeListing.title = releaseTeamOf wellSeeded.title := by
    decide +kernel
  have hkey : freeListing.keyOf = wellSeeded.keyOf := by
    unfold Release.keyOf
    rw [hcodec, hteam]
    rfl
  simp [copiesByKey, OrderedMap.groupBy, OrderedMap.modify, hkey]

end MediaCenterSync.Releases
