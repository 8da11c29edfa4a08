import MediaCenterSync.Planning.Space

/-!
# When a run that is not refused fits

Room belongs to filesystems, and `targets` adds up by library.  A run that is refused exactly when
it does not fit (`refuses_iff_not_fits`), whatever the files weigh and whatever room there is, is
one in which the two divisions are the same (`Matched`): every file is on the filesystem its
library is asked for, and no two libraries are on one.
-/

namespace MediaCenterSync.Planning

open OrderedMap (groupBy)
open Placement (Disk PlacementLibrary)
open TransferManager (Dir)

/-! ### Filesystems -/

/-- What exists, and the filesystem every path lies on. -/
structure Mounts (F : Type*) where
  existsAt : Dir → Bool
  writable : Dir → Bool
  filesystem : Dir → F
  /-- What is yet to be made will be on the filesystem of the directory it is made in. -/
  inherits : ∀ dir, existsAt dir = false → filesystem dir = filesystem dir.dropLast

namespace Mounts

variable {F : Type*} (mounts : Mounts F) (free : F → ℕ)

/-- The disks, when every filesystem has so many bytes left. -/
def disk : Disk where
  existsAt := mounts.existsAt
  writable := mounts.writable
  freeBytes := fun dir => some (free (mounts.filesystem dir))

/-- One of the directories that are asked for exists. -/
def InReach (path : Dir) : Prop :=
  ∃ dir ∈ path.inits.reverse.take NEAREST_DEPTH, mounts.existsAt dir

instance (path : Dir) : Decidable (mounts.InReach path) :=
  inferInstanceAs (Decidable (∃ dir ∈ _, mounts.existsAt dir = true))

theorem reverse_inits_concat (path : Dir) (part : String) :
    (path ++ [part]).inits.reverse = (path ++ [part]) :: path.inits.reverse := by
  simp [List.inits_append]

theorem filesystem_of_find {path dir : Dir} {depth : ℕ}
    (h : (path.inits.reverse.take depth).find? mounts.existsAt = some dir) :
    mounts.filesystem dir = mounts.filesystem path := by
  induction path using List.reverseRecOn generalizing depth with
  | nil =>
    have hdir : dir ∈ ([[]] : List Dir) := List.mem_of_mem_take (List.mem_of_find?_eq_some h)
    rw [List.mem_singleton.mp hdir]
  | append_singleton path part ih =>
    rw [reverse_inits_concat] at h
    cases depth with
    | zero => simp at h
    | succ depth =>
      rw [List.take_succ_cons, List.find?_cons] at h
      cases hpart : mounts.existsAt (path ++ [part]) with
      | true =>
        rw [hpart] at h
        rw [Option.some.inj h]
      | false =>
        rw [hpart] at h
        rw [ih h, mounts.inherits _ hpart, List.dropLast_concat]

/-- What is reported of a path is the room on its filesystem, as long as some directory answers. -/
theorem probeFreeBytes_nearestExisting (path : Dir) :
    probeFreeBytes (mounts.disk free) (nearestExisting (mounts.disk free) path)
      = if mounts.InReach path then some (free (mounts.filesystem path)) else none := by
  unfold probeFreeBytes nearestExisting
  cases hfound : (path.inits.reverse.take NEAREST_DEPTH).find? (mounts.disk free).existsAt with
  | some dir =>
    have hexists : mounts.existsAt dir = true := List.find?_some hfound
    have hreach : mounts.InReach path := ⟨dir, List.mem_of_find?_eq_some hfound, hexists⟩
    rw [Option.getD_some, if_pos (show (mounts.disk free).existsAt dir = true from hexists),
      if_pos hreach]
    exact congrArg (some ∘ free) (mounts.filesystem_of_find hfound)
  | none =>
    have hnone := List.find?_eq_none.mp hfound
    have hreach : ¬ mounts.InReach path := fun ⟨dir, hdir, hexists⟩ => hnone dir hdir hexists
    have hpath : path ∈ path.inits.reverse.take NEAREST_DEPTH := by
      rcases List.eq_nil_or_concat path with rfl | ⟨above, part, rfl⟩
      · exact List.mem_cons_self
      · rw [List.concat_eq_append, reverse_inits_concat]
        exact List.mem_cons_self
    rw [Option.getD_none, if_neg (hnone path hpath), if_neg hreach]

end Mounts

/-! ### What a library is asked for -/

def PlannedItem.place (item : PlannedItem) : String × Dir := (item.targetLibraryId, item.targetPath)

/-- The directory that answers for a library: its own, or the one its last file lands in. -/
def judgedBy (libraries : List PlacementLibrary) (layout : List (String × Dir))
    (libraryId : String) : Option Dir :=
  (layout.filter (·.1 = libraryId)).getLast?.map fun place =>
    destinationOf libraries place.1 place.2

def bytesInto (items : List PlannedItem) (libraryId : String) : ℕ :=
  ((items.filter (·.targetLibraryId = libraryId)).map (·.bytes)).sum

theorem foldl_addToGroup (libraries : List PlacementLibrary) (items : List PlannedItem) :
    items.foldl (fun group item => some (addToGroup libraries item group)) none =
      items.getLast?.map fun item =>
        { addToGroup libraries item none with bytes := (items.map (·.bytes)).sum } := by
  induction items using List.reverseRecOn with
  | nil => rfl
  | append_singleton items item ih =>
    rw [List.foldl_append, ih, List.getLast?_concat]
    cases hlast : items.getLast? with
    | none =>
      obtain rfl := List.getLast?_eq_none_iff.mp hlast
      simp [addToGroup]
    | some last => simp [addToGroup]

theorem judgedBy_place (libraries : List PlacementLibrary) (items : List PlannedItem)
    (libraryId : String) :
    judgedBy libraries (items.map PlannedItem.place) libraryId =
      (items.filter (·.targetLibraryId = libraryId)).getLast?.map fun item =>
        destinationOf libraries item.targetLibraryId item.targetPath := by
  rw [judgedBy, List.filter_map, List.getLast?_map, Option.map_map]
  rfl

theorem verdict_eq_insufficient {freeBytes : Option ℕ} {requiredBytes reserveBytes : ℕ} :
    spaceVerdict freeBytes requiredBytes reserveBytes = .INSUFFICIENT ↔
      ∃ free, freeBytes = some free ∧ free < requiredBytes := by
  unfold spaceVerdict
  cases freeBytes with
  | none => split_ifs <;> simp
  | some free =>
    simp only [Option.some.injEq, exists_eq_left']
    split_ifs <;> simp <;> omega

section

variable {F : Type*} (mounts : Mounts F) (libraries all : List PlacementLibrary) (reserveBytes : ℕ)

/-- A run is refused when what goes into a library is more than the directory that answers for it
has left. -/
theorem refusesRun_iff (free : F → ℕ) (items : List PlannedItem) :
    refusesRun (targets (mounts.disk free) libraries all reserveBytes items) ↔
      ∃ libraryId dir, judgedBy libraries (items.map PlannedItem.place) libraryId = some dir ∧
        mounts.InReach dir ∧ free (mounts.filesystem dir) < bytesInto items libraryId := by
  have hverdict : ∀ path requiredBytes, spaceVerdict (probeFreeBytes (mounts.disk free)
      (nearestExisting (mounts.disk free) path)) requiredBytes reserveBytes = .INSUFFICIENT ↔
        mounts.InReach path ∧ free (mounts.filesystem path) < requiredBytes := by
    intro path requiredBytes
    rw [verdict_eq_insufficient, mounts.probeFreeBytes_nearestExisting]
    by_cases hreach : mounts.InReach path <;> simp [hreach]
  have hrefuses : refusesRun (targets (mounts.disk free) libraries all reserveBytes items) ↔
      ∃ libraryId group, (libraryId, group) ∈ grouped libraries items ∧
        mounts.InReach group.path ∧ free (mounts.filesystem group.path) < group.bytes := by
    unfold refusesRun targets
    rw [List.any_map, List.any_eq_true]
    constructor
    · rintro ⟨⟨libraryId, group⟩, hgroup, hinsufficient⟩
      exact ⟨libraryId, group, hgroup, (hverdict _ _).mp (of_decide_eq_true hinsufficient)⟩
    · rintro ⟨libraryId, group, hgroup, hshort⟩
      exact ⟨⟨libraryId, group⟩, hgroup, decide_eq_true ((hverdict _ _).mpr hshort)⟩
  rw [hrefuses]
  refine exists_congr fun libraryId => ?_
  rw [judgedBy_place]
  unfold grouped
  simp only [OrderedMap.mem_groupBy, foldl_addToGroup, Option.map_eq_some_iff]
  constructor
  · rintro ⟨_, ⟨last, hlast, rfl⟩, hreach, hshort⟩
    exact ⟨_, ⟨last, hlast, rfl⟩, hreach, hshort⟩
  · rintro ⟨_, ⟨last, hlast, rfl⟩, hreach, hshort⟩
    exact ⟨_, ⟨last, hlast, rfl⟩, hreach, hshort⟩

end

/-! ### What a filesystem holds -/

section

variable {F : Type*} [DecidableEq F] (mounts : Mounts F) (free : F → ℕ)

def bytesOn (items : List PlannedItem) (filesystem : F) : ℕ :=
  ((items.filter fun item => mounts.filesystem item.targetPath = filesystem).map (·.bytes)).sum

/-- Every filesystem has room for what is written onto it. -/
def Fits (items : List PlannedItem) : Prop :=
  ∀ filesystem, bytesOn mounts items filesystem ≤ free filesystem

variable (libraries : List PlacementLibrary) (layout : List (String × Dir))

/-- Libraries and filesystems divide the files alike. -/
structure Matched : Prop where
  /-- The directory a library is asked for answers, and lies where its files do. -/
  judged : ∀ place ∈ layout, ∀ dir, judgedBy libraries layout place.1 = some dir →
    mounts.InReach dir ∧ mounts.filesystem dir = mounts.filesystem place.2
  /-- What is on one filesystem goes into one library. -/
  apart : ∀ place ∈ layout, ∀ other ∈ layout,
    mounts.filesystem place.2 = mounts.filesystem other.2 → place.1 = other.1

theorem exists_judgedBy {place : String × Dir} (h : place ∈ layout) :
    ∃ dir, judgedBy libraries layout place.1 = some dir := by
  have hin : place ∈ layout.filter (·.1 = place.1) := List.mem_filter.mpr ⟨h, by simp⟩
  exact ⟨_, congrArg _ (List.getLast?_eq_some_getLast (List.ne_nil_of_mem hin))⟩

theorem exists_of_judgedBy {libraryId : String} {dir : Dir}
    (h : judgedBy libraries layout libraryId = some dir) :
    ∃ place ∈ layout, place.1 = libraryId := by
  obtain ⟨place, hlast, -⟩ := Option.map_eq_some_iff.mp h
  obtain ⟨hin, hid⟩ := List.mem_filter.mp (List.mem_of_getLast? hlast)
  exact ⟨place, hin, of_decide_eq_true hid⟩

variable {mounts free libraries layout}

/-- Where the two divisions are the same, so are their sums. -/
theorem bytesOn_eq_bytesInto {items : List PlannedItem}
    (h : Matched mounts libraries (items.map PlannedItem.place)) {item : PlannedItem}
    (hitem : item ∈ items) :
    bytesOn mounts items (mounts.filesystem item.targetPath)
      = bytesInto items item.targetLibraryId := by
  have hfilter : ∀ other ∈ items,
      (mounts.filesystem other.targetPath = mounts.filesystem item.targetPath ↔
        other.targetLibraryId = item.targetLibraryId) := by
    intro other hother
    have hplace := List.mem_map_of_mem (f := PlannedItem.place) hitem
    have hplace' := List.mem_map_of_mem (f := PlannedItem.place) hother
    refine ⟨h.apart _ hplace' _ hplace, fun hid => ?_⟩
    obtain ⟨dir, hdir⟩ := exists_judgedBy libraries _ hplace
    have hdir' : judgedBy libraries (items.map PlannedItem.place) other.place.1 = some dir := by
      rw [show other.place.1 = item.place.1 from hid]
      exact hdir
    exact (h.judged _ hplace' dir hdir').2.symm.trans (h.judged _ hplace dir hdir).2
  unfold bytesOn bytesInto
  congr 2
  exact List.filter_congr fun other hother => decide_eq_decide.mpr (hfilter other hother)

theorem Matched.refuses_iff {items : List PlannedItem}
    (h : Matched mounts libraries (items.map PlannedItem.place)) (all : List PlacementLibrary)
    (reserveBytes : ℕ) :
    refusesRun (targets (mounts.disk free) libraries all reserveBytes items) ↔
      ¬ Fits mounts free items := by
  rw [refusesRun_iff]
  constructor
  · rintro ⟨libraryId, dir, hjudged, -, hshort⟩ hfits
    obtain ⟨place, hplace, rfl⟩ := exists_of_judgedBy _ _ hjudged
    obtain ⟨item, hitem, rfl⟩ := List.mem_map.mp hplace
    have hsame := (h.judged _ hplace dir hjudged).2
    have hsum : bytesOn mounts items (mounts.filesystem dir) = bytesInto items item.place.1 :=
      hsame ▸ bytesOn_eq_bytesInto h hitem
    have hroom := hfits (mounts.filesystem dir)
    omega
  · intro hfits
    unfold Fits at hfits
    push Not at hfits
    obtain ⟨filesystem, hshort⟩ := hfits
    have hsome :
        items.filter (fun item => mounts.filesystem item.targetPath = filesystem) ≠ [] := by
      intro hnil
      simp [bytesOn, hnil] at hshort
    obtain ⟨item, hin⟩ := List.exists_mem_of_ne_nil _ hsome
    obtain ⟨hitem, hon⟩ := List.mem_filter.mp hin
    obtain rfl := of_decide_eq_true hon
    have hplace := List.mem_map_of_mem (f := PlannedItem.place) hitem
    obtain ⟨dir, hjudged⟩ := exists_judgedBy libraries _ hplace
    obtain ⟨hreach, hsame⟩ := h.judged _ hplace dir hjudged
    refine ⟨item.targetLibraryId, dir, hjudged, hreach, ?_⟩
    have hsame' : mounts.filesystem dir = mounts.filesystem item.targetPath := hsame
    rw [hsame', ← bytesOn_eq_bytesInto h hitem]
    exact hshort

end

/-! ### Files of chosen sizes -/

section

variable {F : Type*} [DecidableEq F] (mounts : Mounts F) (layout : List (String × Dir))
  (size : String × Dir → ℕ)

def sized : List PlannedItem :=
  layout.map fun place =>
    { itemId := ""
      localItemId := none
      title := ""
      kind := .MOVIE
      sourceServiceId := ""
      sourceServiceName := ""
      targetLibraryId := place.1
      targetLibraryName := ""
      targetPath := place.2
      placedBy := .ANY_WRITABLE
      lot := ""
      bytes := size place
      contentId := none
      state := .MISSING }

theorem place_sized : (sized layout size).map PlannedItem.place = layout := by
  unfold sized
  rw [List.map_map]
  exact List.map_id layout

theorem bytesInto_sized (libraryId : String) :
    bytesInto (sized layout size) libraryId =
      ((layout.filter (·.1 = libraryId)).map size).sum := by
  unfold bytesInto sized
  rw [List.filter_map, List.map_map]
  rfl

theorem bytesOn_sized (filesystem : F) :
    bytesOn mounts (sized layout size) filesystem =
      ((layout.filter (mounts.filesystem ·.2 = filesystem)).map size).sum := by
  unfold bytesOn sized
  rw [List.filter_map, List.map_map]
  rfl

/-- A byte for each file at one place. -/
def oneAt (place : String × Dir) : String × Dir → ℕ := fun other => if other = place then 1 else 0

theorem sum_map_oneAt (places : List (String × Dir)) (place : String × Dir) :
    (places.map (oneAt place)).sum = places.count place := by
  induction places with
  | nil => rfl
  | cons other rest ih =>
    rw [List.map_cons, List.sum_cons, ih, List.count_cons]
    unfold oneAt
    by_cases hother : other = place <;> simp [hother, Nat.add_comm]

theorem sum_filter_oneAt (p : String × Dir → Bool) (place : String × Dir) :
    ((layout.filter p).map (oneAt place)).sum = if p place then layout.count place else 0 := by
  rw [sum_map_oneAt]
  split_ifs with hp
  · exact List.count_filter hp
  · exact List.count_eq_zero.mpr fun hin => hp (List.of_mem_filter hin)

variable {mounts layout} {libraries all : List PlacementLibrary} {reserveBytes : ℕ}

theorem apart_of_refuses_iff
    (h : ∀ size (free : F → ℕ), refusesRun (targets (mounts.disk free) libraries all reserveBytes
      (sized layout size)) ↔ ¬ Fits mounts free (sized layout size))
    {place other : String × Dir} (hplace : place ∈ layout) (hother : other ∈ layout)
    (hsame : mounts.filesystem place.2 = mounts.filesystem other.2) : place.1 = other.1 := by
  by_contra hne
  have hcount := List.count_pos_iff.mpr hplace
  have hcount' := List.count_pos_iff.mpr hother
  let size := fun q => oneAt place q + oneAt other q
  let room := max (layout.count place) (layout.count other)
  have hover : ¬ Fits mounts (fun _ => room) (sized layout size) := by
    intro hfits
    have hroom := hfits (mounts.filesystem place.2)
    rw [bytesOn_sized, List.sum_map_add, sum_filter_oneAt, sum_filter_oneAt] at hroom
    simp only [hsame, decide_true, if_true] at hroom
    omega
  obtain ⟨libraryId, dir, -, -, hshort⟩ :=
    (refusesRun_iff mounts libraries all reserveBytes _ _).mp ((h size fun _ => room).mpr hover)
  rw [bytesInto_sized, List.sum_map_add, sum_filter_oneAt, sum_filter_oneAt] at hshort
  have hboth : ¬ (place.1 = libraryId ∧ other.1 = libraryId) := fun ⟨h, h'⟩ => hne (h.trans h'.symm)
  by_cases hid : place.1 = libraryId <;> by_cases hid' : other.1 = libraryId <;>
    simp [hid, hid', room] at hshort hboth

/-- A library whose files lie elsewhere than where it is asked is refused too soon or not at all. -/
theorem judged_of_refuses_iff
    (h : ∀ size (free : F → ℕ), refusesRun (targets (mounts.disk free) libraries all reserveBytes
      (sized layout size)) ↔ ¬ Fits mounts free (sized layout size))
    {place : String × Dir} (hplace : place ∈ layout) {dir : Dir}
    (hjudged : judgedBy libraries layout place.1 = some dir) :
    mounts.InReach dir ∧ mounts.filesystem dir = mounts.filesystem place.2 := by
  have hcount := List.count_pos_iff.mpr hplace
  have hreach : mounts.InReach dir := by
    have hover : ¬ Fits mounts (fun _ => 0) (sized layout (oneAt place)) := by
      intro hfits
      have hroom := hfits (mounts.filesystem place.2)
      rw [bytesOn_sized, sum_filter_oneAt] at hroom
      simp only [decide_true, if_true] at hroom
      omega
    obtain ⟨libraryId, dir', hjudged', hreach, hshort⟩ :=
      (refusesRun_iff mounts libraries all reserveBytes _ _).mp ((h _ _).mpr hover)
    rw [bytesInto_sized, sum_filter_oneAt] at hshort
    have hid : place.1 = libraryId := by
      by_contra hne
      simp [hne] at hshort
    rw [place_sized, ← hid, hjudged] at hjudged'
    rwa [Option.some.inj hjudged']
  refine ⟨hreach, ?_⟩
  by_contra hne
  let free := fun filesystem => if filesystem = mounts.filesystem dir then 0 else layout.length
  have hfits : Fits mounts free (sized layout (oneAt place)) := by
    intro filesystem
    rw [bytesOn_sized, sum_filter_oneAt]
    by_cases hon : mounts.filesystem place.2 = filesystem
    · have hroom : free filesystem = layout.length := if_neg (hon ▸ Ne.symm hne)
      rw [hroom]
      split_ifs
      · exact List.count_le_length
      · exact Nat.zero_le _
    · simp [hon]
  refine (h _ _).mp ((refusesRun_iff mounts libraries all reserveBytes _ _).mpr
    ⟨place.1, dir, ?_, hreach, ?_⟩) hfits
  · rw [place_sized, hjudged]
  · rw [bytesInto_sized, sum_filter_oneAt]
    simpa [free] using hplace

end

/-! ### Exactly when -/

section

variable {F : Type*} [DecidableEq F] (mounts : Mounts F) (libraries all : List PlacementLibrary)
  (reserveBytes : ℕ) (layout : List (String × Dir))

/-- **A run that is not refused fits on its disks, and one that fits is not refused**, whatever its
files weigh and whatever room there is, exactly when libraries and filesystems divide its files
alike. -/
theorem refuses_iff_not_fits :
    (∀ (items : List PlannedItem) (free : F → ℕ) (acknowledged : Bool),
      items.map PlannedItem.place = layout →
        ((refuseOnSpace (targets (mounts.disk free) libraries all reserveBytes items)
            acknowledged).map (·.key) = some .SYNC_NOT_ENOUGH_SPACE ↔
          ¬ Fits mounts free items)) ↔
      Matched mounts libraries layout := by
  have hrefuse : ∀ found acknowledged, (refuseOnSpace found acknowledged).map (·.key)
      = some .SYNC_NOT_ENOUGH_SPACE ↔ refusesRun found := by
    intro found acknowledged
    unfold refuseOnSpace
    split_ifs <;> simp_all
  simp only [hrefuse]
  constructor
  · intro h
    have hsized : ∀ size (free : F → ℕ), refusesRun (targets (mounts.disk free) libraries all
        reserveBytes (sized layout size)) ↔ ¬ Fits mounts free (sized layout size) :=
      fun size free => h _ free true (place_sized layout size)
    exact ⟨fun place hplace dir => judged_of_refuses_iff hsized hplace,
      fun place hplace other hother => apart_of_refuses_iff hsized hplace hother⟩
  · rintro h items free - rfl
    exact h.refuses_iff all reserveBytes

end

/-- One disk, with the two libraries of the gateway on it. -/
def oneDisk : Mounts Unit where
  existsAt := fun dir => dir.length ≤ 2
  writable := fun _ => true
  filesystem := fun _ => ()
  inherits := fun _ _ => rfl

def libraryAt (id name : String) (kind : Placement.LibraryKind) : PlacementLibrary where
  id := id
  name := name
  kind := kind
  localPath := some ["mnt", name]
  localRoots := [["mnt", name]]
  writable := true
  isDefaultTarget := false
  categoryKey := none

def filmAndEpisode : List PlannedItem :=
  [{ itemId := "film"
     localItemId := none
     title := "Alien"
     kind := .MOVIE
     sourceServiceId := "friend"
     sourceServiceName := "Friend"
     targetLibraryId := "films"
     targetLibraryName := "Films"
     targetPath := ["mnt", "Films", "Alien (1979)", "Alien.mkv"]
     placedBy := .ANY_WRITABLE
     lot := "film"
     bytes := 200 * 1024 * 1024
     contentId := none
     state := .MISSING },
    { itemId := "episode"
      localItemId := none
      title := "From — S04E01 — Arrival"
      kind := .EPISODE
      sourceServiceId := "friend"
      sourceServiceName := "Friend"
      targetLibraryId := "shows"
      targetLibraryName := "Shows"
      targetPath := ["mnt", "Shows", "From (2022)", "Season 04", "From.S04E01.mkv"]
      placedBy := .ANY_WRITABLE
      lot := "from"
      bytes := 200 * 1024 * 1024
      contentId := none
      state := .MISSING }]

/-- A disk with 300 MiB left is let have both. -/
theorem refuses_iff_not_fits_oneDisk :
    ¬ Fits oneDisk (fun _ => 300 * 1024 * 1024) filmAndEpisode ∧
      refuseOnSpace (targets (oneDisk.disk fun _ => 300 * 1024 * 1024)
        [libraryAt "films" "Films" .MOVIES, libraryAt "shows" "Shows" .SHOWS] [] (1024 * 1024)
        filmAndEpisode) false = none :=
  ⟨fun h => absurd (h ()) (by decide), by decide⟩

end MediaCenterSync.Planning
