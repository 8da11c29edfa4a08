import MediaCenterSync.Naming.Correct.Service
import MediaCenterSync.Planning.Correct.Lots

/-!
# When a pinned folder is the folder

A person pins a folder on a row, and the files below it are to go there: into the folder itself, or
into one folder in it for their season (`Honours`).  A plan takes the pin for a root like any other,
and builds below it whatever the naming builds below a root: the folders of a sibling, or those of a
template.  The pin is honoured exactly when these come to nothing, or to the one folder of the
season (`Spells`): `honoursPins_iff`.
-/

namespace MediaCenterSync.Planning

open Naming (NameableItem imitatedDirectory sanitise seasonFolderNumber templateDirectory)
open Placement (chosen folders inRoot occupied probe tried)
open TransferManager (Dir)

/-! ### Below a root -/

/-- A folder for one season: one that names it, or what it is called where nothing is imitated. -/
def NamesSeason (segment : String) (season : ℤ) : Prop :=
  (seasonFolderNumber segment).map ((↑) : ℕ → ℤ) = some season ∨
    segment = sanitise ("Season " ++ Naming.pad season)

/-- What belongs below a pinned folder: nothing, or one folder for the season where there is one and
the folder itself names none. -/
def Builds (pinned : Dir) (season : Option ℤ) (below : List String) : Prop :=
  match season with
  | none => below = []
  | some number =>
    if (seasonFolderNumber (pinned.getLastD "")).isSome then below = []
    else ∃ segment, NamesSeason segment number ∧ below = [segment]

/-- A file in this directory is where the pinned folder says. -/
def Honours (pinned : Dir) (season : Option ℤ) (directory : Dir) : Prop :=
  ∃ below, directory = pinned ++ below ∧ Builds pinned season below

instance (segment : String) (season : ℤ) : Decidable (NamesSeason segment season) :=
  inferInstanceAs (Decidable (_ ∨ _))

theorem exists_namesSeason_iff (number : ℤ) (below : List String) :
    (∃ segment ∈ below, NamesSeason segment number ∧ below = [segment]) ↔
      ∃ segment, NamesSeason segment number ∧ below = [segment] := by
  constructor
  · rintro ⟨segment, -, h⟩
    exact ⟨segment, h⟩
  · rintro ⟨segment, hnames, rfl⟩
    exact ⟨segment, List.mem_singleton_self _, hnames, rfl⟩

instance (pinned : Dir) (season : Option ℤ) (below : List String) :
    Decidable (Builds pinned season below) :=
  match season with
  | none => inferInstanceAs (Decidable (below = []))
  | some number =>
    have := decidable_of_iff _ (exists_namesSeason_iff number below)
    inferInstanceAs (Decidable (if (seasonFolderNumber (pinned.getLastD "")).isSome then below = []
      else ∃ segment, NamesSeason segment number ∧ below = [segment]))

theorem honours_append {pinned : Dir} {season : Option ℤ} {below : List String} :
    Honours pinned season (pinned ++ below) ↔ Builds pinned season below := by
  constructor
  · rintro ⟨other, hother, hbuilds⟩
    exact List.append_cancel_left hother ▸ hbuilds
  · exact fun h => ⟨below, rfl, h⟩

theorem Builds.few {pinned : Dir} {season : Option ℤ} {below : List String}
    (h : Builds pinned season below) : below.length ≤ 1 := by
  unfold Builds at h
  cases season with
  | none => simp [h]
  | some number =>
    dsimp only at h
    split_ifs at h
    · simp [h]
    · obtain ⟨segment, -, rfl⟩ := h
      exact le_rfl

theorem not_builds_pair {pinned : Dir} {season : Option ℤ} {a b : String} :
    ¬ Builds pinned season [a, b] :=
  fun h => absurd h.few (by simp)

/-- Folders lead from a root to a pinned folder and to what belongs there, or on from below it. -/
def Reaches (pinned root : Dir) (season : Option ℤ) (built : List String) : Prop :=
  ∃ below, Builds pinned season below ∧
    ((∃ rest, pinned = root ++ rest ∧ built = rest ++ below) ∨
      ∃ rest, root = pinned ++ rest ∧ below = rest ++ built)

theorem Builds.reaches {pinned : Dir} {season : Option ℤ} {built : List String}
    (h : Builds pinned season built) : Reaches pinned pinned season built :=
  ⟨built, h, .inl ⟨[], (List.append_nil pinned).symm, rfl⟩⟩

theorem honours_append_iff {pinned root : Dir} {season : Option ℤ} {built : List String} :
    Honours pinned season (root ++ built) ↔ Reaches pinned root season built := by
  unfold Honours Reaches
  simp only [List.append_eq_append_iff]
  exact exists_congr fun below => and_comm

theorem reaches_nil_iff {pinned root : Dir} {season : Option ℤ} :
    Reaches pinned root season [] ↔ ∃ rest, root = pinned ++ rest ∧ Builds pinned season rest := by
  constructor
  · rintro ⟨below, hbuilds, ⟨rest, hpinned, hbelow⟩ | ⟨rest, hroot, hbelow⟩⟩
    · obtain ⟨rfl, rfl⟩ := List.nil_eq_append_iff.mp hbelow
      exact ⟨[], by simpa using hpinned.symm, hbuilds⟩
    · rw [List.append_nil] at hbelow
      exact ⟨rest, hroot, hbelow ▸ hbuilds⟩
  · rintro ⟨rest, hroot, hbuilds⟩
    exact ⟨rest, hbuilds, .inr ⟨rest, hroot, (List.append_nil rest).symm⟩⟩

theorem reaches_singleton_iff {pinned root : Dir} {season : Option ℤ} {film : String} :
    Reaches pinned root season [film] ↔
      pinned = root ∧ Builds pinned season [film] ∨
        pinned = root ++ [film] ∧ Builds pinned season [] := by
  constructor
  · rintro ⟨below, hbuilds, ⟨rest, hpinned, hbelow⟩ | ⟨rest, hroot, rfl⟩⟩
    · cases rest with
      | nil =>
        obtain rfl : [film] = below := hbelow
        exact .inl ⟨by simpa using hpinned, hbuilds⟩
      | cons first rest =>
        obtain ⟨rfl, hnone⟩ := List.cons_eq_cons.mp hbelow
        obtain ⟨rfl, rfl⟩ := List.nil_eq_append_iff.mp hnone
        exact .inr ⟨hpinned, hbuilds⟩
    · obtain rfl : rest = [] := List.length_eq_zero_iff.mp (by simpa using hbuilds.few)
      exact .inl ⟨by simpa using hroot.symm, hbuilds⟩
  · rintro (⟨rfl, hbuilds⟩ | ⟨hpinned, hbuilds⟩)
    · exact hbuilds.reaches
    · exact ⟨[], hbuilds, .inl ⟨[film], hpinned, rfl⟩⟩

theorem reaches_pair_iff {pinned root : Dir} {season : Option ℤ} {name folder : String} :
    Reaches pinned root season [name, folder] ↔
      pinned = root ++ [name] ∧ Builds pinned season [folder] ∨
        pinned = root ++ [name, folder] ∧ Builds pinned season [] := by
  constructor
  · rintro ⟨below, hbuilds, ⟨rest, hpinned, hbelow⟩ | ⟨rest, -, rfl⟩⟩
    · match rest with
      | [] =>
        obtain rfl : [name, folder] = below := hbelow
        exact absurd hbuilds not_builds_pair
      | [first] =>
        obtain ⟨rfl, rfl⟩ : name = first ∧ [folder] = below := List.cons_eq_cons.mp hbelow
        exact .inl ⟨hpinned, hbuilds⟩
      | first :: second :: rest =>
        obtain ⟨rfl, htail⟩ := List.cons_eq_cons.mp hbelow
        obtain ⟨rfl, hnone⟩ := List.cons_eq_cons.mp htail
        obtain ⟨rfl, rfl⟩ := List.nil_eq_append_iff.mp hnone
        exact .inr ⟨hpinned, hbuilds⟩
    · -- two folders below the pinned one are too many
      have hfew := hbuilds.few
      simp at hfew
  · rintro (⟨hpinned, hbuilds⟩ | ⟨hpinned, hbuilds⟩)
    · exact ⟨[folder], hbuilds, .inl ⟨[name], hpinned, rfl⟩⟩
    · exact ⟨[], hbuilds, .inl ⟨[name, folder], hpinned, rfl⟩⟩

namespace Planner

variable (planner : Planner) (siblings : List (String × Dir)) (placed : List Placed)
  (entry : WantedItem)

/-- A folder is pinned on an item or above it, and files can be written there. -/
def Pins (pinned : Dir) : Prop :=
  Placement.namedFolder (planner.folderOf entry.item) = some pinned ∧
    (probe planner.disk pinned entry.item.bytes).writable

/-- What a name is made of, below a root. -/
def context (root : Dir) : Naming.NamingContext :=
  ⟨[], planner.siblingPath siblings entry, some root, none⟩

/-- What is left of the folders of a name below a root: where the name is taken, the folders of the
names tried after it. -/
def left (root : Dir) (parts : List String) : List String :=
  let request := planner.request siblings placed entry
  folders (if occupied planner.disk request.reserved request.replacesPath
      (inRoot root (request.relativeName root))
    then parts.flatMap Placement.splitBackslashes else parts)

/-- **What the naming builds below a root spells the pinned folder.**  The folders of a sibling below
the root lead to it, and to what belongs there.  Without one, an episode's is where its show's would
be, or that of its season; a film's is the root, for a film that is the one thing of its season, or
where the film's own would be; and anything else is put into the root as it is. -/
def Spells (pinned root : Dir) : Prop :=
  let item := planner.nameable entry.item
  let season := entry.item.seasonNumber
  match imitatedDirectory item (planner.context siblings entry root) with
  | some parts => Reaches pinned root season (planner.left siblings placed entry root parts)
  | none =>
    match templateDirectory item with
    | [] => ∃ rest, root = pinned ++ rest ∧ Builds pinned season rest
    | [film] => pinned = root ∧ Builds pinned season [film] ∨
        pinned = root ++ [film] ∧ Builds pinned season []
    | [name, folder] => pinned = root ++ [name] ∧ Builds pinned season [folder] ∨
        pinned = root ++ [name, folder] ∧ Builds pinned season []
    | _ => False

/-- **Pinned folders are honoured.** -/
def HonoursPins : Prop :=
  ∀ next pinned, planner.Places next → planner.Pins next.entry pinned →
    Honours pinned next.entry.item.seasonNumber next.target.path.dropLast

variable {planner siblings placed entry}

theorem dropLast_inRoot (root : Dir) (parts : List String) {name : String}
    (h : Placement.Proper name) :
    (inRoot root (parts ++ [name])).dropLast = root ++ folders parts := by
  rw [inRoot, Placement.safeRelative_concat parts h, ← List.append_assoc, List.dropLast_concat]

/-- **The directory an item lands in**: the root, and what is left of the folders the naming builds
below it. -/
theorem dropLast_of_resolve {target : Placement.PlacementTarget}
    (h : Placement.resolve planner.disk (planner.request siblings placed entry) = .ok target) :
    ∃ attempt, chosen planner.disk (planner.request siblings placed entry) = some attempt ∧
      target.path.dropLast = attempt.root ++ planner.left siblings placed entry attempt.root
        (Naming.directory (planner.nameable entry.item)
          (planner.context siblings entry attempt.root)) := by
  obtain ⟨attempt, hchosen, hfind⟩ := Placement.path_of_resolve h
  refine ⟨attempt, hchosen, ?_⟩
  set request := planner.request siblings placed entry with hrequest
  obtain ⟨name, hname, hrelative⟩ : ∃ name, Placement.Proper name ∧
      request.relativeName attempt.root = Naming.directory (planner.nameable entry.item)
        (planner.context siblings entry attempt.root) ++ [name] :=
    ⟨_, Naming.proper_fileName .., rfl⟩
  rw [left, ← hrequest]
  split_ifs with hoccupied
  · rw [tried, List.find?_cons_of_neg (by simpa using hoccupied)] at hfind
    obtain ⟨hpath, -⟩ := List.mem_filter.mp (List.mem_of_find?_eq_some hfind)
    obtain ⟨count, -, hpath⟩ := List.mem_map.mp hpath
    have hother : request.disambiguate (request.relativeName attempt.root) (count + 1) =
        (Naming.directory (planner.nameable entry.item)
          (planner.context siblings entry attempt.root)).flatMap Placement.splitBackslashes ++
        [Naming.renamed planner.toLowerCase name (marksOf entry.item) (count + 1)] := by
      rw [hrelative]
      exact Naming.disambiguate_concat _ _ hname _ _
    rw [← hpath, hother, dropLast_inRoot _ _ (Naming.proper_renamed ..)]
  · rw [tried, List.find?_cons_of_pos (by simpa using hoccupied)] at hfind
    have hpath : target.path = inRoot attempt.root (request.relativeName attempt.root) :=
      Option.some.inj hfind.symm
    rw [hpath, hrelative, dropLast_inRoot _ _ hname]

theorem left_template (root : Dir) (item : NameableItem) :
    planner.left siblings placed entry root (templateDirectory item) = templateDirectory item := by
  have hproper := Naming.proper_template item
  simp only [left, Placement.flatMap_splitBackslashes fun part hpart =>
    (hproper part hpart).whole, ite_self,
    Placement.folders_of_proper hproper]

theorem spells_iff {pinned root : Dir} :
    Honours pinned entry.item.seasonNumber (root ++ planner.left siblings placed entry root
      (Naming.directory (planner.nameable entry.item) (planner.context siblings entry root))) ↔
    planner.Spells siblings placed entry pinned root := by
  have hunpinned : Naming.isPinnedRoot (planner.context siblings entry root) = false := rfl
  rw [Naming.directory, if_neg (by rw [hunpinned]; exact Bool.false_ne_true), Spells]
  cases himitated : imitatedDirectory (planner.nameable entry.item)
      (planner.context siblings entry root) with
  | some parts => exact honours_append_iff
  | none =>
    rw [Option.getD_none, left_template, honours_append_iff]
    -- the template has two folders for an episode, one for a film, and none otherwise
    unfold templateDirectory
    cases (planner.nameable entry.item).kind with
    | EPISODE => exact reaches_pair_iff
    | MOVIE => exact reaches_singleton_iff
    | _ => exact reaches_nil_iff

/-- **Pinned folders are honoured** exactly when, for every item with one, what the naming builds
below the root of its lot spells it. -/
theorem honoursPins_iff {planning : SyncPlanning} (hplan : planner.plan = .ok planning) :
    planner.HonoursPins ↔ ∀ siblings placed entry pinned attempt,
      planner.AboutToPlace siblings placed entry → planner.Pins entry pinned →
      chosen planner.disk (planner.request siblings placed entry) = some attempt →
      planner.Spells siblings placed entry pinned attempt.root := by
  obtain ⟨all, hran⟩ := exists_ran hplan
  constructor
  · intro h siblings placed entry pinned attempt habout hpins hchosen
    obtain ⟨next, after, hall, hplace⟩ := hran.comes siblings placed entry habout
    obtain ⟨rfl, -, hresolve⟩ := place_eq_ok hplace
    obtain ⟨other, hother, hdirectory⟩ := dropLast_of_resolve hresolve
    obtain rfl := Option.some.inj (hchosen.symm.trans hother)
    have hhonours := h next pinned ⟨siblings, placed, habout, hplace⟩ hpins
    rw [hdirectory] at hhonours
    exact spells_iff.mp hhonours
  · rintro h next pinned ⟨siblings, placed, habout, hplace⟩ hpins
    obtain ⟨-, -, hresolve⟩ := place_eq_ok hplace
    obtain ⟨attempt, hchosen, hdirectory⟩ := dropLast_of_resolve hresolve
    rw [hdirectory]
    exact spells_iff.mpr (h siblings placed _ pinned attempt habout hpins hchosen)

/-! ### A show with a folder pinned on it -/

/-- An episode of the show, on a server where a folder is pinned on the whole of it. -/
def pinnedDark : List MediaItem :=
  [{ darkRow "away-series" "away" .SERIES none none with
      targetFolder := some (.absolute ["anime", "Dark"]) },
    darkRow "away-season" "away" .SEASON (some "away-series") none,
    darkRow "one" "away" .EPISODE (some "away-season") (some 1)]

def sevenOfTwo : List MediaItem :=
  darkOn "home" ++
    [{ darkRow "seven" "home" .EPISODE (some "home-season") none with
        seasonNumber := some 2
        episodeNumber := some 7
        file := some (fileAt ["anime", "Dark", "Saison 02", "seven.mkv"] none) }]

/-- What we hold of the show decides how the folder of the season is found. -/
def darkWith (ours : List MediaItem) (nodup : ((ours ++ pinnedDark).map (·.id)).Nodup) :
    Planner where
  catalogue :=
    { items := ours ++ pinnedDark
      services := [ourServer [], theirServer]
      libraries := [{ ourShelf "anime" with id := "home-shows" }]
      categories := []
      matchRows := []
      nodup := nodup }
  effective := everything
  settings := plainSettings
  disk := diskWith [["anime", "Dark", "Saison 02", "seven.mkv"]]
  normalize := fun title => .ofList (title.toList.map Char.toLower)
  toLowerCase := id

def besideSeven : Planner := darkWith sevenOfTwo (by decide)

/-- The folder of the other season is imitated, and the pin is honoured. -/
theorem honoursPins_iff_besideSeven : besideSeven.HonoursPins := by
  obtain ⟨planning, hplan⟩ : ∃ planning, besideSeven.plan = .ok planning :=
    Fallible.exists_eq_ok (by decide +kernel)
  let one : WantedItem :=
    ⟨darkRow "one" "away" .EPISODE (some "away-season") (some 1), none, .MISSING⟩
  let siblings := localSiblings besideSeven.catalogue besideSeven.normalize [one.item]
  have hselect : select besideSeven.toLowerCase besideSeven.catalogue besideSeven.effective
      = .ok ([one], ⟨1, 0, true, false⟩) := rfl
  have hroot : ∀ attempt ∈ chosen besideSeven.disk (besideSeven.request siblings [] one),
      attempt.root = ["anime", "Dark"] := by
    decide +kernel
  have himitated : imitatedDirectory (besideSeven.nameable one.item)
      (besideSeven.context siblings one ["anime", "Dark"]) = some ["Saison 01"] := by
    decide +kernel
  have hbuilds : Builds ["anime", "Dark"] (some 1)
      (besideSeven.left siblings [] one ["anime", "Dark"] ["Saison 01"]) := by
    decide +kernel
  have hspells : besideSeven.Spells siblings [] one ["anime", "Dark"] ["anime", "Dark"] := by
    unfold Spells
    dsimp only
    rw [himitated]
    exact hbuilds.reaches
  refine (honoursPins_iff hplan).mpr ?_
  rintro _ placed entry pinned attempt ⟨wanted, estimate, before, after, hselect', htake, rfl,
    hplaced⟩ ⟨hnamed, -⟩ hchosen
  obtain ⟨rfl, rfl⟩ := Prod.mk.inj (Except.ok.inj (hselect.symm.trans hselect'))
  -- nothing is placed before the one item of the plan
  obtain ⟨rfl, rfl, rfl⟩ : before = [] ∧ entry = one ∧ after = [] := by
    have htake : before ++ entry :: after = [one] := htake.symm
    simpa [List.append_eq_singleton_iff] using htake
  cases hplaced
  obtain rfl : ["anime", "Dark"] = pinned := Option.some.inj hnamed
  rw [hroot attempt hchosen]
  exact hspells

def firstOfShow : Planner := darkWith [] (by decide)

/-- **A pinned folder is not the folder**: the one of the show is built again in it. -/
theorem not_honoursPins_firstOfShow :
    firstOfShow.plan.toOption.map (fun planning => planning.items.map (·.targetPath)) =
      some [["anime", "Dark", "Dark (2017)", "Season 01", "one.mkv"]] ∧
      ¬ firstOfShow.HonoursPins := by
  have helsewhere : ∀ wanted ∈ (select id firstOfShow.catalogue firstOfShow.effective).toOption,
      ∀ all ∈ (firstOfShow.placements wanted.1).toOption, ∃ next ∈ all,
        Placement.namedFolder (firstOfShow.folderOf next.entry.item) = some ["anime", "Dark"] ∧
        (probe firstOfShow.disk ["anime", "Dark"] next.entry.item.bytes).writable ∧
        next.target.path.dropLast = ["anime", "Dark"] ++ ["Dark (2017)", "Season 01"] := by
    decide +kernel
  obtain ⟨planning, hplan⟩ : ∃ planning, firstOfShow.plan = .ok planning :=
    Fallible.exists_eq_ok (by decide +kernel)
  obtain ⟨wanted, estimate, all, hselect, hall, -⟩ := exists_placements hplan
  have hselect' : (wanted, estimate) ∈ (select id firstOfShow.catalogue
      firstOfShow.effective).toOption := by
    rw [show select id _ _ = _ from hselect]
    rfl
  obtain ⟨next, hnext, hnamed, hwritable, hdirectory⟩ :=
    helsewhere _ hselect' all (by rw [hall]; rfl)
  refine ⟨by decide +kernel, fun h => ?_⟩
  have hhonours := h next _ ((ran_of_placements hselect hall).mem_iff.mp hnext) ⟨hnamed, hwritable⟩
  rw [hdirectory, honours_append] at hhonours
  exact not_builds_pair hhonours

end Planner

end MediaCenterSync.Planning
