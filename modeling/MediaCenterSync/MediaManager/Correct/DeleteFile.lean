import MediaCenterSync.MediaManager.DeleteFile
import MediaCenterSync.Planning.Correct.Plan

/-!
# Which file is erased

A library has one path typed into it, and its service has a mapping for each disk.  `deleteFile`
goes by the first alone, and erases the file of the row (`Erases`) exactly when for every row it can
erase the two put its root at one place: `erases_iff`.
-/

namespace MediaCenterSync.MediaManager

open Planning (Catalogue Library MediaItem MediaService derivedLocalPath join mappedLocalPath
  reachableRoot toLocalPath)
open TransferManager (Dir isInside)

section

variable (catalogue : Catalogue)

/-- Where the file of a row is, through the mappings of the service that reported it. -/
def reachedAt (item : MediaItem) : Option Dir := do
  let library ← catalogue.findLibrary item.libraryId
  toLocalPath library (item.file.bind (·.path)) (findService catalogue item.serviceId)

/-- A file is there, and is not any more once a row's copy is erased. -/
def Takes (files : Files) (id : String) (path : Dir) : Prop :=
  path ∈ files.present ∧ path ∉ (deleteFile catalogue files id).2.present

/-- **Erasing a copy erases that copy**, or nothing at all; and two copies that are at different
places are never one file. -/
structure Erases : Prop where
  exactly : ∀ files, ∀ item ∈ catalogue.items,
    (deleteFile catalogue files item.id).2 = files ∨
      ∃ path, reachedAt catalogue item = some path ∧
        (deleteFile catalogue files item.id).2 = files.without path
  apart : ∀ files, ∀ a ∈ catalogue.items, ∀ b ∈ catalogue.items, a.serviceId = b.serviceId →
    a.file.bind (·.path) ≠ b.file.bind (·.path) → reachedAt catalogue a ≠ reachedAt catalogue b →
      ∀ path, ¬ (Takes catalogue files a.id path ∧ Takes catalogue files b.id path)

/-- What a path under a root becomes once the root is put somewhere. -/
def placedAt (reported root base : Dir) : Dir :=
  if reported = root then base else join base (reported.drop root.length)

/-- For every row that can be erased, the mapping of the root its path is under is nothing, or is
the one the path of the library is worked out from, or puts the file where that path does. -/
def RootsAgree : Prop :=
  ∀ item ∈ catalogue.items, ∀ service library reported root localPath mapped,
    findService catalogue item.serviceId = some service → serviceMode service = .LOCAL →
    catalogue.findLibrary item.libraryId = some library →
    item.file.bind (·.path) = some reported → library.paths.find? (isInside reported) = some root →
    library.localPath = some localPath →
    mappedLocalPath root service.rootMappings = some mapped →
    derivedLocalPath library.paths service.rootMappings ≠ some mapped →
      placedAt reported root mapped = placedAt reported root localPath

end

variable {catalogue : Catalogue}

theorem reachableRoot_none (library : Library) (root : Dir) :
    reachableRoot library root none = library.localPath := by
  unfold reachableRoot
  have hmapped : mappedLocalPath root [] = none := by
    unfold mappedLocalPath
    split_ifs <;> rfl
  simp [hmapped]

theorem toLocalPath_eq_some {library : Library} {reported : Dir} {service : Option MediaService}
    {path : Dir} : toLocalPath library (some reported) service = some path ↔
      ∃ root base, library.paths.find? (isInside reported) = some root ∧
        reachableRoot library root service = some base ∧ placedAt reported root base = path := by
  unfold toLocalPath placedAt
  simp [Option.bind_eq_some_iff]

theorem unlinkTarget_eq_ok {item : MediaItem} (hitem : item ∈ catalogue.items) {path : Dir} :
    unlinkTarget catalogue item.id = .ok path ↔ ∃ service library reported,
      findService catalogue item.serviceId = some service ∧ serviceMode service = .LOCAL ∧
      catalogue.findLibrary item.libraryId = some library ∧
      item.file.bind (·.path) = some reported ∧
      toLocalPath library (some reported) none = some path := by
  unfold unlinkTarget
  rw [Planning.find_eq_self hitem]
  dsimp only
  cases hreported : item.file.bind (·.path) with
  | none => simp
  | some reported =>
    cases hservice : findService catalogue item.serviceId with
    | none => simp
    | some service =>
      by_cases hmode : serviceMode service = .LOCAL
      · cases hlibrary : catalogue.findLibrary item.libraryId with
        | none => simp [hmode]
        | some library =>
          cases htarget : toLocalPath library (some reported) none <;> simp [hmode, htarget]
      · simp [hmode]

/-- What erasing leaves: everything, or everything but the file at the path it is about. -/
theorem deleteFile_files (files : Files) (id : String) :
    (deleteFile catalogue files id).2 = files ∨ ∃ path, unlinkTarget catalogue id = .ok path ∧
      (deleteFile catalogue files id).2 = files.without path := by
  unfold deleteFile
  cases unlinkTarget catalogue id with
  | error refusal => exact .inl rfl
  | ok path =>
    dsimp only
    cases hunlink : files.unlink path with
    | error error => cases error <;> exact .inl rfl
    | ok rest =>
      refine .inr ⟨path, rfl, ?_⟩
      unfold Files.unlink at hunlink
      split_ifs at hunlink
      exact (Except.ok.inj hunlink).symm

/-- **The file of a row is at the path it is erased at** exactly when the mapping of its root puts it
where the path of its library does. -/
theorem reachedAt_eq_iff {item : MediaItem} {service : MediaService} {library : Library}
    {reported root localPath : Dir} (hservice : findService catalogue item.serviceId = some service)
    (hlibrary : catalogue.findLibrary item.libraryId = some library)
    (hreported : item.file.bind (·.path) = some reported)
    (hroot : library.paths.find? (isInside reported) = some root)
    (hlocal : library.localPath = some localPath) :
    reachedAt catalogue item = some (placedAt reported root localPath) ↔
      ∀ mapped, mappedLocalPath root service.rootMappings = some mapped →
        derivedLocalPath library.paths service.rootMappings ≠ some mapped →
        placedAt reported root mapped = placedAt reported root localPath := by
  have hreached : reachedAt catalogue item = (reachableRoot library root (some service)).map
      (placedAt reported root) := by
    unfold reachedAt toLocalPath
    rw [hlibrary, hservice, hreported]
    simp only [Option.bind_eq_bind, Option.bind_some, hroot]
    cases reachableRoot library root (some service) <;> rfl
  rw [hreached]
  unfold reachableRoot
  simp only [Option.map_some, Option.getD_some]
  cases hmapped : mappedLocalPath root service.rootMappings with
  | none => simp [hlocal]
  | some mapped =>
    by_cases hprimary : some mapped = derivedLocalPath library.paths service.rootMappings
    · rw [if_pos (.inr hprimary), hlocal]
      simp [← hprimary]
    · rw [if_neg (by simpa using hprimary)]
      simp [Ne.symm hprimary]

/-- **Erasing a copy erases that copy** exactly when the roots agree. -/
theorem erases_iff (catalogue : Catalogue) : Erases catalogue ↔ RootsAgree catalogue := by
  constructor
  · intro herases item hitem service library reported root localPath mapped hservice hmode hlibrary
      hreported hroot hlocal
    -- With that one file on the disk, its erasing shows which root was taken.
    have htarget : unlinkTarget catalogue item.id = .ok (placedAt reported root localPath) := by
      refine (unlinkTarget_eq_ok hitem).mpr
        ⟨service, library, reported, hservice, hmode, hlibrary, hreported, ?_⟩
      exact toLocalPath_eq_some.mpr ⟨root, localPath, hroot, by rw [reachableRoot_none, hlocal], rfl⟩
    set path := placedAt reported root localPath with hpath
    have hgone : (deleteFile catalogue ⟨[path], []⟩ item.id).2 = ⟨[], []⟩ := by
      unfold deleteFile
      rw [htarget]
      simp [Files.unlink, Files.without]
    rcases herases.exactly ⟨[path], []⟩ item hitem with hsame | ⟨other, hother, hafter⟩
    · rw [hgone] at hsame
      cases hsame
    · have heq : other = path := by
        rw [hgone] at hafter
        by_contra hne
        simp [Files.without, Ne.symm hne] at hafter
      rw [heq] at hother
      exact (reachedAt_eq_iff hservice hlibrary hreported hroot hlocal).mp hother mapped
  · intro hagree
    have hreached : ∀ item ∈ catalogue.items, ∀ path, unlinkTarget catalogue item.id = .ok path →
        reachedAt catalogue item = some path := by
      intro item hitem path htarget
      obtain ⟨service, library, reported, hservice, hmode, hlibrary, hreported, hpath⟩ :=
        (unlinkTarget_eq_ok hitem).mp htarget
      obtain ⟨root, localPath, hroot, hlocal, rfl⟩ := toLocalPath_eq_some.mp hpath
      rw [reachableRoot_none] at hlocal
      exact (reachedAt_eq_iff hservice hlibrary hreported hroot hlocal).mpr fun mapped =>
        hagree item hitem service library reported root localPath mapped hservice hmode hlibrary
          hreported hroot hlocal
    -- What goes from the disk is the target of the row.
    have htaken : ∀ files, ∀ item ∈ catalogue.items, ∀ path, Takes catalogue files item.id path →
        reachedAt catalogue item = some path := by
      rintro files item hitem path ⟨hpresent, hgone⟩
      rcases deleteFile_files files item.id with hsame | ⟨target, htarget, hafter⟩
      · rw [hsame] at hgone
        exact absurd hpresent hgone
      · have heq : target = path := by
          rw [hafter] at hgone
          by_contra hne
          exact hgone (List.mem_filter.mpr ⟨hpresent, by simpa using Ne.symm hne⟩)
        exact hreached item hitem path (heq ▸ htarget)
    refine ⟨?_, ?_⟩
    · intro files item hitem
      rcases deleteFile_files files item.id with hsame | ⟨path, htarget, hafter⟩
      · exact .inl hsame
      · exact .inr ⟨path, hreached item hitem path htarget, hafter⟩
    · rintro files a ha b hb - - hne path ⟨htakes, htakes'⟩
      exact hne ((htaken files a ha path htakes).trans (htaken files b hb path htakes').symm)

/-! ### A shelf on two disks -/

def filmOn (id root : String) : MediaItem :=
  { Planning.ourDune with id := id, file := some (Planning.fileAt ["media", root, "Dune.mkv"] none) }

/-- One library on two disks; its path is that of the first. -/
def twoDisks : Catalogue where
  items := [filmOn "first" "one", filmOn "second" "two"]
  services := [Planning.ourServer
    [⟨["media", "one"], ["disk1"]⟩, ⟨["media", "two"], ["disk2"]⟩]]
  libraries := [{ Planning.ourFilms ["media", "one"] with
    paths := [["media", "one"], ["media", "two"]]
    localPath := some ["disk1"] }]
  categories := []
  matchRows := []
  nodup := by decide

/-- **The wrong file is erased**: a copy on the second disk takes the one on the first with it. -/
theorem not_erases_twoDisks :
    (deleteFile twoDisks ⟨[["disk1", "Dune.mkv"], ["disk2", "Dune.mkv"]], []⟩ "second").2.present =
        [["disk2", "Dune.mkv"]] ∧
      reachedAt twoDisks (filmOn "second" "two") = some ["disk2", "Dune.mkv"] ∧
      ¬ Erases twoDisks := by
  refine ⟨by decide, by decide, fun herases => ?_⟩
  have hfiles : ((deleteFile twoDisks ⟨[["disk1", "Dune.mkv"]], []⟩ "second").2).present = [] := by
    decide
  have hreached : reachedAt twoDisks (filmOn "second" "two") = some ["disk2", "Dune.mkv"] := by
    decide
  rcases herases.exactly ⟨[["disk1", "Dune.mkv"]], []⟩ (filmOn "second" "two") (by decide) with
    hsame | ⟨path, hpath, hafter⟩
  · rw [show (filmOn "second" "two").id = "second" from rfl] at hsame
    rw [hsame] at hfiles
    cases hfiles
  · obtain rfl := Option.some.inj (hreached.symm.trans hpath)
    rw [show (filmOn "second" "two").id = "second" from rfl] at hafter
    rw [hafter] at hfiles
    revert hfiles
    decide

end MediaCenterSync.MediaManager
