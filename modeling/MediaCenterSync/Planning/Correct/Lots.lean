import MediaCenterSync.Lib.Fallible
import MediaCenterSync.Planning.Correct.Plan

/-!
# Where the episodes of one show go

A lot goes where its first item is sent: the others are handed the root, the library and the rule
(`Ran.sent_of_lot`).  A show is one row on every service, so its episodes may be in several lots,
and the show is not split (`Unsplit`) exactly when any two of those lots are one or their first items
are sent to the same place: `unsplit_iff`.
-/

namespace MediaCenterSync.Planning

open Placement (Offered PlacementTarget sentTo)
open TransferManager (Dir)

/-- The normalised title and the year of the series row of an item. -/
def showOf (catalogue : Catalogue) (item : MediaItem) : Option (String × Option ℤ) :=
  ((catalogue.parentOf item).bind catalogue.parentOf).map fun series =>
    (series.normalizedTitle, series.year)

/-- Two items have series rows, and these have one normalised title and one year. -/
def SameShow (catalogue : Catalogue) (a b : MediaItem) : Prop :=
  (showOf catalogue a).isSome ∧ showOf catalogue a = showOf catalogue b

instance (catalogue : Catalogue) (a b : MediaItem) : Decidable (SameShow catalogue a b) :=
  inferInstanceAs (Decidable (_ ∧ _))

namespace Planner

variable {planner : Planner} {planning : SyncPlanning} {all : List Placed}

/-- An item of the plan, with the place it was given. -/
def Places (planner : Planner) (next : Placed) : Prop :=
  ∃ siblings placed, planner.AboutToPlace siblings placed next.entry ∧
    planner.place siblings placed next.entry = .ok next

/-- **A show is not split**: its episodes are under one root, in one library, by one rule. -/
def Unsplit (planner : Planner) : Prop :=
  ∀ a b, planner.Places a → planner.Places b →
    a.entry.item.kind = .EPISODE → b.entry.item.kind = .EPISODE →
    SameShow planner.catalogue a.entry.item b.entry.item → a.target.sent = b.target.sent

/-- The item that decides for a lot: the first of it that is placed. -/
def Decides (planner : Planner) (siblings : List (String × Dir)) (placed : List Placed)
    (entry : WantedItem) (lot : String) : Prop :=
  planner.AboutToPlace siblings placed entry ∧
    planner.catalogue.lotOf planner.effective.scope entry.item = lot ∧ pinOf placed lot = none

/-- Two lots are one, or the items that decide for them are sent to the same place. -/
def SameDestination (planner : Planner) (lot lot' : String) : Prop :=
  lot = lot' ∨ ∀ siblings placed first siblings' placed' other,
    planner.Decides siblings placed first lot → planner.Decides siblings' placed' other lot' →
    sentTo planner.disk (planner.request siblings placed first) =
      sentTo planner.disk (planner.request siblings' placed' other)

theorem Ran.mem_iff (hran : Ran planner planning all) {next : Placed} :
    next ∈ all ↔ planner.Places next := by
  constructor
  · intro hnext
    obtain ⟨before, after, hall⟩ := List.append_of_mem hnext
    obtain ⟨siblings, habout, hplace⟩ := hran.step before next after hall
    exact ⟨siblings, before, habout, hplace⟩
  · rintro ⟨siblings, placed, habout, hplace⟩
    obtain ⟨other, after, rfl, hother⟩ := hran.comes siblings placed _ habout
    obtain rfl := Except.ok.inj (hplace.symm.trans hother)
    exact List.mem_append_right _ (List.mem_cons_self ..)

theorem pinOf_eq_none {placed : List Placed} {lot : String} :
    pinOf placed lot = none ↔ ∀ one ∈ placed, one.lot ≠ lot := by
  simp [pinOf]

theorem Ran.find_of_decides (hran : Ran planner planning all) {siblings : List (String × Dir)}
    {placed : List Placed} {entry : WantedItem} {lot : String}
    (h : planner.Decides siblings placed entry lot) :
    ∃ next, all.find? (·.lot = lot) = some next ∧
      planner.place siblings placed entry = .ok next := by
  obtain ⟨habout, hlot, hpin⟩ := h
  obtain ⟨next, after, rfl, hplace⟩ := hran.comes siblings placed entry habout
  obtain ⟨-, hnext, -⟩ := place_eq_ok hplace
  refine ⟨next, ?_, hplace⟩
  have hbefore : placed.find? (·.lot = lot) = none := by
    rw [List.find?_eq_none]
    intro one hone
    simpa using pinOf_eq_none.mp hpin one hone
  rw [List.find?_append, hbefore, Option.none_or]
  exact List.find?_cons_of_pos (by simpa using hnext.trans hlot)

theorem Ran.exists_decides (hran : Ran planner planning all) {next : Placed} (hnext : next ∈ all) :
    ∃ siblings placed first, planner.Decides siblings placed first.entry next.lot ∧
      planner.place siblings placed first.entry = .ok first ∧ first.lot = next.lot := by
  cases hfind : all.find? (·.lot = next.lot) with
  | none => exact absurd (List.find?_eq_none.mp hfind next hnext) (by simp)
  | some first =>
    obtain ⟨hlot, before, after, hall, hbefore⟩ := List.find?_eq_some_iff_append.mp hfind
    have hlot : first.lot = next.lot := by simpa using hlot
    obtain ⟨siblings, habout, hplace⟩ := hran.step before first after hall
    have hpin : pinOf before next.lot = none :=
      pinOf_eq_none.mpr fun one hone => by simpa using hbefore one hone
    obtain ⟨-, hfirst, -⟩ := place_eq_ok hplace
    exact ⟨siblings, before, first, ⟨habout, hfirst.symm.trans hlot, hpin⟩, hplace, hlot⟩

theorem sent_of_decides {siblings : List (String × Dir)} {placed : List Placed}
    {entry : WantedItem} {lot : String} {next : Placed}
    (h : planner.Decides siblings placed entry lot)
    (hplace : planner.place siblings placed entry = .ok next) :
    sentTo planner.disk (planner.request siblings placed entry) = some next.target.sent ∧
      Offered planner.catalogue.placementLibraries next.target.libraryId := by
  obtain ⟨-, rfl, hpin⟩ := h
  obtain ⟨-, -, hresolve⟩ := place_eq_ok hplace
  exact Placement.sent_of_unpinned hresolve hpin

/-- **A lot goes where its first item went.** -/
theorem Ran.sent_of_lot (hran : Ran planner planning all) {next first : Placed}
    (hnext : next ∈ all) (hfirst : all.find? (·.lot = next.lot) = some first) :
    next.target.sent = first.target.sent := by
  obtain ⟨before, after, hall⟩ := List.append_of_mem hnext
  obtain ⟨siblings, habout, hplace⟩ := hran.step before next after hall
  obtain ⟨-, hlot, hresolve⟩ := place_eq_ok hplace
  cases hpin : pinOf before next.lot with
  | none =>
    -- the item is the first itself
    obtain ⟨other, hother, hplaced⟩ := hran.find_of_decides ⟨habout, hlot.symm, hpin⟩
    obtain rfl := Option.some.inj (hfirst.symm.trans hother)
    obtain rfl := Except.ok.inj (hplace.symm.trans hplaced)
    rfl
  | some pin =>
    obtain ⟨other, hother, rfl⟩ := Option.map_eq_some_iff.mp hpin
    have hfound : all.find? (·.lot = next.lot) = some other := by
      rw [hall, List.find?_append, hother, Option.some_or]
    obtain rfl := Option.some.inj (hfirst.symm.trans hfound)
    have hmem : first ∈ all := List.mem_of_find?_eq_some hfirst
    obtain ⟨siblings', placed', decider, hdecides, hplace', hlot'⟩ := hran.exists_decides hmem
    have hsame : first = decider := by
      have hlotf : first.lot = next.lot := by simpa using List.find?_some hfirst
      obtain ⟨found, hfound', hplaced⟩ := hran.find_of_decides hdecides
      rw [hlotf] at hfound'
      obtain rfl := Option.some.inj (hfirst.symm.trans hfound')
      exact Except.ok.inj (hplaced.symm.trans hplace')
    obtain ⟨-, hoffered⟩ := sent_of_decides hdecides hplace'
    rw [← hsame] at hoffered
    have hrequest : (planner.request siblings before next.entry).pinned
        = some (pinFrom first.target) := by
      rw [hlot] at hpin
      exact hpin
    exact Placement.sent_of_pinned hresolve hrequest hoffered

theorem Ran.exists_sent (hran : Ran planner planning all) {next : Placed} (hnext : next ∈ all) :
    ∃ siblings placed entry, planner.Decides siblings placed entry next.lot ∧
      sentTo planner.disk (planner.request siblings placed entry) = some next.target.sent := by
  obtain ⟨siblings, placed, first, hdecides, hplace, -⟩ := hran.exists_decides hnext
  obtain ⟨found, hfound, hplaced⟩ := hran.find_of_decides hdecides
  obtain rfl := Except.ok.inj (hplace.symm.trans hplaced)
  have hsent := hran.sent_of_lot hnext hfound
  exact ⟨siblings, placed, _, hdecides, by rw [hsent]; exact (sent_of_decides hdecides hplace).1⟩

theorem Ran.sentTo_of_decides (hran : Ran planner planning all) {next : Placed}
    (hnext : next ∈ all) {siblings : List (String × Dir)} {placed : List Placed}
    {entry : WantedItem} (h : planner.Decides siblings placed entry next.lot) :
    sentTo planner.disk (planner.request siblings placed entry) = some next.target.sent := by
  obtain ⟨first, hfirst, hplace⟩ := hran.find_of_decides h
  rw [hran.sent_of_lot hnext hfirst]
  exact (sent_of_decides h hplace).1

/-- **A show is not split** exactly when any two lots its episodes are in are one, or are sent to
the same place. -/
theorem unsplit_iff (hplan : planner.plan = .ok planning) :
    planner.Unsplit ↔ ∀ siblings placed a siblings' placed' b,
      planner.AboutToPlace siblings placed a → planner.AboutToPlace siblings' placed' b →
      a.item.kind = .EPISODE → b.item.kind = .EPISODE →
      SameShow planner.catalogue a.item b.item →
      planner.SameDestination (planner.catalogue.lotOf planner.effective.scope a.item)
        (planner.catalogue.lotOf planner.effective.scope b.item) := by
  obtain ⟨all, hran⟩ := exists_ran hplan
  constructor
  · intro h siblings placed a siblings' placed' b ha hb hkind hkind' hshow
    obtain ⟨next, after, hall, hplace⟩ := hran.comes siblings placed a ha
    obtain ⟨next', after', hall', hplace'⟩ := hran.comes siblings' placed' b hb
    have hnext : next ∈ all := hall ▸ List.mem_append_right _ (List.mem_cons_self ..)
    have hnext' : next' ∈ all := hall' ▸ List.mem_append_right _ (List.mem_cons_self ..)
    obtain ⟨rfl, hlot, -⟩ := place_eq_ok hplace
    obtain ⟨rfl, hlot', -⟩ := place_eq_ok hplace'
    have hsent := h next next' (hran.mem_iff.mp hnext) (hran.mem_iff.mp hnext') hkind hkind' hshow
    right
    intro _ _ first _ _ other hfirst hother
    rw [← hlot] at hfirst
    rw [← hlot'] at hother
    rw [hran.sentTo_of_decides hnext hfirst, hran.sentTo_of_decides hnext' hother, hsent]
  · intro h a b hplaces hplaces' hkind hkind' hshow
    have ha : a ∈ all := hran.mem_iff.mpr hplaces
    have hb : b ∈ all := hran.mem_iff.mpr hplaces'
    obtain ⟨siblings, placed, habout, hplace⟩ := hplaces
    obtain ⟨siblings', placed', habout', hplace'⟩ := hplaces'
    obtain ⟨-, hlot, -⟩ := place_eq_ok hplace
    obtain ⟨-, hlot', -⟩ := place_eq_ok hplace'
    have hsame := h _ _ _ _ _ _ habout habout' hkind hkind' hshow
    rw [← hlot, ← hlot'] at hsame
    obtain ⟨_, _, first, hfirst, hsent⟩ := hran.exists_sent ha
    rcases hsame with hsame | hsame
    · rw [hsame] at hfirst
      exact Option.some.inj (hsent.symm.trans (hran.sentTo_of_decides hb hfirst))
    · obtain ⟨_, _, other, hother, hsent'⟩ := hran.exists_sent hb
      rw [hsame _ _ _ _ _ _ hfirst hother] at hsent
      exact Option.some.inj (hsent.symm.trans hsent')

/-! ### A show on two servers -/

def darkRow (id serviceId : String) (kind : Matching.MediaKind) (parentId : Option String)
    (episodeNumber : Option ℤ) : MediaItem where
  id := id
  serviceId := serviceId
  libraryId := serviceId ++ "-shows"
  peerId := none
  parentId := parentId
  kind := kind
  title := "Dark"
  normalizedTitle := "dark"
  year := some 2017
  seasonNumber := if kind = .SERIES then none else some 1
  episodeNumber := episodeNumber
  externalIds := {}
  file := episodeNumber.map fun _ => fileAt ["shows", id ++ ".mkv"] none
  syncState := .UNKNOWN
  targetFolder := none

/-- The first season of the show as one server has it, and one of its episodes. -/
def darkOn (serviceId : String) : List MediaItem :=
  [darkRow (serviceId ++ "-series") serviceId .SERIES none none,
    darkRow (serviceId ++ "-season") serviceId .SEASON (some (serviceId ++ "-series")) none]

def ourShelf (name : String) : Library where
  id := name
  name := name
  serviceId := "home"
  kind := .SHOWS
  paths := [[name]]
  localPath := some [name]
  writable := true
  isDefaultTarget := false

/-- Two episodes of the show, each from some server, which files it with its dramas or with its
thrillers, as we do. -/
def twoEpisodes (first second : String)
    (nodup : ((darkOn "away" ++ darkOn "afar" ++
      [darkRow "one" first .EPISODE (some (first ++ "-season")) (some 1),
        darkRow "two" second .EPISODE (some (second ++ "-season")) (some 2)]).map (·.id)).Nodup) :
    Planner where
  catalogue :=
    { items := darkOn "away" ++ darkOn "afar" ++
        [darkRow "one" first .EPISODE (some (first ++ "-season")) (some 1),
          darkRow "two" second .EPISODE (some (second ++ "-season")) (some 2)]
      services := [ourServer [], theirServer, { theirServer with id := "afar" }]
      libraries := [ourShelf "dramas", ourShelf "thrillers"]
      categories := [⟨"dramas", ["dramas", "away-shows"]⟩,
        ⟨"thrillers", ["thrillers", "afar-shows"]⟩]
      matchRows := []
      nodup := nodup }
  effective := everything
  settings := plainSettings
  disk := diskWith [["dramas"], ["thrillers"]]
  normalize := id
  toLowerCase := id

def oneServer : Planner := twoEpisodes "away" "away" (by decide)

theorem unsplit_iff_oneServer : oneServer.Unsplit := by
  obtain ⟨planning, hplan⟩ : ∃ planning, oneServer.plan = .ok planning :=
    Fallible.exists_eq_ok (by decide +kernel)
  obtain ⟨wanted, hselect⟩ : ∃ wanted,
      select id oneServer.catalogue oneServer.effective = .ok wanted :=
    Fallible.exists_eq_ok (by decide +kernel)
  have hlots : ∀ wanted ∈ (select id oneServer.catalogue oneServer.effective).toOption,
      ∀ entry ∈ wanted.1, oneServer.catalogue.lotOf oneServer.effective.scope entry.item
        = "away-series" := by
    decide +kernel
  have hlot : ∀ siblings placed entry, oneServer.AboutToPlace siblings placed entry →
      oneServer.catalogue.lotOf oneServer.effective.scope entry.item = "away-series" :=
    fun _ _ _ habout => hlots wanted (by rw [hselect]; rfl) _ (habout.mem_wanted hselect)
  refine (unsplit_iff hplan).mpr ?_
  intro _ _ a _ _ b ha hb _ _ _
  exact .inl ((hlot _ _ a ha).trans (hlot _ _ b hb).symm)

def twoServers : Planner := twoEpisodes "away" "afar" (by decide)

/-- **A show is split**: every server has a row of its own for it, and they are two lots. -/
theorem not_unsplit_twoServers :
    twoServers.plan.toOption.map (fun planning =>
        planning.items.map fun item => (item.targetPath, item.lot)) =
      some [(["dramas", "Dark (2017)", "Season 01", "one.mkv"], "away-series"),
        (["thrillers", "Dark (2017)", "Season 01", "two.mkv"], "afar-series")] ∧
      ¬ twoServers.Unsplit := by
  have happart : ∀ wanted ∈ (select id twoServers.catalogue twoServers.effective).toOption,
      ∀ all ∈ (twoServers.placements wanted.1).toOption, ∃ a ∈ all, ∃ b ∈ all,
        a.entry.item.kind = .EPISODE ∧ b.entry.item.kind = .EPISODE ∧
        SameShow twoServers.catalogue a.entry.item b.entry.item ∧
        a.target.sent ≠ b.target.sent := by
    decide +kernel
  obtain ⟨planning, hplan⟩ : ∃ planning, twoServers.plan = .ok planning :=
    Fallible.exists_eq_ok (by decide +kernel)
  obtain ⟨wanted, estimate, all, hselect, hall, -⟩ := exists_placements hplan
  refine ⟨by decide +kernel, fun h => ?_⟩
  have hselect' : (wanted, estimate) ∈ (select id twoServers.catalogue
      twoServers.effective).toOption := by
    rw [show select id _ _ = _ from hselect]
    rfl
  obtain ⟨a, ha, b, hb, hkind, hkind', hshow, hne⟩ :=
    happart _ hselect' all (by rw [hall]; rfl)
  have hran := ran_of_placements hselect hall
  exact hne (h a b (hran.mem_iff.mp ha) (hran.mem_iff.mp hb) hkind hkind' hshow)

end Planner

end MediaCenterSync.Planning
