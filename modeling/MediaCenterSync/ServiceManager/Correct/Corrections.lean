import MediaCenterSync.ServiceManager.Correct.Family
import MediaCenterSync.ServiceManager.Correct.Recount

/-!
# What the passes leave of a correction

A pass writes over every column of a row and then applies the row's correction again.  Where the
service goes on reporting the item as it did, that gives the same columns back (`Settled`,
`settled_setOverride`): what is left to look at is whether the row survives the sweeps and which
parent it ends up with.

* `standing_persist`, `Tracked.index`: the row keeps its identifier and its columns through every
  step of a pass whose sweeps do not come across it in another library;
* `filed_refileService`: an episode whose series carries one season of its number is left where
  `refile` would leave it;
* `correction_survives`: both, over every run of passes.
-/

namespace MediaCenterSync.ServiceManager

open Matching (MediaKind)

variable {normalize : String → String} {serviceId libraryId : String} {t : MediaItems}
  {item : NormalisedMediaItem} {pass : Pass}

/-! ### The columns a correction speaks of -/

/-- The row without its place in the tree and what no correction touches. -/
def MediaItem.standing (row : MediaItem) : MediaItem :=
  { row with
    parentId := none
    parentExternalId := none
    childCount := 0
    file := none
    artworkUrl := none
    watchStates := none
    addedAt := none }

/-- What a pass makes of those columns depends on nothing else of the row. -/
theorem standing_rewriteRow (row : MediaItem) (parent : Option MediaItem) :
    (rewriteRow normalize row libraryId parent item).standing
      = (rewriteRow normalize row.standing libraryId none item).standing := by
  unfold rewriteRow
  dsimp only [writeReport, MediaItem.standing]
  split
  · unfold applyOverride
    dsimp only [snapshotReported, restoreReported]
    split <;> rfl
  · rfl

/-- The row is what the service's report of its item and its correction make of it. -/
structure Settled (normalize : String → String) (libraryId : String) (item : NormalisedMediaItem)
    (row : MediaItem) : Prop where
  externalId : row.externalId = item.externalId
  reported : row.synthetic = false
  rewritten : (rewriteRow normalize row.standing libraryId none item).standing = row.standing

theorem Settled.of_standing {row row' : MediaItem} (h : Settled normalize libraryId item row)
    (heq : row'.standing = row.standing) : Settled normalize libraryId item row' where
  externalId := by
    rw [show row'.externalId = row.externalId from congrArg (·.externalId) heq]
    exact h.externalId
  reported := by
    rw [show row'.synthetic = row.synthetic from congrArg (·.synthetic) heq]
    exact h.reported
  rewritten := by
    rw [heq]
    exact h.rewritten

theorem Settled.standing_rewriteRow {row : MediaItem} (h : Settled normalize libraryId item row)
    (parent : Option MediaItem) :
    (rewriteRow normalize row libraryId parent item).standing = row.standing := by
  rw [ServiceManager.standing_rewriteRow, h.rewritten]

/-! ### A correction is written once -/

theorem unlessReported_idem {α : Type*} [DecidableEq α] (field reported : Option α) :
    unlessReported (unlessReported field reported) reported = unlessReported field reported := by
  unfold unlessReported
  split_ifs <;> simp_all

@[simp] theorem unlessReported_none {α : Type*} [DecidableEq α] (reported : Option α) :
    unlessReported none reported = none := by
  simp [unlessReported]

theorem identifiersUnlessReported_idem (kept reported : ExternalIds) :
    (identifiersUnlessReported kept reported).bind (identifiersUnlessReported · reported)
      = identifiersUnlessReported kept reported := by
  unfold identifiersUnlessReported
  dsimp only
  split_ifs with hempty
  · rfl
  · simp only [Option.bind_some, unlessReported_idem, if_neg hempty]

/-- Dropping what agrees with the service, once it is dropped, drops nothing more. -/
theorem withoutUnchanged_idem (override : Option MediaOverride) (reported : MediaReported) :
    withoutUnchanged (some (withoutUnchanged override reported)) reported
      = withoutUnchanged override reported := by
  cases override with
  | none => simp [withoutUnchanged]
  | some kept =>
    have hidentifiers : (kept.externalIds.bind
        (identifiersUnlessReported · reported.externalIds)).bind
          (identifiersUnlessReported · reported.externalIds)
        = kept.externalIds.bind (identifiersUnlessReported · reported.externalIds) := by
      cases kept.externalIds with
      | none => rfl
      | some identifiers => exact identifiersUnlessReported_idem identifiers reported.externalIds
    simp only [withoutUnchanged, unlessReported_idem, hidentifiers]
    congr 1
    · split_ifs <;> simp_all
    · split_ifs <;> simp_all

/-- What a snapshot taken right after a report of the item says. -/
def reportedBy (libraryId : String) (item : NormalisedMediaItem) : MediaReported where
  libraryId := libraryId
  title := item.title
  seriesTitle := none
  year := item.year
  seasonNumber := item.seasonNumber
  episodeNumber := item.episodeNumber
  episodeNumberEnd := some item.episodeNumberEnd
  overview := item.overview
  externalIds := item.externalIds

/-- **A correction made to a row the service reports leaves the row settled**: a pass that reports
the item again makes the same row of it. -/
theorem settled_setOverride {row : MediaItem} {override : Option MediaOverride}
    (hexternal : row.externalId = item.externalId) (hsynthetic : row.synthetic = false)
    (hkind : row.kind = item.kind)
    (hreported : row.reported.getD (snapshotReported row) = reportedBy libraryId item)
    (hcorrects : withoutUnchanged override (reportedBy libraryId item) ≠ {}) :
    Settled normalize libraryId item (applyOverride row override normalize) := by
  have hidem := withoutUnchanged_idem override (reportedBy libraryId item)
  unfold applyOverride
  dsimp only
  rw [hreported, if_neg hcorrects]
  generalize hkept : withoutUnchanged override (reportedBy libraryId item) = kept at hcorrects hidem
  refine ⟨hexternal, hsynthetic, ?_⟩
  unfold rewriteRow applyOverride
  dsimp only [writeReport, MediaItem.standing, Option.isSome_some, snapshotReported,
    Option.getD_none]
  rw [if_pos rfl]
  unfold reportedBy at hidem
  simp only [restoreReported, hidem, if_neg hcorrects, hkind, reportedBy]

/-! ### The row through the steps of a pass -/

variable {row₀ : MediaItem}

/-- The table has the row, wherever it hangs. -/
def Tracked (row₀ : MediaItem) (t : MediaItems) : Prop :=
  ∃ row ∈ t.rows, row.standing = row₀.standing

theorem Tracked.update {f : MediaItem → MediaItem} {hf : ∀ row, (f row).key = row.key}
    (h : Tracked row₀ t) (hstanding : ∀ row, (f row).standing = row.standing) :
    Tracked row₀ (t.update f hf) := by
  obtain ⟨row, hrow, heq⟩ := h
  exact ⟨f row, MediaItems.mem_update.mpr ⟨row, hrow, rfl⟩, (hstanding row).trans heq⟩

theorem Tracked.findByExternalId (h : Tracked row₀ t) :
    ∃ row, t.findByExternalId row₀.serviceId row₀.externalId = some row ∧
      row.standing = row₀.standing := by
  obtain ⟨row, hrow, heq⟩ := h
  have hservice : row.serviceId = row₀.serviceId := congrArg (·.serviceId) heq
  have hexternal : row.externalId = row₀.externalId := congrArg (·.externalId) heq
  exact ⟨row, MediaItems.findByExternalId_eq_some.mpr ⟨hrow, hservice, hexternal⟩, heq⟩

theorem Tracked.persist_self (hsettled : Settled normalize libraryId item row₀)
    (h : Tracked row₀ t) :
    Tracked row₀ (persist normalize row₀.serviceId libraryId t item) := by
  obtain ⟨row, hfind, heq⟩ := h.findByExternalId
  rw [hsettled.externalId] at hfind
  refine ⟨_, mem_persist.mpr (.inl rfl), ?_⟩
  unfold persisted
  rw [hfind, Option.getD_some, (hsettled.of_standing heq).standing_rewriteRow, heq]

theorem Tracked.persist_other {library : String} {other : NormalisedMediaItem}
    (hother : other.externalId ≠ row₀.externalId) (h : Tracked row₀ t) :
    Tracked row₀ (persist normalize serviceId library t other) := by
  obtain ⟨row, hrow, heq⟩ := h
  have hexternal : row.externalId = row₀.externalId := congrArg (·.externalId) heq
  refine ⟨row, mem_persist.mpr (.inr ⟨hrow, fun hkey => hother ?_⟩), heq⟩
  rw [← hkey.2, hexternal]

/-- A pass in which the service goes on reporting an item, under its own name and in one library,
as it did. -/
structure Reports (pass : Pass) (libraryId : String) (item : NormalisedMediaItem) : Prop where
  same : ∀ walk ∈ pass.walks, ∀ other ∈ walk.items, other.externalId = item.externalId →
    other = item ∧ walk.library = libraryId
  listed : pass.full = true → ∀ walk ∈ pass.walks, walk.failed = false →
    walk.library = libraryId → item ∈ walk.items
  named : ∀ name other, pass.getItem name = some other → other.externalId = item.externalId →
    name = item.externalId

/-- No full scan comes to the end of another library the row has been moved to. -/
def Unswept (pass : Pass) (libraryId : String) (row₀ : MediaItem) : Prop :=
  pass.full = true → ∀ walk ∈ pass.walks, walk.failed = false → walk.library = row₀.libraryId →
    walk.library = libraryId

theorem Tracked.written {walk : LibraryWalk} (hservice : pass.serviceId = row₀.serviceId)
    (hsettled : Settled normalize libraryId item row₀)
    (hsame : ∀ other ∈ walk.items, other.externalId = item.externalId →
      other = item ∧ walk.library = libraryId)
    (h : Tracked row₀ t) : Tracked row₀ (written normalize pass t walk) := by
  unfold ServiceManager.written
  rw [hservice]
  generalize walk.items = items at hsame
  induction items generalizing t with
  | nil => exact h
  | cons other items ih =>
    refine ih ?_ fun x hx => hsame x (by simp [hx])
    by_cases hother : other.externalId = item.externalId
    · obtain ⟨rfl, hlibrary⟩ := hsame other (by simp) hother
      rw [hlibrary]
      exact h.persist_self hsettled
    · exact h.persist_other (hsettled.externalId ▸ hother)

theorem Tracked.walkLibrary {walk : LibraryWalk} (hwalk : walk ∈ pass.walks)
    (hservice : pass.serviceId = row₀.serviceId)
    (hsettled : Settled normalize libraryId item row₀) (hreports : Reports pass libraryId item)
    (hunswept : Unswept pass libraryId row₀) (h : Tracked row₀ t) :
    Tracked row₀ (walkLibrary normalize pass t walk) := by
  have hwritten : Tracked row₀ (ServiceManager.written normalize pass t walk) :=
    h.written hservice hsettled (hreports.same walk hwalk)
  rw [walkLibrary_eq]
  split
  · next hsweeps =>
    obtain ⟨⟨hfull, hends⟩, -⟩ := hsweeps
    obtain ⟨row, hrow, heq⟩ := hwritten
    refine ⟨row, mem_swept.mpr ⟨hrow, fun other hother hid => ?_⟩, heq⟩
    -- The row would be stale: of the library swept, and not seen there.
    obtain ⟨⟨hin, hlibrary⟩, -, hseen⟩ := mem_findStale.mp (mem_gone.mp hother).1
    rw [MediaItems.eq_of_id hin hrow hid] at hlibrary hseen
    have hmoved : row.libraryId = row₀.libraryId := congrArg (·.libraryId) heq
    have hhome := hunswept hfull walk hwalk hends (hlibrary ▸ hmoved)
    have hexternal : row.externalId = item.externalId :=
      (congrArg (·.externalId) heq).trans hsettled.externalId
    exact hseen (List.mem_map.mpr
      ⟨item, hreports.listed hfull walk hwalk hends hhome, hexternal.symm⟩)
  · exact hwritten

theorem Tracked.walkLibraries (hservice : pass.serviceId = row₀.serviceId)
    (hsettled : Settled normalize libraryId item row₀) (hreports : Reports pass libraryId item)
    (hunswept : Unswept pass libraryId row₀) (h : Tracked row₀ t) :
    Tracked row₀ (walkLibraries normalize pass t) := by
  have hrun : ∀ walks : List LibraryWalk, (∀ walk ∈ walks, walk ∈ pass.walks) →
      ∀ t, Tracked row₀ t →
        Tracked row₀ (walks.foldl (ServiceManager.walkLibrary normalize pass) t) := by
    intro walks
    induction walks with
    | nil => exact fun _ t ht => ht
    | cons walk walks ih =>
      intro hwalks t ht
      exact ih (fun x hx => hwalks x (by simp [hx])) _
        (ht.walkLibrary (hwalks walk (by simp)) hservice hsettled hreports hunswept)
  exact hrun pass.walks (fun _ hwalk => hwalk) t h

theorem Tracked.linkKnownParents (h : Tracked row₀ t) :
    Tracked row₀ (linkKnownParents t serviceId) :=
  h.update fun row => by split <;> rfl

/-- A parent is asked for only where the table has no row of it. -/
theorem findByExternalId_of_unresolved {entry : String × String}
    (h : entry ∈ findUnresolvedParents t serviceId) :
    t.findByExternalId serviceId entry.1 = none := by
  simp only [findUnresolvedParents, List.mem_filterMap, List.mem_eraseDups,
    Option.map_eq_some_iff] at h
  obtain ⟨name, ⟨row, hrow, hname⟩, library, -, rfl⟩ := h
  simp only [unresolved, List.mem_filter, decide_eq_true_eq] at hrow
  obtain ⟨-, -, -, missing, hmissing, hnone⟩ := hrow
  rwa [← Option.some.inj (hname.symm.trans hmissing)] at hnone

theorem Tracked.fetch (normalize : String → String) {missing : List (String × String)}
    (hreports : Reports pass libraryId item) (hexternal : row₀.externalId = item.externalId)
    (hmissing : ∀ entry ∈ missing, entry.1 ≠ item.externalId) (fetched : MediaItems × ℕ)
    (h : Tracked row₀ fetched.1) :
    Tracked row₀ (missing.foldl (fetchParent normalize pass) fetched).1 := by
  induction missing generalizing fetched with
  | nil => exact h
  | cons entry missing ih =>
    refine ih (fun x hx => hmissing x (by simp [hx])) _ ?_
    unfold fetchParent
    split_ifs with hlibrary
    · cases hget : pass.getItem entry.1 with
      | none => exact h
      | some parent =>
        refine h.persist_other fun heq => hmissing entry (by simp) ?_
        exact hreports.named entry.1 parent hget (heq.trans hexternal)
    · exact h

theorem Tracked.reconcileParents (hservice : pass.serviceId = row₀.serviceId)
    (hreports : Reports pass libraryId item) (hexternal : row₀.externalId = item.externalId)
    {fuel hop : ℕ} {asked : List String} {linked : MediaItems} (h : Tracked row₀ t)
    (hlinked : reconcileParents normalize pass fuel hop asked t = some linked) :
    Tracked row₀ linked := by
  induction fuel generalizing hop asked t with
  | zero => simp [ServiceManager.reconcileParents] at hlinked
  | succ fuel ih =>
    rw [ServiceManager.reconcileParents] at hlinked
    have hlink : Tracked row₀ (ServiceManager.linkKnownParents t pass.serviceId) :=
      h.linkKnownParents
    have hnames : ∀ entry ∈ (findUnresolvedParents
        (ServiceManager.linkKnownParents t pass.serviceId) pass.serviceId).filter (·.1 ∉ asked),
        entry.1 ≠ item.externalId := by
      intro entry hentry heq
      have hnone := findByExternalId_of_unresolved (List.mem_of_mem_filter hentry)
      obtain ⟨row, hfind, -⟩ := hlink.findByExternalId
      rw [heq, ← hexternal, hservice] at hnone
      rw [hservice, hnone] at hfind
      cases hfind
    have hfetch := Tracked.fetch normalize hreports hexternal hnames (_, 0) hlink
    dsimp only at hlinked
    split_ifs at hlinked with hlast hmissing hfetched
    · exact Option.some.inj hlinked ▸ hlink
    · exact Option.some.inj hlinked ▸ hlink
    · exact Option.some.inj hlinked ▸ hfetch
    · exact ih hfetch hlinked

/-! ### A correction over the passes -/

/-- What a pass should leave: the row with its identifier, its correction and its corrected fields,
where `refile` would hang it, and every row the service still lists. -/
structure Survives (normalize : String → String) (pass : Pass) (t : MediaItems) (row₀ : MediaItem)
    (indexed : MediaItems) : Prop where
  kept : ∃ row ∈ indexed.rows, row.standing = row₀.standing ∧ Filed indexed row
  listed : ∀ other ∈ removed normalize pass t pass.walks, other.serviceId = pass.serviceId →
    ∀ walk ∈ pass.walks, other.externalId ∉ walk.items.map (·.externalId)

variable (normalize pass) in
/-- No sweep of some libraries finds a stale row that a library of the service lists. -/
def SweepsListed : MediaItems → List LibraryWalk → Prop
  | _, [] => True
  | t, walk :: walks =>
    (Sweeps pass (written normalize pass t walk) walk →
      ∀ row ∈ findStale (written normalize pass t walk) walk.library
          (walk.items.map (·.externalId)),
        row.serviceId = pass.serviceId →
          ∀ other ∈ pass.walks, row.externalId ∉ other.items.map (·.externalId)) ∧
      SweepsListed (walkLibrary normalize pass t walk) walks

/-- What keeps a pass from undoing a correction: no sweep comes across the row in a library it was
moved to, none finds stale what another library lists, some library answers to the end, and the
pass finds the row, once it is linked, where its numbers name one place. -/
structure PassMeets (normalize : String → String) (libraryId : String) (row₀ : MediaItem)
    (pass : Pass) (t : MediaItems) : Prop where
  unswept : Unswept pass libraryId row₀
  listed : SweepsListed normalize pass t pass.walks
  answered : silent normalize pass t = false
  placeable : ∀ linked, reconcileParents normalize pass (PARENT_HOPS + 1) 0 []
      (walkLibraries normalize pass t) = some linked →
    ∀ row ∈ linked.rows, row.standing = row₀.standing → row.kind = .EPISODE → Placeable linked row

/-- A pass in which the service reports the item as it did, and that meets its conditions. -/
structure PassStep (normalize : String → String) (libraryId : String) (item : NormalisedMediaItem)
    (row₀ : MediaItem) (pass : Pass) (t indexed : MediaItems) : Prop where
  service : pass.serviceId = row₀.serviceId
  reports : Reports pass libraryId item
  meets : PassMeets normalize libraryId row₀ pass t
  indexed : index normalize (PARENT_HOPS + 1) pass t = some indexed

def Run (normalize : String → String) (libraryId : String) (item : NormalisedMediaItem)
    (row₀ : MediaItem) : MediaItems → MediaItems → Prop :=
  Relation.ReflTransGen fun t indexed =>
    ∃ pass, PassStep normalize libraryId item row₀ pass t indexed

theorem kept_index (hsettled : Settled normalize libraryId item row₀) (hfamily : Family t)
    (htracked : Tracked row₀ t) {indexed : MediaItems}
    (hstep : PassStep normalize libraryId item row₀ pass t indexed) :
    ∃ row ∈ indexed.rows, row.standing = row₀.standing ∧ Filed indexed row := by
  obtain ⟨hservice, hreports, hmeets, hindex⟩ := hstep
  unfold index at hindex
  dsimp only at hindex
  rw [if_neg (by simp [hmeets.answered])] at hindex
  obtain ⟨linked, hlinked, rfl⟩ := Option.map_eq_some_iff.mp hindex
  have hwalked := htracked.walkLibraries hservice hsettled hreports hmeets.unswept
  obtain ⟨row, hrow, heq⟩ :=
    hwalked.reconcileParents hservice hreports hsettled.externalId hlinked
  have hown : row.serviceId = pass.serviceId :=
    (congrArg (·.serviceId) heq).trans hservice.symm
  have hreported : row.synthetic = false :=
    (congrArg (·.synthetic) heq).trans hsettled.reported
  obtain ⟨childCount, hmem, hfiled⟩ := filed_refileService
    (hfamily.walkLibraries.reconcileParents hlinked) hrow hown hreported
    (hmeets.placeable linked hlinked row hrow heq)
  refine ⟨_, hmem, ?_, hfiled⟩
  obtain ⟨parentId, hrefiled⟩ := refiledRow_eq linked pass.serviceId row
  rw [← heq, hrefiled]
  rfl

theorem SweepsListed.not_listed {walks : List LibraryWalk}
    (h : SweepsListed normalize pass t walks) {other : MediaItem}
    (hother : other ∈ removed normalize pass t walks)
    (hservice : other.serviceId = pass.serviceId) :
    ∀ walk ∈ pass.walks, other.externalId ∉ walk.items.map (·.externalId) := by
  induction walks generalizing t with
  | nil => exact absurd hother (by simp [removed])
  | cons walk walks ih =>
    rcases List.mem_append.mp hother with hnow | hlater
    · split_ifs at hnow with hsweeps
      · exact h.1 hsweeps other (mem_gone.mp hnow).1 hservice
      · exact absurd hnow (by simp)
    · exact ih h.2 hlater

/-- **A correction survives every run of passes that meet their conditions**: after each of them the
row is there with its identifier, its correction and its corrected fields, where `refile` would
hang it, and no row went that the service lists. -/
theorem correction_survives {t₀ : MediaItems} (hsettled : Settled normalize libraryId item row₀)
    (hfamily : Family t₀) (hrow : row₀ ∈ t₀.rows) (hrun : Run normalize libraryId item row₀ t₀ t)
    {indexed : MediaItems} (hstep : PassStep normalize libraryId item row₀ pass t indexed) :
    Survives normalize pass t row₀ indexed := by
  have hinvariant : Family t ∧ Tracked row₀ t := by
    clear hstep
    induction hrun with
    | refl => exact ⟨hfamily, row₀, hrow, rfl⟩
    | tail _ hpass ih =>
      obtain ⟨pass, hpass⟩ := hpass
      obtain ⟨row, hmem, heq, -⟩ := kept_index hsettled ih.1 ih.2 hpass
      exact ⟨ih.1.index hpass.indexed, row, hmem, heq⟩
  exact ⟨kept_index hsettled hinvariant.1 hinvariant.2 hstep,
    fun other hother hown => hstep.meets.listed.not_listed hother hown⟩

def film : NormalisedMediaItem := bareItem "1" none .MOVIE none none

/-- A full scan of both, that lists the film in the first and nothing in the second. -/
def shelvesPass : Pass where
  serviceId := "service"
  full := true
  walks := [⟨"films", [film], false⟩, ⟨"series", [], false⟩]
  getItem := fun _ => none
  bindLimit := 32766

/-- The table after such a scan, and a correction of the film made then. -/
def correctedFilm (override : MediaOverride) : MediaItems :=
  setOverride id ((index id (PARENT_HOPS + 1) shelvesPass .empty).getD .empty) 0 (some override)

def filmRow (override : MediaOverride) : MediaItem :=
  applyOverride
    (rewriteRow id (create "service" "films" film) "films" none film) (some override) id

theorem reports_shelvesPass : Reports shelvesPass "films" film where
  same := by decide
  listed := by decide
  named := fun _ _ h => nomatch h

def reshelved : MediaOverride := { libraryId := some (some "series") }

def showPass : Pass := filmsPass (listedShow [1, 2])

def firstEpisode : NormalisedMediaItem :=
  bareItem "episode 1" (some "season 1") .EPISODE (some 1) (some 1)

/-- The episode of the first season is the second one of the second season. -/
def renumbered : MediaOverride where
  seasonNumber := some (some 2)
  episodeNumber := some (some 2)

def renumberedShow : MediaItems :=
  setOverride id ((index id (PARENT_HOPS + 1) showPass .empty).getD .empty) 3 (some renumbered)

def renumberedEpisode : MediaItem :=
  (renumberedShow.findOne 3).getD (create "service" "films" firstEpisode)

/-- The show as another scan finds it, before the episodes are filed, and after. -/
def linkedShow : MediaItems :=
  (reconcileParents id showPass (PARENT_HOPS + 1) 0 []
    (walkLibraries id showPass renumberedShow)).getD .empty

def rescannedShow : MediaItems :=
  (index id (PARENT_HOPS + 1) showPass renumberedShow).getD .empty

theorem reports_showPass : Reports showPass "films" firstEpisode where
  same := by decide
  listed := by decide
  named := fun _ _ h => nomatch h

/-- The scan hangs the episode from the season it is reported in, and the show carries one season
of its corrected number. -/
theorem placeable_linkedShow :
    ∀ row ∈ linkedShow.rows, row.standing = renumberedEpisode.standing → Placeable linkedShow row := by
  intro row hrow heq
  have hepisode : ∀ row ∈ linkedShow.rows, row.standing = renumberedEpisode.standing →
      linkedShow.findOne 3 = some row := by decide
  have hparent : ∀ row ∈ linkedShow.findOne 3, ∀ parent ∈ row.parentId.bind linkedShow.findOne,
      parent.kind = .SERIES ∨ parent.kind = .SEASON := by decide
  have hnumber : ∀ row ∈ linkedShow.findOne 3, row.seasonNumber = some 2 := by decide
  have hseries : ∀ row ∈ linkedShow.findOne 3, ∀ series ∈ seriesOf linkedShow row,
      series.id = 0 := by decide
  have hseason : ∀ season ∈ linkedShow.findOne 2, season ∈ linkedShow.rows ∧
      ∀ row ∈ linkedShow.rows, row.kind = .SEASON ∧ row.parentId = some 0 ∧
        row.seasonNumber = some 2 ↔ row = season := by decide
  obtain ⟨season, hfound⟩ : ∃ season, linkedShow.findOne 2 = some season := ⟨_, rfl⟩
  have hrow := hepisode row hrow heq
  refine ⟨hparent row hrow, fun series hclimb => .inr ⟨2, season, hnumber row hrow, ?_⟩⟩
  rw [hseries row hrow series hclimb]
  exact ⟨(hseason season hfound).1, (hseason season hfound).2⟩

/-- The scan hangs the episode from the season it is reported in, and then files it under the
season it was corrected to. -/
theorem correction_survives_renumbered :
    (linkedShow.findOne 3).map (·.parentId) = some (some 1) ∧
      (rescannedShow.findOne 3).map (·.parentId) = some (some 2) ∧
      Survives id showPass renumberedShow renumberedEpisode rescannedShow := by
  have hrow : renumberedEpisode ∈ renumberedShow.rows := by decide
  have hsettled : Settled id "films" firstEpisode renumberedEpisode :=
    ⟨by decide, by decide, by decide⟩
  have hgiven : ∀ row ∈ renumberedShow.rows, ∀ id ∈ row.parentId, id < renumberedShow.next := by
    decide
  have hfamily : Family renumberedShow := ⟨by decide, hgiven⟩
  have hindex : index id (PARENT_HOPS + 1) showPass renumberedShow = some rescannedShow := by
    obtain ⟨indexed, hindex⟩ := exists_index id showPass renumberedShow
    rw [rescannedShow, hindex, Option.getD_some]
  have hmeets : PassMeets id "films" renumberedEpisode showPass renumberedShow :=
    { unswept := by
        unfold Unswept
        decide
      listed := ⟨fun _ => by decide, trivial⟩
      answered := by decide
      placeable := fun linked hlinked row hrow heq _ => by
        have hsame : linkedShow = linked := by rw [linkedShow, hlinked, Option.getD_some]
        rw [← hsame] at hrow ⊢
        exact placeable_linkedShow row hrow heq }
  exact ⟨by decide, by decide, correction_survives hsettled hfamily hrow .refl
    ⟨rfl, reports_showPass, hmeets, hindex⟩⟩

/-- A film put on the other shelf is gone, and its correction with it, after the next scan. -/
theorem correction_lost_reshelved :
    Settled id "films" film (filmRow reshelved) ∧ Family (correctedFilm reshelved) ∧
      filmRow reshelved ∈ (correctedFilm reshelved).rows ∧ Reports shelvesPass "films" film ∧
      ∃ indexed, index id (PARENT_HOPS + 1) shelvesPass (correctedFilm reshelved) = some indexed ∧
        ¬ Survives id shelvesPass (correctedFilm reshelved) (filmRow reshelved) indexed := by
  refine ⟨settled_setOverride rfl rfl rfl (by decide) (by decide), family_of_roots (by decide),
    by decide, reports_shelvesPass, ?_⟩
  have hrows : (index id (PARENT_HOPS + 1) shelvesPass (correctedFilm reshelved)).map (·.rows)
      = some [] := by decide
  obtain ⟨indexed, hindex, hempty⟩ := Option.map_eq_some_iff.mp hrows
  refine ⟨indexed, hindex, fun hsurvives => ?_⟩
  obtain ⟨row, hrow, -⟩ := hsurvives.kept
  rw [hempty] at hrow
  exact absurd hrow (by simp)

end MediaCenterSync.ServiceManager
