import MediaCenterSync.Matching.Service

/-!
# The media items a service is indexed into

What a handler reports of an item, the row the index keeps of it, and the correction somebody made
to the row, which is applied again over every report.  `MediaItems` is the table: its two keys (the
row's identifier, and the service's name for the item) are kept unique by every operation on it.
-/

namespace MediaCenterSync.ServiceManager

open Matching (MediaKind MediaFileInfo)

/-- Identifiers from the metadata providers, and the service's own. -/
structure ExternalIds extends Matching.ExternalIds where
  provider : Option String := none
deriving DecidableEq

inductive MediaWatchState where
  | FOLLOWED
  | REQUESTED
deriving DecidableEq

structure ReleasePreferenceRank where
  dimension : String
  values : List String
deriving DecidableEq

structure ReleasePreference where
  ranks : List ReleasePreferenceRank
deriving DecidableEq

/-- A correction.  A field is absent, cleared (`some none`) or set. -/
structure MediaOverride where
  libraryId : Option (Option String) := none
  targetFolder : Option (Option String) := none
  title : Option (Option String) := none
  seriesTitle : Option (Option String) := none
  year : Option (Option ℤ) := none
  seasonNumber : Option (Option ℤ) := none
  episodeNumber : Option (Option ℤ) := none
  episodeNumberEnd : Option (Option ℤ) := none
  overview : Option (Option String) := none
  externalIds : Option ExternalIds := none
  ignored : Option Bool := none
  releasePreference : Option (Option ReleasePreference) := none
deriving DecidableEq

/-- The overridable fields as the service last reported them. -/
structure MediaReported where
  libraryId : String
  title : String
  seriesTitle : Option String
  year : Option ℤ
  seasonNumber : Option ℤ
  episodeNumber : Option ℤ
  episodeNumberEnd : Option (Option ℤ)
  overview : Option String
  externalIds : ExternalIds
deriving DecidableEq

structure NormalisedMediaItem where
  externalId : String
  parentExternalId : Option String
  kind : MediaKind
  title : String
  normalizedTitle : String
  year : Option ℤ
  seasonNumber : Option ℤ
  episodeNumber : Option ℤ
  episodeNumberEnd : Option ℤ
  externalIds : ExternalIds
  overview : Option String
  artworkUrl : Option String
  file : Option MediaFileInfo
  addedAt : Option String
  watchStates : Option (List MediaWatchState)
deriving DecidableEq

structure MediaItem where
  id : ℕ
  serviceId : String
  libraryId : String
  externalId : String
  synthetic : Bool
  parentId : Option ℕ
  parentExternalId : Option String
  kind : MediaKind
  title : String
  normalizedTitle : String
  year : Option ℤ
  seasonNumber : Option ℤ
  episodeNumber : Option ℤ
  episodeNumberEnd : Option ℤ
  externalIds : ExternalIds
  overview : Option String
  artworkUrl : Option String
  file : Option MediaFileInfo
  addedAt : Option String
  watchStates : Option (List MediaWatchState)
  overrides : Option MediaOverride
  reported : Option MediaReported
  ignored : Bool
  childCount : ℕ
deriving DecidableEq

/-! ### Corrections -/

/-- A field of a correction, unless it says what the service says. -/
def unlessReported {α : Type*} [DecidableEq α] (field reported : Option α) : Option α :=
  if field = reported then none else field

/-- The identifiers of a correction the service does not report as such. -/
def identifiersUnlessReported (kept reported : ExternalIds) : Option ExternalIds :=
  let identifiers : ExternalIds :=
    { imdb := unlessReported kept.imdb reported.imdb
      tmdb := unlessReported kept.tmdb reported.tmdb
      tvdb := unlessReported kept.tvdb reported.tvdb
      musicbrainz := unlessReported kept.musicbrainz reported.musicbrainz
      provider := unlessReported kept.provider reported.provider }
  if identifiers = {} then none else some identifiers

/-- The correction without the fields that say exactly what the service already says. -/
def withoutUnchanged (override : Option MediaOverride) (reported : MediaReported) : MediaOverride :=
  match override with
  | none => {}
  | some kept =>
    { libraryId := unlessReported kept.libraryId (some (some reported.libraryId))
      targetFolder :=
        if kept.targetFolder = some none ∨ kept.targetFolder = some (some "") then none
        else kept.targetFolder
      title := unlessReported kept.title (some (some reported.title))
      seriesTitle := unlessReported kept.seriesTitle (some reported.seriesTitle)
      year := unlessReported kept.year (some reported.year)
      seasonNumber := unlessReported kept.seasonNumber (some reported.seasonNumber)
      episodeNumber := unlessReported kept.episodeNumber (some reported.episodeNumber)
      episodeNumberEnd := unlessReported kept.episodeNumberEnd reported.episodeNumberEnd
      overview := unlessReported kept.overview (some reported.overview)
      externalIds := kept.externalIds.bind (identifiersUnlessReported · reported.externalIds)
      ignored := if kept.ignored = some true then kept.ignored else none
      releasePreference := kept.releasePreference }

/-- What the service said, as it stands right now.  The row has no column for its series' title. -/
def snapshotReported (item : MediaItem) : MediaReported where
  libraryId := item.libraryId
  title := item.title
  seriesTitle := none
  year := item.year
  seasonNumber := item.seasonNumber
  episodeNumber := item.episodeNumber
  episodeNumberEnd := some item.episodeNumberEnd
  overview := item.overview
  externalIds := item.externalIds

/-- `{ ...reported, ...override }` -/
def ExternalIds.merge (reported override : ExternalIds) : ExternalIds where
  imdb := override.imdb <|> reported.imdb
  tmdb := override.tmdb <|> reported.tmdb
  tvdb := override.tvdb <|> reported.tvdb
  musicbrainz := override.musicbrainz <|> reported.musicbrainz
  provider := override.provider <|> reported.provider

def restoreReported (item : MediaItem) (reported : MediaReported) : MediaItem :=
  { item with
    ignored := false
    libraryId := reported.libraryId
    title := reported.title
    year := reported.year
    seasonNumber := reported.seasonNumber
    episodeNumber := reported.episodeNumber
    overview := reported.overview
    externalIds := reported.externalIds
    episodeNumberEnd := reported.episodeNumberEnd.join }

/-- `applyOverride`: writes a correction into the fields everything else reads. -/
def applyOverride (item : MediaItem) (instruction : Option MediaOverride)
    (normalize : String → String) : MediaItem :=
  let reported := item.reported.getD (snapshotReported item)
  let override := withoutUnchanged instruction reported
  let item := restoreReported item reported
  if override = {} then
    { item with
      overrides := none
      reported := none
      ignored := false
      normalizedTitle := normalize item.title }
  else
    let title := (override.title.join).getD item.title
    { item with
      libraryId := (override.libraryId.join).getD item.libraryId
      title := title
      year := override.year.getD item.year
      seasonNumber := override.seasonNumber.getD item.seasonNumber
      episodeNumber := override.episodeNumber.getD item.episodeNumber
      episodeNumberEnd := override.episodeNumberEnd.getD item.episodeNumberEnd
      overview := override.overview.getD item.overview
      externalIds := (override.externalIds.map reported.externalIds.merge).getD item.externalIds
      ignored := override.ignored.getD item.ignored
      overrides := some override
      reported := some reported
      normalizedTitle := normalize title }

/-! ### The table -/

/-- What an update of a row leaves alone. -/
def MediaItem.key (row : MediaItem) : ℕ × String × String := (row.id, row.serviceId, row.externalId)

structure MediaItems where
  rows : List MediaItem
  next : ℕ
  id_lt : ∀ row ∈ rows, row.id < next
  ids : rows.Pairwise fun a b => a.id ≠ b.id
  externalIds : rows.Pairwise fun a b => (a.serviceId, a.externalId) ≠ (b.serviceId, b.externalId)

namespace MediaItems

def empty : MediaItems := ⟨[], 0, by simp, .nil, .nil⟩

/-- `findOne({ where: { id } })` -/
def findOne (t : MediaItems) (id : ℕ) : Option MediaItem := t.rows.find? (·.id = id)

def findByExternalId (t : MediaItems) (serviceId externalId : String) : Option MediaItem :=
  t.rows.find? fun row => row.serviceId = serviceId ∧ row.externalId = externalId

/-- `find({ where: { libraryId } })` -/
def ofLibrary (t : MediaItems) (libraryId : String) : List MediaItem :=
  t.rows.filter (·.libraryId = libraryId)

def childrenOf (t : MediaItems) (parentId : ℕ) : List MediaItem :=
  t.rows.filter (·.parentId = some parentId)

def update (t : MediaItems) (f : MediaItem → MediaItem) (hf : ∀ row, (f row).key = row.key) :
    MediaItems where
  rows := t.rows.map f
  next := t.next
  id_lt := by
    intro row hrow
    obtain ⟨old, hold, rfl⟩ := List.mem_map.mp hrow
    rw [show (f old).id = old.id from congrArg (·.1) (hf old)]
    exact t.id_lt old hold
  ids := by
    refine List.pairwise_map.mpr (t.ids.imp fun {a b} hab => ?_)
    rwa [show (f a).id = a.id from congrArg (·.1) (hf a),
      show (f b).id = b.id from congrArg (·.1) (hf b)]
  externalIds := by
    refine List.pairwise_map.mpr (t.externalIds.imp fun {a b} hab => ?_)
    have ha : ((f a).serviceId, (f a).externalId) = (a.serviceId, a.externalId) :=
      congrArg (·.2) (hf a)
    have hb : ((f b).serviceId, (f b).externalId) = (b.serviceId, b.externalId) :=
      congrArg (·.2) (hf b)
    rwa [ha, hb]

/-- Writes columns of the row with an identifier. -/
def modify (t : MediaItems) (id : ℕ) (f : MediaItem → MediaItem)
    (hf : ∀ row, (f row).key = row.key) : MediaItems :=
  t.update (fun row => if row.id = id then f row else row) fun row => by
    split
    · exact hf row
    · rfl

/-- Adds a row under a new identifier, for an item the table has no row of. -/
def insert (t : MediaItems) (row : MediaItem)
    (hnew : t.findByExternalId row.serviceId row.externalId = none) : MediaItems where
  rows := t.rows ++ [{ row with id := t.next }]
  next := t.next + 1
  id_lt := by
    intro added hadded
    rcases List.mem_append.mp hadded with hold | hnew
    · exact (t.id_lt added hold).trans (Nat.lt_succ_self _)
    · rw [List.mem_singleton.mp hnew]
      exact Nat.lt_succ_self _
  ids := by
    refine List.pairwise_append.mpr ⟨t.ids, List.pairwise_singleton .., ?_⟩
    intro a ha b hb
    rw [List.mem_singleton.mp hb]
    exact (t.id_lt a ha).ne
  externalIds := by
    refine List.pairwise_append.mpr ⟨t.externalIds, List.pairwise_singleton .., ?_⟩
    intro a ha b hb heq
    rw [List.mem_singleton.mp hb] at heq
    have hnone := List.find?_eq_none.mp hnew a ha
    simp only [Prod.mk.injEq] at heq
    simp [heq] at hnone

def remove (t : MediaItems) (ids : List ℕ) : MediaItems where
  rows := t.rows.filter (·.id ∉ ids)
  next := t.next
  id_lt row hrow := t.id_lt row (List.mem_of_mem_filter hrow)
  ids := t.ids.filter _
  externalIds := t.externalIds.filter _

end MediaItems

end MediaCenterSync.ServiceManager

/-!
## Corrections of every shape of item

A correction is applied to whatever carries the fields it can touch.  Two of them are columns that
not every shape has.
-/

namespace MediaCenterSync.ServiceManager

open Quality (trim)

/-- The parts of an item a correction can touch. -/
structure OverridableItem where
  libraryId : String
  title : String
  normalizedTitle : String
  seriesTitle : Option (Option String)
  year : Option ℤ
  seasonNumber : Option ℤ
  episodeNumber : Option ℤ
  episodeNumberEnd : Option (Option ℤ)
  overview : Option String
  externalIds : ExternalIds
  overrides : Option MediaOverride
  reported : Option MediaReported
  ignored : Bool
deriving DecidableEq

namespace OverridableItem

def snapshotReported (item : OverridableItem) : MediaReported where
  libraryId := item.libraryId
  title := item.title
  seriesTitle := item.seriesTitle.join
  year := item.year
  seasonNumber := item.seasonNumber
  episodeNumber := item.episodeNumber
  episodeNumberEnd := some item.episodeNumberEnd.join
  overview := item.overview
  externalIds := item.externalIds

def restoreReported (item : OverridableItem) (reported : MediaReported) : OverridableItem :=
  { item with
    ignored := false
    libraryId := reported.libraryId
    title := reported.title
    year := reported.year
    seasonNumber := reported.seasonNumber
    episodeNumber := reported.episodeNumber
    overview := reported.overview
    externalIds := reported.externalIds
    seriesTitle := item.seriesTitle.map fun _ => reported.seriesTitle
    episodeNumberEnd := item.episodeNumberEnd.map fun _ => reported.episodeNumberEnd.join }

/-- What the normalised form is built from: an episode compares under its show's name. -/
def seriesOrOwn (item : OverridableItem) : String :=
  let series := trim (item.seriesTitle.join.getD "")
  if series = "" then item.title else series

def applyOverride (item : OverridableItem) (instruction : Option MediaOverride)
    (normalize : String → String) : OverridableItem :=
  let reported := item.reported.getD item.snapshotReported
  let override := withoutUnchanged instruction reported
  let item := item.restoreReported reported
  if override = {} then
    { item with
      overrides := none
      reported := none
      ignored := false
      normalizedTitle := normalize item.seriesOrOwn }
  else
    let item :=
      { item with
        libraryId := (override.libraryId.join).getD item.libraryId
        title := (override.title.join).getD item.title
        seriesTitle := item.seriesTitle.map override.seriesTitle.getD
        year := override.year.getD item.year
        seasonNumber := override.seasonNumber.getD item.seasonNumber
        episodeNumber := override.episodeNumber.getD item.episodeNumber
        episodeNumberEnd := item.episodeNumberEnd.map override.episodeNumberEnd.getD
        overview := override.overview.getD item.overview
        externalIds := (override.externalIds.map reported.externalIds.merge).getD item.externalIds
        ignored := override.ignored.getD item.ignored
        overrides := some override
        reported := some reported }
    { item with normalizedTitle := normalize item.seriesOrOwn }

end OverridableItem

end MediaCenterSync.ServiceManager
