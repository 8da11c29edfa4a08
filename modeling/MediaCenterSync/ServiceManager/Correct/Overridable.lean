import MediaCenterSync.ServiceManager.Correct.Corrections

/-!
# Corrections resolve on the report

A correction starts from what the service said, so of several corrections in a row only the last one
counts (`corrected_concat`), and what it does not mention is as reported.  The normalised title is
another matter: it is not part of what is snapshot, but made again from the columns that are there.
An episode reports its show's, and a shape without a series' title makes its own of it.  Corrections
undo exactly if and only if what is reported is what would be made: `undoes_iff`.
-/

namespace MediaCenterSync.ServiceManager

open OverridableItem (seriesOrOwn)

/-- An item as a handler reports it. -/
structure OverridableReport where
  libraryId : String
  title : String
  normalizedTitle : String
  seriesTitle : Option (Option String)
  year : Option ℤ
  seasonNumber : Option ℤ
  episodeNumber : Option ℤ
  episodeNumberEnd : Option (Option ℤ)
  overview : Option String
  externalIds : ExternalIds

def OverridableReport.item (report : OverridableReport) : OverridableItem where
  libraryId := report.libraryId
  title := report.title
  normalizedTitle := report.normalizedTitle
  seriesTitle := report.seriesTitle
  year := report.year
  seasonNumber := report.seasonNumber
  episodeNumber := report.episodeNumber
  episodeNumberEnd := report.episodeNumberEnd
  overview := report.overview
  externalIds := report.externalIds
  overrides := none
  reported := none
  ignored := false

def corrected (normalize : String → String) (report : OverridableReport)
    (instructions : List (Option MediaOverride)) : OverridableItem :=
  instructions.foldl (fun item instruction => item.applyOverride instruction normalize) report.item

/-! ### What a correction is to do -/

def Keeps {α β : Type*} (mention : Option α) (value reported : β) : Prop :=
  mention = none → value = reported

/-- What the correction does not mention is as reported. -/
structure KeepsRest (report : OverridableReport) (override : MediaOverride)
    (item : OverridableItem) : Prop where
  libraryId : Keeps override.libraryId item.libraryId report.libraryId
  title : Keeps override.title item.title report.title
  seriesTitle : Keeps override.seriesTitle item.seriesTitle report.seriesTitle
  year : Keeps override.year item.year report.year
  seasonNumber : Keeps override.seasonNumber item.seasonNumber report.seasonNumber
  episodeNumber : Keeps override.episodeNumber item.episodeNumber report.episodeNumber
  episodeNumberEnd : Keeps override.episodeNumberEnd item.episodeNumberEnd report.episodeNumberEnd
  overview : Keeps override.overview item.overview report.overview
  ignored : Keeps override.ignored item.ignored false
  imdb : Keeps (override.externalIds.bind (·.imdb)) item.externalIds.imdb report.externalIds.imdb
  tmdb : Keeps (override.externalIds.bind (·.tmdb)) item.externalIds.tmdb report.externalIds.tmdb
  tvdb : Keeps (override.externalIds.bind (·.tvdb)) item.externalIds.tvdb report.externalIds.tvdb
  musicbrainz : Keeps (override.externalIds.bind (·.musicbrainz)) item.externalIds.musicbrainz
    report.externalIds.musicbrainz
  provider : Keeps (override.externalIds.bind (·.provider)) item.externalIds.provider
    report.externalIds.provider

def Says {α : Type*} (mention : Option α) (reported : Option α) : Prop :=
  mention = none ∨ mention = reported

structure Repeats (report : OverridableReport) (override : MediaOverride) : Prop where
  libraryId : Says override.libraryId (some (some report.libraryId))
  targetFolder : Says override.targetFolder (some none) ∨ override.targetFolder = some (some "")
  title : Says override.title (some (some report.title))
  seriesTitle : Says override.seriesTitle (some report.seriesTitle.join)
  year : Says override.year (some report.year)
  seasonNumber : Says override.seasonNumber (some report.seasonNumber)
  episodeNumber : Says override.episodeNumber (some report.episodeNumber)
  episodeNumberEnd : Says override.episodeNumberEnd (some report.episodeNumberEnd.join)
  overview : Says override.overview (some report.overview)
  imdb : Says (override.externalIds.bind (·.imdb)) report.externalIds.imdb
  tmdb : Says (override.externalIds.bind (·.tmdb)) report.externalIds.tmdb
  tvdb : Says (override.externalIds.bind (·.tvdb)) report.externalIds.tvdb
  musicbrainz : Says (override.externalIds.bind (·.musicbrainz)) report.externalIds.musicbrainz
  provider : Says (override.externalIds.bind (·.provider)) report.externalIds.provider
  ignored : Says override.ignored (some false)
  releasePreference : override.releasePreference = none

/-- Corrections resolve on the report and undo exactly, whatever was corrected before. -/
structure Undoes (normalize : String → String) (report : OverridableReport) : Prop where
  last : ∀ earlier instruction,
    corrected normalize report (earlier ++ [instruction]) = corrected normalize report [instruction]
  keeps : ∀ earlier instruction, KeepsRest report (instruction.getD {})
    (corrected normalize report (earlier ++ [instruction]))
  normalizedTitle : ∀ earlier instruction,
    (corrected normalize report (earlier ++ [instruction])).title = report.title →
    (corrected normalize report (earlier ++ [instruction])).seriesTitle = report.seriesTitle →
    (corrected normalize report (earlier ++ [instruction])).normalizedTitle = report.normalizedTitle
  cleared : ∀ earlier, corrected normalize report (earlier ++ [none]) = report.item
  repeated : ∀ earlier override, Repeats report override →
    corrected normalize report (earlier ++ [some override]) = report.item

/-! ### Only the last one counts -/

variable {normalize : String → String} {report : OverridableReport}

/-- What a correction starts from: the item, or what was kept of it when it was corrected first. -/
def RestsOn (report : OverridableReport) (item : OverridableItem) : Prop :=
  item.reported.getD item.snapshotReported = report.item.snapshotReported ∧
    item.seriesTitle.isSome = report.seriesTitle.isSome ∧
    item.episodeNumberEnd.isSome = report.episodeNumberEnd.isSome

theorem map_const_join {α : Type*} {value : Option (Option α)} {other : Option (Option α)}
    (h : other.isSome = value.isSome) : (other.map fun _ => value.join) = value := by
  cases value with
  | none =>
    obtain rfl : other = none := Option.isSome_eq_false_iff.mp h |> Option.isNone_iff_eq_none.mp
    rfl
  | some value =>
    obtain ⟨old, rfl⟩ := Option.isSome_iff_exists.mp (h.trans rfl)
    rfl

theorem restoreReported_of_restsOn {item : OverridableItem} (h : RestsOn report item) :
    item.restoreReported report.item.snapshotReported =
      { report.item with
        normalizedTitle := item.normalizedTitle
        overrides := item.overrides
        reported := item.reported } := by
  have hseries := map_const_join h.2.1
  have hend := map_const_join h.2.2
  simp only [OverridableItem.restoreReported, OverridableItem.snapshotReported,
    OverridableReport.item, Option.join_some, hseries, hend]

theorem restsOn_item (report : OverridableReport) : RestsOn report report.item :=
  ⟨rfl, rfl, rfl⟩

/-- **A correction depends on the report alone.** -/
theorem applyOverride_of_restsOn {item : OverridableItem} (h : RestsOn report item)
    (instruction : Option MediaOverride) :
    item.applyOverride instruction normalize = report.item.applyOverride instruction normalize := by
  have hitem := restoreReported_of_restsOn h
  have hreport := restoreReported_of_restsOn (restsOn_item report)
  unfold OverridableItem.applyOverride
  dsimp only
  rw [h.1, (restsOn_item report).1, hitem, hreport]
  split <;> rfl

theorem restsOn_applyOverride (instruction : Option MediaOverride) :
    RestsOn report (report.item.applyOverride instruction normalize) := by
  have hreport := restoreReported_of_restsOn (restsOn_item report)
  unfold OverridableItem.applyOverride
  dsimp only
  rw [(restsOn_item report).1, hreport]
  split
  · exact ⟨rfl, rfl, rfl⟩
  · exact ⟨rfl, Option.isSome_map .., Option.isSome_map ..⟩

theorem restsOn_corrected (instructions : List (Option MediaOverride)) :
    RestsOn report (corrected normalize report instructions) := by
  induction instructions using List.reverseRecOn with
  | nil => exact restsOn_item report
  | append_singleton earlier instruction ih =>
    rw [corrected, List.foldl_append, List.foldl_cons, List.foldl_nil, ← corrected,
      applyOverride_of_restsOn ih]
    exact restsOn_applyOverride instruction

/-- **Of several corrections only the last one counts.** -/
theorem corrected_concat (earlier : List (Option MediaOverride))
    (instruction : Option MediaOverride) :
    corrected normalize report (earlier ++ [instruction]) =
      report.item.applyOverride instruction normalize := by
  rw [corrected, List.foldl_append, List.foldl_cons, List.foldl_nil, ← corrected]
  exact applyOverride_of_restsOn (restsOn_corrected earlier) instruction

/-! ### What is not mentioned -/

theorem orElse_unlessReported {α : Type*} [DecidableEq α] (kept reported : Option α) :
    (unlessReported kept reported <|> reported) = (kept <|> reported) := by
  unfold unlessReported
  split
  · next heq =>
    rw [heq]
    cases reported <;> rfl
  · rfl

/-- Identifiers that say what is reported are merged to the same whether they are dropped or not. -/
theorem merge_unlessReported (kept reported : ExternalIds) :
    ((identifiersUnlessReported kept reported).map reported.merge).getD reported =
      reported.merge kept := by
  have hmerge : ∀ identifiers : ExternalIds,
      identifiers = { imdb := unlessReported kept.imdb reported.imdb
                      tmdb := unlessReported kept.tmdb reported.tmdb
                      tvdb := unlessReported kept.tvdb reported.tvdb
                      musicbrainz := unlessReported kept.musicbrainz reported.musicbrainz
                      provider := unlessReported kept.provider reported.provider } →
        reported.merge identifiers = reported.merge kept := by
    rintro identifiers rfl
    simp only [ExternalIds.merge, orElse_unlessReported]
  unfold identifiersUnlessReported
  dsimp only
  split
  · next hempty =>
    rw [← hmerge _ hempty.symm]
    rfl
  · exact hmerge _ rfl

/-- What a pruned correction makes of the columns. -/
def OverridableReport.under (report : OverridableReport) (override : MediaOverride) :
    OverridableItem :=
  { report.item with
    libraryId := (override.libraryId.join).getD report.libraryId
    title := (override.title.join).getD report.title
    seriesTitle := report.seriesTitle.map override.seriesTitle.getD
    year := override.year.getD report.year
    seasonNumber := override.seasonNumber.getD report.seasonNumber
    episodeNumber := override.episodeNumber.getD report.episodeNumber
    episodeNumberEnd := report.episodeNumberEnd.map override.episodeNumberEnd.getD
    overview := override.overview.getD report.overview
    externalIds := (override.externalIds.map report.externalIds.merge).getD report.externalIds
    ignored := override.ignored.getD false
    overrides := if override = {} then none else some override
    reported := if override = {} then none else some report.item.snapshotReported }

theorem under_empty (report : OverridableReport) : report.under {} = report.item := by
  have hmap {α : Type} (value : Option α) : value.map (none : Option α).getD = value := by
    cases value <;> rfl
  rw [OverridableReport.under, if_pos rfl, if_pos rfl]
  dsimp only
  rw [hmap, hmap]
  rfl

theorem applyOverride_item (instruction : Option MediaOverride) :
    report.item.applyOverride instruction normalize =
      { report.under (withoutUnchanged instruction report.item.snapshotReported) with
        normalizedTitle := normalize (report.under
          (withoutUnchanged instruction report.item.snapshotReported)).seriesOrOwn } := by
  have hreport := restoreReported_of_restsOn (restsOn_item report)
  unfold OverridableItem.applyOverride
  dsimp only
  rw [(restsOn_item report).1, hreport]
  split
  · next hempty =>
    rw [hempty, under_empty]
    rfl
  · next hne =>
    rw [OverridableReport.under, if_neg hne, if_neg hne]
    rfl

/-- The identifiers a correction leaves are those of a merge with what is reported. -/
theorem externalIds_under (report : OverridableReport) (override : MediaOverride) :
    (report.under (withoutUnchanged (some override) report.item.snapshotReported)).externalIds =
      (override.externalIds.map report.externalIds.merge).getD report.externalIds := by
  have hreported : report.item.snapshotReported.externalIds = report.externalIds := rfl
  simp only [OverridableReport.under, withoutUnchanged, hreported]
  cases override.externalIds with
  | none => rfl
  | some kept => exact merge_unlessReported kept report.externalIds

theorem keeps_identifier {get : ExternalIds → Option String}
    (hget : ∀ reported override : ExternalIds,
      get (reported.merge override) = (get override <|> get reported))
    (mention : Option ExternalIds) (reported : ExternalIds) :
    Keeps (mention.bind get) (get ((mention.map reported.merge).getD reported)) (get reported) := by
  intro hnone
  cases mention with
  | none => rfl
  | some override =>
    rw [Option.bind_some] at hnone
    rw [Option.map_some, Option.getD_some, hget, hnone]
    rfl

/-- **What a correction does not mention is as reported.** -/
theorem keepsRest_under (override : MediaOverride) : KeepsRest report override
    (report.under (withoutUnchanged (some override) report.item.snapshotReported)) := by
  have hmap {α : Type} (value : Option α) : value.map (none : Option α).getD = value := by
    cases value <;> rfl
  have hids := externalIds_under report override
  refine ⟨?_, ?_, ?_, ?_, ?_, ?_, ?_, ?_, ?_, ?_, ?_, ?_, ?_, ?_⟩
  · intro hnone
    simp [OverridableReport.under, withoutUnchanged, hnone]
  · intro hnone
    simp [OverridableReport.under, withoutUnchanged, hnone]
  · intro hnone
    simp only [OverridableReport.under, withoutUnchanged, hnone, unlessReported_none, hmap]
  · intro hnone
    simp [OverridableReport.under, withoutUnchanged, hnone]
  · intro hnone
    simp [OverridableReport.under, withoutUnchanged, hnone]
  · intro hnone
    simp [OverridableReport.under, withoutUnchanged, hnone]
  · intro hnone
    simp only [OverridableReport.under, withoutUnchanged, hnone, unlessReported_none, hmap]
  · intro hnone
    simp [OverridableReport.under, withoutUnchanged, hnone]
  · intro hnone
    simp [OverridableReport.under, withoutUnchanged, hnone]
  all_goals rw [hids]; exact keeps_identifier (fun _ _ => rfl) override.externalIds _

theorem KeepsRest.renormalised {override : MediaOverride} {item : OverridableItem}
    (h : KeepsRest report override item) (normalizedTitle : String) :
    KeepsRest report override { item with normalizedTitle := normalizedTitle } := by
  obtain ⟨_, _, _, _, _, _, _, _, _, _, _, _, _, _⟩ := h
  constructor <;> assumption

/-! ### What changes nothing -/

theorem unlessReported_of_kept {α : Type*} [DecidableEq α] {mention reported : Option α}
    (h : Says mention reported) : unlessReported mention reported = none := by
  rcases h with rfl | rfl
  · exact unlessReported_none reported
  · exact if_pos rfl

theorem identifiersUnlessReported_of_kept {kept reported : ExternalIds}
    (himdb : Says kept.imdb reported.imdb) (htmdb : Says kept.tmdb reported.tmdb)
    (htvdb : Says kept.tvdb reported.tvdb) (hmusic : Says kept.musicbrainz reported.musicbrainz)
    (hprovider : Says kept.provider reported.provider) :
    identifiersUnlessReported kept reported = none := by
  unfold identifiersUnlessReported
  dsimp only
  rw [unlessReported_of_kept himdb, unlessReported_of_kept htmdb, unlessReported_of_kept htvdb,
    unlessReported_of_kept hmusic, unlessReported_of_kept hprovider, if_pos rfl]

theorem withoutUnchanged_of_repeats {override : MediaOverride} (h : Repeats report override) :
    withoutUnchanged (some override) report.item.snapshotReported = {} := by
  have hids :
      override.externalIds.bind (identifiersUnlessReported · report.externalIds) = none := by
    have himdb := h.imdb
    have htmdb := h.tmdb
    have htvdb := h.tvdb
    have hmusic := h.musicbrainz
    have hprovider := h.provider
    cases hkept : override.externalIds with
    | none => rfl
    | some kept =>
      rw [hkept] at himdb htmdb htvdb hmusic hprovider
      exact identifiersUnlessReported_of_kept himdb htmdb htvdb hmusic hprovider
  have hfolder : (if override.targetFolder = some none ∨ override.targetFolder = some (some "")
      then none else override.targetFolder) = none := by
    rcases h.targetFolder with (hfolder | hfolder) | hfolder <;> simp [hfolder]
  have hignored : (if override.ignored = some true then override.ignored else none) = none := by
    rcases h.ignored with hignored | hignored <;> simp [hignored]
  dsimp only [withoutUnchanged, OverridableItem.snapshotReported, OverridableReport.item]
  rw [unlessReported_of_kept h.libraryId, hfolder, unlessReported_of_kept h.title,
    unlessReported_of_kept h.seriesTitle, unlessReported_of_kept h.year,
    unlessReported_of_kept h.seasonNumber, unlessReported_of_kept h.episodeNumber,
    unlessReported_of_kept h.episodeNumberEnd, unlessReported_of_kept h.overview, hids,
    hignored, h.releasePreference]

/-! ### When corrections undo -/

/-- The normalised title that is reported is the one that would be made. -/
def NormalisedAlike (normalize : String → String) (report : OverridableReport) : Prop :=
  report.normalizedTitle = normalize report.item.seriesOrOwn

theorem applyOverride_of_unchanged {instruction : Option MediaOverride}
    (h : withoutUnchanged instruction report.item.snapshotReported = {}) :
    report.item.applyOverride instruction normalize =
      { report.item with normalizedTitle := normalize report.item.seriesOrOwn } := by
  rw [applyOverride_item, h, under_empty]

theorem applyOverride_eq_item {instruction : Option MediaOverride}
    (h : NormalisedAlike normalize report)
    (hunchanged : withoutUnchanged instruction report.item.snapshotReported = {}) :
    report.item.applyOverride instruction normalize = report.item := by
  rw [applyOverride_of_unchanged hunchanged, ← h]
  rfl

theorem seriesOrOwn_congr {item other : OverridableItem} (htitle : item.title = other.title)
    (hseries : item.seriesTitle = other.seriesTitle) : item.seriesOrOwn = other.seriesOrOwn := by
  unfold seriesOrOwn
  rw [htitle, hseries]

theorem normalizedTitle_applyOverride (instruction : Option MediaOverride) :
    (report.item.applyOverride instruction normalize).normalizedTitle =
      normalize (report.item.applyOverride instruction normalize).seriesOrOwn := by
  rw [applyOverride_item]
  rfl

/-- **Corrections undo exactly if and only if the normalised title that is reported is the one that
is made of the columns.**  All else resolves on the report in any case. -/
theorem undoes_iff (normalize : String → String) (report : OverridableReport) :
    Undoes normalize report ↔ NormalisedAlike normalize report := by
  constructor
  · intro h
    have hcleared := h.cleared []
    rw [corrected_concat, applyOverride_of_unchanged rfl] at hcleared
    exact (congrArg OverridableItem.normalizedTitle hcleared).symm
  · intro h
    have hone (instruction : Option MediaOverride) : corrected normalize report [instruction] =
        report.item.applyOverride instruction normalize := rfl
    refine ⟨?_, ?_, ?_, ?_, ?_⟩
    · intro earlier instruction
      rw [corrected_concat, hone]
    · intro earlier instruction
      rw [corrected_concat, applyOverride_item]
      cases instruction with
      | none => exact (keepsRest_under {}).renormalised _
      | some override => exact (keepsRest_under override).renormalised _
    · intro earlier instruction htitle hseries
      rw [corrected_concat] at htitle hseries ⊢
      rw [normalizedTitle_applyOverride, h]
      exact congrArg normalize (seriesOrOwn_congr htitle hseries)
    · intro earlier
      rw [corrected_concat]
      exact applyOverride_eq_item h rfl
    · intro earlier override hrepeats
      rw [corrected_concat]
      exact applyOverride_eq_item h (withoutUnchanged_of_repeats hrepeats)

/-- An episode of the index as it is reported: it has no column for its show. -/
def reportedEpisode : OverridableReport where
  libraryId := "shows"
  title := "Dulcinea"
  normalizedTitle := "the expanse"
  seriesTitle := none
  year := some 2015
  seasonNumber := some 1
  episodeNumber := some 1
  episodeNumberEnd := some none
  overview := none
  externalIds := {}

/-- Once it is corrected and put back, it compares under its own name. -/
theorem not_undoes_reportedEpisode :
    ¬∀ (normalize : String → String) (report : OverridableReport), Undoes normalize report := by
  intro h
  have hcleared := (h (String.map Char.toLower) reportedEpisode).cleared
    [some { year := some (some 2016) }]
  revert hcleared
  decide +kernel

end MediaCenterSync.ServiceManager
