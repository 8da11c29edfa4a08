import MediaCenterSync.Matching.Service

/-!
# Coordinates and what argues them away

Two seasons of different numbers, or two episodes of different coordinates, are not the same media.
Three strategies check the coordinates, the alignment of two numberings is evidence of its own, and
an identifier is asked whether it names the episode; but an identifier two seasons share is believed
as it is, an identifier of a recording that names the episode is too, and a path is believed of
anything.  These are all there is: `keepsApart_iff`.
-/

namespace MediaCenterSync.Matching

variable (toLowerCase : String → String)

/-- Two seasons, or two episodes, whose coordinates are known and are not the same. -/
def KnownApart (left right : MatchCandidate) : Prop :=
  left.kind = .SEASON ∧ right.kind = .SEASON ∧
      (∃ s t, left.seasonNumber = some s ∧ right.seasonNumber = some t ∧ s ≠ t) ∨
    left.kind = .EPISODE ∧ right.kind = .EPISODE ∧
      ∃ s e s' e', left.seasonNumber = some s ∧ left.episodeNumber = some e ∧
        right.seasonNumber = some s' ∧ right.episodeNumber = some e' ∧ (s, e) ≠ (s', e')

/-- What may join them all the same: the bytes, and of two episodes an identifier of a work that
names the episode on both sides, or the alignment of the two numberings. -/
def MayJoin (left right : MatchCandidate) (options : MatchOptions) : Prop :=
  sameText (left.file.bind (·.checksum)) (right.file.bind (·.checksum)) ∨
    sameText (left.file.bind (·.contentId)) (right.file.bind (·.contentId)) ∨
    left.kind = .EPISODE ∧ (agreesOnAnEpisodeIdentifier left right WORK_IDENTIFIERS options ∨
      options.absolutePairs.has left.id right.id)

instance (left right : MatchCandidate) (options : MatchOptions) :
    Decidable (MayJoin left right options) :=
  inferInstanceAs (Decidable (_ ∨ _ ∨ _ ∧ (_ ∨ _)))

/-- **Coordinates cannot be argued away.** -/
def KeepsApart (left right : MatchCandidate) (options : MatchOptions) : Prop :=
  KnownApart left right → ¬ MayJoin left right options →
    score toLowerCase left right options = none

/-- Nothing joins two seasons: no identifier of a work, and unless the running times tell them
apart no other identifier and no path. -/
def SeasonsUnjoined (left right : MatchCandidate) : Prop :=
  ¬ WORK_IDENTIFIERS.any (agreesOn left right) ∧
    (separateCuts left right ∨ ¬ CATALOGUE_IDENTIFIERS.any (agreesOn left right) ∧
      pathMatch toLowerCase left right = none)

/-- Nothing joins two episodes: no identifier of a recording that names the episode on both sides,
and no path. -/
def EpisodesUnjoined (left right : MatchCandidate) (options : MatchOptions) : Prop :=
  ¬ agreesOnAnEpisodeIdentifier left right CATALOGUE_IDENTIFIERS options ∧
    pathMatch toLowerCase left right = none

variable {toLowerCase} {left right : MatchCandidate} {options : MatchOptions}

/-- What is left of the strategies once the bytes, the numbers, the alignment and the title are
out. -/
theorem score_eq_of_apart (hkind : left.kind = right.kind)
    (hbytes : checksumMatch left right = none) (hwork : contradicted left right = false)
    (hnumbers : seasonEpisodeMatch left right options = none)
    (habsolute : absoluteEpisodeMatch left right options = none)
    (htitle : titleMatch left right options = none) :
    score toLowerCase left right options =
      (externalIdMatch left right WORK_IDENTIFIERS options).or
        (if separateCuts left right then none
        else (externalIdMatch left right CATALOGUE_IDENTIFIERS options).or
          (pathMatch toLowerCase left right)) := by
  unfold score
  rw [if_neg (not_not.mpr hkind), hbytes, hwork, hnumbers, habsolute, htitle]
  simp only [Option.none_or, Bool.false_eq_true, false_or]

theorem checksumMatch_eq_none (h : ¬ MayJoin left right options) :
    checksumMatch left right = none :=
  if_neg fun hsame => h (hsame.imp_right .inl)

theorem titleMatch_eq_none_of_season (hkind : left.kind = .EPISODE ∨ left.kind = .SEASON)
    (hseason : left.seasonNumber ≠ right.seasonNumber) : titleMatch left right options = none := by
  unfold titleMatch
  dsimp only
  by_cases hfloor :
      similarity options.arithmetic left.normalizedTitle right.normalizedTitle < TITLE_FLOOR
  · rw [if_pos hfloor]
  · rw [if_neg hfloor, if_pos ⟨hkind, .inr hseason⟩]

theorem externalIdMatch_of_ne_episode {providers : List Provider} (hkind : left.kind ≠ .EPISODE) :
    externalIdMatch left right providers options = none ↔
      ¬ providers.any (agreesOn left right) := by
  unfold externalIdMatch
  by_cases hagrees : providers.any (agreesOn left right) = true <;> simp [hagrees, hkind]

theorem score_seasons (hleft : left.kind = .SEASON) (hright : right.kind = .SEASON)
    (hseason : left.seasonNumber ≠ right.seasonNumber) (hbytes : checksumMatch left right = none) :
    score toLowerCase left right options = none ↔ SeasonsUnjoined toLowerCase left right := by
  have hne : left.kind ≠ .EPISODE := by rw [hleft]; decide
  have hnumbers : seasonEpisodeMatch left right options = none := by
    unfold seasonEpisodeMatch
    rw [if_neg (by simp [hleft]), if_pos (.inr hseason)]
  rw [score_eq_of_apart (hleft.trans hright.symm) hbytes (by simp [contradicted, hleft]) hnumbers
    (if_pos hne) (titleMatch_eq_none_of_season (.inr hleft) hseason), Option.or_eq_none_iff,
    externalIdMatch_of_ne_episode hne, SeasonsUnjoined]
  refine and_congr_right fun _ => ?_
  by_cases hcuts : separateCuts left right = true
  · simp [hcuts]
  · rw [if_neg hcuts, Option.or_eq_none_iff, externalIdMatch_of_ne_episode hne]
    simp only [hcuts, Bool.false_eq_true, false_or]

theorem externalIdMatch_episodes {providers : List Provider} (hkind : left.kind = .EPISODE)
    (hknown : left.seasonNumber ≠ right.seasonNumber ∨ left.episodeNumber ≠ right.episodeNumber) :
    externalIdMatch left right providers options = none ↔
      ¬ agreesOnAnEpisodeIdentifier left right providers options := by
  -- An identifier that names the episode is one the two sides agree on.
  have hagrees : agreesOnAnEpisodeIdentifier left right providers options = true →
      providers.any (agreesOn left right) = true := by
    unfold agreesOnAnEpisodeIdentifier
    split
    · intro h
      obtain ⟨provider, hprovider, hvalue⟩ := List.any_eq_true.mp h
      refine List.any_eq_true.mpr ⟨provider, hprovider, ?_⟩
      unfold agreesOn
      revert hvalue
      cases identifierValue left.externalIds provider <;> simp +contextual
    · intro h
      cases h
  unfold externalIdMatch
  by_cases hnames : agreesOnAnEpisodeIdentifier left right providers options = true
  · simp [hagrees hnames, hkind, hnames]
  · by_cases hany : providers.any (agreesOn left right) = true
    · simp [hany, hkind, hnames, hknown]
    · simp [hany, hnames]

theorem score_episodes (hleft : left.kind = .EPISODE) (hright : right.kind = .EPISODE)
    (hapart : left.seasonNumber ≠ right.seasonNumber ∨ left.episodeNumber ≠ right.episodeNumber)
    (hjoin : ¬ MayJoin left right options) :
    score toLowerCase left right options = none ↔
      EpisodesUnjoined toLowerCase left right options := by
  have hnumbers : seasonEpisodeMatch left right options = none := by
    unfold seasonEpisodeMatch
    rcases hapart with hseason | hepisode
    · simp [hleft, hseason]
    · simp [hleft, hepisode]
  have htitle : titleMatch left right options = none := by
    unfold titleMatch
    dsimp only
    rcases hapart with hseason | hepisode
    · simp [hleft, hseason]
    · simp [hleft, hepisode]
  have habsolute : absoluteEpisodeMatch left right options = none := by
    have hnot : ¬ options.absolutePairs.has left.id right.id = true :=
      fun h => hjoin (.inr (.inr ⟨hleft, .inr h⟩))
    unfold absoluteEpisodeMatch
    simp [hleft, hnot]
  have hwork : ¬ agreesOnAnEpisodeIdentifier left right WORK_IDENTIFIERS options = true :=
    fun h => hjoin (.inr (.inr ⟨hleft, .inl h⟩))
  rw [score_eq_of_apart (hleft.trans hright.symm) (checksumMatch_eq_none hjoin)
    (by simp [contradicted, hleft]) hnumbers habsolute htitle,
    (externalIdMatch_episodes hleft hapart).mpr hwork, Option.none_or,
    if_neg (by simp [separateCuts, hleft]), Option.or_eq_none_iff,
    externalIdMatch_episodes hleft hapart, EpisodesUnjoined]

variable (toLowerCase left right options) in
/-- **Coordinates cannot be argued away** exactly where no identifier is shared by two seasons, no
recording is named by two episodes, and no path is the same. -/
theorem keepsApart_iff :
    KeepsApart toLowerCase left right options ↔
      (KnownApart left right → ¬ MayJoin left right options →
        (left.kind = .SEASON → SeasonsUnjoined toLowerCase left right) ∧
        (left.kind = .EPISODE → EpisodesUnjoined toLowerCase left right options)) := by
  refine forall₂_congr fun hapart hjoin => ?_
  rcases hapart with ⟨hleft, hright, s, t, hs, ht, hne⟩ |
    ⟨hleft, hright, s, e, s', e', hs, he, hs', he', hne⟩
  · have hseason : left.seasonNumber ≠ right.seasonNumber := by
      rw [hs, ht]
      exact fun heq => hne (Option.some.inj heq)
    rw [score_seasons hleft hright hseason (checksumMatch_eq_none hjoin)]
    simp [hleft]
  · have hapart : left.seasonNumber ≠ right.seasonNumber ∨
        left.episodeNumber ≠ right.episodeNumber := by
      rw [hs, he, hs', he']
      simpa [Prod.ext_iff, imp_iff_not_or] using hne
    rw [score_episodes hleft hright hapart hjoin]
    simp [hleft]

/-- A season of a show whose server stamps the identifier of the show on every row. -/
def stampedSeason (id : String) (number : ℤ) : MatchCandidate where
  id := id
  serviceId := id
  peerId := none
  parentId := none
  kind := .SEASON
  title := "Dark"
  normalizedTitle := "dark"
  year := none
  seasonNumber := some number
  episodeNumber := none
  externalIds := { tvdb := some "334824" }
  file := none

/-- **The identifier of the show joins its first season to its second.** -/
theorem not_keepsApart_stamped :
    ¬ KeepsApart id (stampedSeason "a" 1) (stampedSeason "b" 2)
      { threshold := 8 / 10, arithmetic := .exact } := by
  intro h
  have hnone := h (.inl ⟨rfl, rfl, 1, 2, rfl, rfl, by decide⟩) (by decide)
  revert hnone
  decide +kernel

end MediaCenterSync.Matching
