import Mathlib.Algebra.BigOperators.Group.Finset.Basic
import MediaCenterSync.Matching.Service

/-!
# The scoring does not depend on the side it is asked from

Two rows score the same whichever of them is asked about the other (`score_comm`), as long as the
parents and the episodes the options pair are paired both ways round.
-/

namespace MediaCenterSync.Matching

/-! ### Titles -/

theorem diceCoefficient_comm (arithmetic : Arithmetic) (left right : String) :
    diceCoefficient arithmetic left right = diceCoefficient arithmetic right left := by
  have hshared : ∀ l r : List (ℕ × ℕ), (l.dedup.map fun bigram =>
      min (l.count bigram) (r.count bigram)).sum =
        ∑ bigram ∈ l.toFinset ∪ r.toFinset, min (l.count bigram) (r.count bigram) := by
    intro l r
    have hdedup : l.dedup.toFinset = l.toFinset := by
      ext bigram
      simp
    rw [← List.sum_toFinset _ (List.nodup_dedup l), hdedup]
    refine Finset.sum_subset Finset.subset_union_left fun bigram _ hnot => ?_
    rw [List.count_eq_zero.mpr (List.mem_toFinset.not.mp hnot), Nat.zero_min]
  unfold diceCoefficient
  dsimp only
  rw [hshared, hshared, Finset.union_comm, Nat.add_comm (bigrams left).length]
  simp only [min_comm ((bigrams left).count _), or_comm (a := bigrams left = [])]

/-- A title inside another that is no longer is the other. -/
theorem isInfix_comm_of_length {l r : List ℕ} (h : l.length = r.length) : l <:+: r ↔ r <:+: l := by
  constructor
  · intro hwithin
    rw [hwithin.eq_of_length h]
  · intro hwithin
    rw [hwithin.eq_of_length h.symm]

theorem similarity_comm (arithmetic : Arithmetic) (left right : String) :
    similarity arithmetic left right = similarity arithmetic right left := by
  unfold similarity
  by_cases heq : left = right
  · rw [heq]
  rw [if_neg heq, if_neg (Ne.symm heq)]
  by_cases hempty : left = "" ∨ right = ""
  · rw [if_pos hempty, if_pos hempty.symm]
  rw [if_neg hempty, if_neg (mt Or.symm hempty), diceCoefficient_comm arithmetic right left]
  dsimp only
  rcases lt_trichotomy (units left).length (units right).length with hlt | hsame | hlt
  · rw [if_neg hlt.not_ge, if_pos hlt.le, if_neg hlt.not_ge, if_pos hlt.le]
  · rw [if_pos hsame.ge, if_pos hsame.le, if_pos hsame.ge, if_pos hsame.le]
    simp only [hsame, isInfix_comm_of_length hsame]
  · rw [if_pos hlt.le, if_neg hlt.not_ge, if_pos hlt.le, if_neg hlt.not_ge]

/-! ### The strategies -/

variable {toLowerCase : String → String} {left right : MatchCandidate} {options : MatchOptions}

theorem sameText_comm (left right : Option String) : sameText left right = sameText right left := by
  cases left <;> cases right <;> (simp [sameText]; try grind)

theorem checksumMatch_comm (left right : MatchCandidate) :
    checksumMatch left right = checksumMatch right left := by
  unfold checksumMatch
  rw [sameText_comm (left.file.bind (·.checksum)), sameText_comm (left.file.bind (·.contentId))]

theorem agreesOn_comm (left right : MatchCandidate) (provider : Provider) :
    agreesOn left right provider = agreesOn right left provider := by
  unfold agreesOn
  cases identifierValue left.externalIds provider <;>
    cases identifierValue right.externalIds provider <;> simp [eq_comm]

theorem differsOn_comm (left right : MatchCandidate) (provider : Provider) :
    differsOn left right provider = differsOn right left provider := by
  unfold differsOn
  cases identifierValue left.externalIds provider <;>
    cases identifierValue right.externalIds provider <;> simp [eq_comm]

theorem contradicted_comm (hkind : left.kind = right.kind) :
    contradicted left right = contradicted right left := by
  unfold contradicted
  rw [hkind, funext (differsOn_comm left right)]

theorem agreesOnAnEpisodeIdentifier_comm (left right : MatchCandidate) (providers : List Provider)
    (options : MatchOptions) : agreesOnAnEpisodeIdentifier left right providers options =
      agreesOnAnEpisodeIdentifier right left providers options := by
  unfold agreesOnAnEpisodeIdentifier
  cases options.episodeIdentifiers.lookup left.id with
  | none => cases options.episodeIdentifiers.lookup right.id <;> rfl
  | some leftKeys =>
    cases options.episodeIdentifiers.lookup right.id with
    | none => rfl
    | some rightKeys =>
      dsimp only
      congr 1
      funext provider
      cases identifierValue left.externalIds provider <;>
        cases identifierValue right.externalIds provider <;> (simp; try grind)

theorem externalIdMatch_comm (hkind : left.kind = right.kind) (providers : List Provider) :
    externalIdMatch left right providers options =
      externalIdMatch right left providers options := by
  unfold externalIdMatch
  rw [funext (agreesOn_comm left right), agreesOnAnEpisodeIdentifier_comm left, hkind]
  have hmissing : (left.seasonNumber = none ∨ right.seasonNumber = none ∨
      left.episodeNumber = none ∨ right.episodeNumber = none) ↔ (right.seasonNumber = none ∨
        left.seasonNumber = none ∨ right.episodeNumber = none ∨ left.episodeNumber = none) := by
    tauto
  simp only [hmissing, ne_comm (a := left.seasonNumber), ne_comm (a := left.episodeNumber)]

/-- The options pair the parents of the two both ways round, or neither way. -/
def MatchOptions.PairsParents (options : MatchOptions) (left right : MatchCandidate) : Prop :=
  ∀ a ∈ left.parentId, ∀ b ∈ right.parentId,
    (a, b) ∈ options.parentMatches ↔ (b, a) ∈ options.parentMatches

theorem underMatchedParents_comm (h : options.PairsParents left right) :
    underMatchedParents left right options = underMatchedParents right left options := by
  unfold underMatchedParents
  cases hleft : left.parentId with
  | none => cases right.parentId <;> rfl
  | some a =>
    cases hright : right.parentId with
    | none => rfl
    | some b =>
      rw [Bool.eq_iff_iff]
      have := h a hleft b hright
      simp only [Links.has, decide_eq_true_eq]
      tauto

theorem seasonEpisodeMatch_comm (hkind : left.kind = right.kind)
    (hparents : options.PairsParents left right) :
    seasonEpisodeMatch left right options = seasonEpisodeMatch right left options := by
  unfold seasonEpisodeMatch
  rw [underMatchedParents_comm hparents, hkind]
  by_cases hseason : left.seasonNumber = right.seasonNumber
  · by_cases hepisode : left.episodeNumber = right.episodeNumber
    · rw [hseason, hepisode]
    · simp [hseason, hepisode, Ne.symm hepisode]
      grind
  · simp [hseason, Ne.symm hseason]

theorem absoluteEpisodeMatch_comm (hkind : left.kind = right.kind)
    (habsolute : options.absolutePairs.has left.id right.id =
      options.absolutePairs.has right.id left.id) :
    absoluteEpisodeMatch left right options = absoluteEpisodeMatch right left options := by
  unfold absoluteEpisodeMatch
  rw [hkind, habsolute]
  cases options.episodeIdentifiers.lookup left.id with
  | none => cases options.episodeIdentifiers.lookup right.id <;> rfl
  | some leftKeys =>
    cases options.episodeIdentifiers.lookup right.id with
    | none => rfl
    | some rightKeys =>
      dsimp only
      congr 3
      congr 1
      congr 1
      funext provider
      cases identifierValue left.externalIds provider <;>
        cases identifierValue right.externalIds provider <;> (simp; try grind)

theorem withYears_comm (arithmetic : Arithmetic) (left right : Option ℤ) (confidence : ℚ) :
    withYears arithmetic left right confidence = withYears arithmetic right left confidence := by
  unfold withYears
  cases left <;> cases right <;> try rfl
  next left right => simp only [eq_comm (a := left), abs_sub_comm left]

theorem titleMatch_comm (hkind : left.kind = right.kind)
    (hparents : options.PairsParents left right) :
    titleMatch left right options = titleMatch right left options := by
  unfold titleMatch
  rw [similarity_comm _ left.normalizedTitle, underMatchedParents_comm hparents, hkind]
  dsimp only
  rw [withYears_comm _ left.year]
  by_cases hseason : left.seasonNumber = right.seasonNumber
  · by_cases hepisode : left.episodeNumber = right.episodeNumber
    · rw [hseason, hepisode]
    · simp only [hseason, hepisode, Ne.symm hepisode, ne_eq, not_false_eq_true, or_true]
  · by_cases hepisode : left.episodeNumber = right.episodeNumber
    · simp only [hseason, hepisode, Ne.symm hseason, ne_eq, not_false_eq_true, or_true]
    · simp only [hseason, hepisode, Ne.symm hseason, Ne.symm hepisode, ne_eq, not_false_eq_true,
        or_true]

theorem pathMatch_comm (left right : MatchCandidate) :
    pathMatch toLowerCase left right = pathMatch toLowerCase right left := by
  unfold pathMatch
  cases (left.file.map (·.path)).filter (· ≠ "") with
  | none => cases (right.file.map (·.path)).filter (· ≠ "") <;> rfl
  | some leftPath =>
    cases (right.file.map (·.path)).filter (· ≠ "") with
    | none => rfl
    | some rightPath =>
      simp only [Option.bind_eq_bind, Option.bind_some, eq_comm (a := leftPath),
        eq_comm (a := basename toLowerCase leftPath)]
      by_cases hsame : basename toLowerCase rightPath = basename toLowerCase leftPath
      · rw [hsame]
      · simp only [hsame, false_and]

theorem separateCuts_comm (hkind : left.kind = right.kind) :
    separateCuts left right = separateCuts right left := by
  unfold separateCuts isConflicting
  rw [hkind]
  cases left.file.bind (·.durationMs) with
  | none => cases right.file.bind (·.durationMs) <;> rfl
  | some one =>
    cases right.file.bind (·.durationMs) with
    | none => rfl
    | some other => simp only [max_comm one, abs_sub_comm one]

/-! ### One pair -/

/-- **A pair scores the same from both of its sides.** -/
theorem score_comm (hparents : options.PairsParents left right)
    (habsolute : options.absolutePairs.has left.id right.id =
      options.absolutePairs.has right.id left.id) :
    score toLowerCase left right options = score toLowerCase right left options := by
  unfold score
  by_cases hkind : left.kind = right.kind
  · rw [if_neg (not_not.mpr hkind), if_neg (not_not.mpr hkind.symm), checksumMatch_comm left,
      externalIdMatch_comm hkind, externalIdMatch_comm hkind, contradicted_comm hkind,
      separateCuts_comm hkind, seasonEpisodeMatch_comm hkind hparents,
      absoluteEpisodeMatch_comm hkind habsolute, titleMatch_comm hkind hparents,
      pathMatch_comm left]
  · rw [if_pos hkind, if_pos (Ne.symm hkind)]

/-- What the options pair is paired both ways round. -/
structure MatchOptions.Symmetric (options : MatchOptions) : Prop where
  parents : ∀ a b, options.parentMatches.has a b = options.parentMatches.has b a
  absolute : ∀ a b, options.absolutePairs.has a b = options.absolutePairs.has b a

variable (toLowerCase) in
/-- **Scoring is symmetric**: the same strategy and confidence from both sides, or none, and the
pair is applied from both sides or from neither. -/
theorem score_symmetric (h : options.Symmetric) (left right : MatchCandidate) :
    score toLowerCase left right options = score toLowerCase right left options ∧
      (score toLowerCase left right options).map
          (fun scored => (toProposal toLowerCase left right scored options).applied) =
        (score toLowerCase right left options).map
          (fun scored => (toProposal toLowerCase right left scored options).applied) := by
  have hparents : options.PairsParents left right := by
    intro a _ b _
    have hsame := h.parents a b
    simp only [Links.has, decide_eq_decide] at hsame
    exact hsame
  have hscore : score toLowerCase left right options = score toLowerCase right left options :=
    score_comm hparents (h.absolute left.id right.id)
  refine ⟨hscore, ?_⟩
  rw [hscore]
  rfl

/-- The first episode of a show, on a server of its own. -/
def pilotOn (serviceId : String) : MatchCandidate where
  id := serviceId ++ "-pilot"
  serviceId := serviceId
  peerId := none
  parentId := some (serviceId ++ "-show")
  kind := .EPISODE
  title := "Pilot"
  normalizedTitle := "pilot"
  year := none
  seasonNumber := some 1
  episodeNumber := some 1
  externalIds := {}
  file := none

def pairedShows : MatchOptions where
  threshold := 8 / 10
  arithmetic := .exact
  parentMatches := [("a-show", "b-show"), ("b-show", "a-show")]

theorem score_symmetric_pilot :
    pairedShows.Symmetric ∧
      score id (pilotOn "a") (pilotOn "b") pairedShows =
        score id (pilotOn "b") (pilotOn "a") pairedShows ∧
      score id (pilotOn "a") (pilotOn "b") pairedShows = some ⟨.SEASON_EPISODE, 95 / 100⟩ := by
  have hsymmetric : pairedShows.Symmetric := by
    refine ⟨fun a b => ?_, fun a b => rfl⟩
    simp only [Links.has, pairedShows, List.mem_cons, Prod.mk.injEq, List.not_mem_nil, or_false,
      decide_eq_decide]
    tauto
  exact ⟨hsymmetric, (score_symmetric id hsymmetric (pilotOn "a") (pilotOn "b")).1,
    by decide +kernel⟩

end MediaCenterSync.Matching
