import MediaCenterSync.Lib.Comparator
import MediaCenterSync.Quality.Summary

/-!
# The coverage plan

Of the lines a search found, the one that fills the most of what is missing is taken, then the next
(`planStep`), until nothing more can be filled (`planLoop`).  What is missing is kept in a map under
its coordinate as it is printed (`keyOf`).
-/

namespace MediaCenterSync.Releases

def printed (number : Option ℕ) : String :=
  number.elim "" toString

def keyOf (one : EpisodeRef) : String :=
  printed one.seasonNumber ++ ":" ++ printed one.episodeNumber

def fillsOf (group : ReleaseGroup) (missing : List EpisodeRef) : List EpisodeRef :=
  if group.offTarget then []
  else if group.coverage.wholeSeries then missing
  else if group.coverage.wholeSeason then
    missing.filter (·.seasonNumber = group.coverage.seasonNumber)
  else if 0 < group.coverage.episodeNumbers.length then
    missing.filter fun one =>
      one.seasonNumber = group.coverage.seasonNumber ∧
        one.episodeNumber.any (group.coverage.episodeNumbers.contains ·)
  else if group.kind = .MOVIE then missing
  else []

inductive MediaOrigin where
  | LOCAL
  | DIRECT
  | FRIEND
  | FRIEND_OF_FRIEND
  | REQUESTED

structure PeerCopy where
  id : String
  itemIds : List String
  origin : MediaOrigin
  size : Option ℕ
  quality : Option Quality.QualitySummary
  fills : List EpisodeRef

inductive ReleaseSuggestion where
  | indexer (release : ReleaseGroup)
  | peer (copy : PeerCopy)

structure ReleaseSearchResult where
  suggestions : List ReleaseSuggestion
  missing : List EpisodeRef

def ReleaseSuggestion.filled (missing : List EpisodeRef) : ReleaseSuggestion → ReleaseSuggestion
  | .indexer release => .indexer { release with fills := fillsOf release missing }
  | .peer copy => .peer copy

/-- What a search answers, where every line says what it would fill. -/
def found (suggestions : List ReleaseSuggestion) (missing : List EpisodeRef) :
    ReleaseSearchResult where
  suggestions := suggestions.map (·.filled missing)
  missing := missing

def ReleaseSuggestion.release? : ReleaseSuggestion → Option ReleaseGroup
  | .indexer release => some release
  | .peer _ => none

structure CoverageStep where
  releaseId : String
  title : String
  kind : ReleaseKind
  size : Option ℕ
  seeders : Option ℕ
  covers : List EpisodeRef
  isPartial : Bool

structure CoveragePlan where
  steps : List CoverageStep
  uncovered : List EpisodeRef

structure PlanState where
  uncovered : List (String × EpisodeRef)
  steps : List CoverageStep

def candidates (result : ReleaseSearchResult) : List ReleaseGroup :=
  (result.suggestions.filterMap (·.release?)).filter fun group => 0 < group.fills.length

/-- What a line would fill of what is still uncovered. -/
def coversOf (uncovered : List (String × EpisodeRef)) (group : ReleaseGroup) : List EpisodeRef :=
  group.fills.filter fun one => OrderedMap.has uncovered (keyOf one)

/-- The line that fills more comes first, of two that fill as much the better seeded. -/
def coversMore (left right : ReleaseGroup × List EpisodeRef) : Bool :=
  right.2.length < left.2.length ∨
    right.2.length = left.2.length ∧ right.1.seeders.getD 0 ≤ left.1.seeders.getD 0

def scored (groups : List ReleaseGroup) (uncovered : List (String × EpisodeRef)) :
    List (ReleaseGroup × List EpisodeRef) :=
  ((groups.map fun group => (group, coversOf uncovered group)).filter fun one =>
    0 < one.2.length).mergeSort coversMore

def stepFor (group : ReleaseGroup) (covers : List EpisodeRef) : CoverageStep where
  releaseId := group.first.id
  title := group.title
  kind := group.kind
  size := group.size
  seeders := group.seeders
  covers := covers
  isPartial := group.coverage.wholeSeason || group.coverage.wholeSeries ||
    covers.length < group.coverage.episodeNumbers.length

/-- One round; none where there is nothing more to take. -/
def planStep (groups : List ReleaseGroup) (p : PlanState) : Option PlanState :=
  if p.uncovered.length = 0 then none
  else
    (scored groups p.uncovered).head?.map fun best =>
      { uncovered := best.2.foldl (fun left one => OrderedMap.delete left (keyOf one)) p.uncovered
        steps := p.steps ++ [stepFor best.1 best.2] }

def planLoop (groups : List ReleaseGroup) : ℕ → PlanState → PlanState
  | 0, p => p
  | rounds + 1, p => (planStep groups p).elim p (planLoop groups rounds)

def startPlan (missing : List EpisodeRef) : PlanState where
  uncovered := OrderedMap.groupBy keyOf (fun one _ => one) missing
  steps := []

/-- Where the rounds end: each of them takes something from what is uncovered. -/
def planned (result : ReleaseSearchResult) : PlanState :=
  planLoop (candidates result) (startPlan result.missing).uncovered.length
    (startPlan result.missing)

def plan (result : ReleaseSearchResult) : CoveragePlan where
  steps := (planned result).steps
  uncovered := (planned result).uncovered.map (·.2)

end MediaCenterSync.Releases

/-!
## The two kinds of answer in one order

What the peers hold is ordered among itself (`comparePeerCopies`), put before the lines of the
trackers, which have an order already, and the whole is sorted once more (`compareSuggestions`).
-/

namespace MediaCenterSync.Releases

open Comparator (orElse sort)

def MEDIA_RESOLUTIONS : List String := ["2160p", "1080p", "720p", "576p", "480p"]

/-- `ORIGIN_DISTANCE`: how far away a holder is. -/
def originDistance : MediaOrigin → ℕ
  | .LOCAL => 0
  | .DIRECT => 1
  | .FRIEND => 2
  | .FRIEND_OF_FRIEND => 3
  | .REQUESTED => 4

def resolutionRank (quality : Option Quality.QualitySummary) : ℕ :=
  let label := (quality.bind (·.dominant)).bind (·.resolution)
  MEDIA_RESOLUTIONS.idxOf (label.getD "")

def comparePeerCopies (left right : PeerCopy) : ℤ :=
  orElse ((originDistance left.origin : ℤ) - originDistance right.origin)
    (orElse ((right.fills.length : ℤ) - left.fills.length)
      (orElse ((resolutionRank left.quality : ℤ) - resolutionRank right.quality)
        (((right.size.getD 0 : ℕ) : ℤ) - (left.size.getD 0 : ℕ))))

namespace ReleaseSuggestion

def isOffTarget : ReleaseSuggestion → Bool
  | .indexer release => release.offTarget
  | .peer _ => false

def bringsNothing : ReleaseSuggestion → Bool
  | .indexer release => release.heldAlready
  | .peer copy => copy.fills.length = 0

/-- An offer that answers nothing anybody is short of. -/
def coversNoGap : ReleaseSuggestion → Bool
  | .indexer release => release.fills.length = 0
  | .peer copy => copy.fills.length = 0

/-- How much of what is missing one offer closes. -/
def gapsOf : ReleaseSuggestion → ℕ
  | .indexer release => release.fills.length
  | .peer copy => copy.fills.length

/-- `source === SuggestionSource.INDEXER` -/
def isIndexer : ReleaseSuggestion → Bool
  | .indexer _ => true
  | .peer _ => false

end ReleaseSuggestion

def compareSuggestions (left right : ReleaseSuggestion) : ℤ :=
  orElse ((left.isOffTarget.toNat : ℤ) - right.isOffTarget.toNat)
    (orElse ((left.bringsNothing.toNat : ℤ) - right.bringsNothing.toNat)
      (orElse (((!left.bringsNothing && left.coversNoGap).toNat : ℤ) -
          (!right.bringsNothing && right.coversNoGap).toNat)
        (orElse ((left.isIndexer.toNat : ℤ) - right.isIndexer.toNat)
          ((right.gapsOf : ℤ) - left.gapsOf))))

/-- Both kinds before the second sort. -/
def listed (copies : List PeerCopy) (groups : List ReleaseGroup) : List ReleaseSuggestion :=
  (sort comparePeerCopies copies).map .peer ++ groups.map .indexer

def orderSuggestions (copies : List PeerCopy) (groups : List ReleaseGroup) :
    List ReleaseSuggestion :=
  sort compareSuggestions (listed copies groups)

end MediaCenterSync.Releases
