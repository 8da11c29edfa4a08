import MediaCenterSync.Lib.OrderedMap
import MediaCenterSync.Matching.Service
import MediaCenterSync.Releases.Preference

/-!
# Folding a search result into lines

The listings that are the same thing to grab are one line (`groupReleases`): best seeded first, and
named after the first.  A preference then reorders the copies of every line and the lines
(`orderGroupsByPreference`); the first copy of a line is what a grab takes.
-/

namespace MediaCenterSync.Releases

open Comparator (orElse sort)

def ReleaseKind.text : ReleaseKind → String
  | .MOVIE => "movie"
  | .EPISODE => "episode"
  | .SEASON_PACK => "season_pack"
  | .UNKNOWN => "unknown"

/-- `?? ''` -/
def numberOrEmpty (number : Option ℕ) : String := (number.map toString).getD ""

/-- `Math.round(size / 100_000_000)` -/
def hundredsOfMegabytes (size : ℕ) : ℕ := (size + 50000000) / 100000000

/-- `[...new Set(values)]` -/
def distinct (values : List String) : List String := values.eraseDups

/-- What makes two rows the same thing to grab. -/
def Release.keyOf (release : Release) : String :=
  "|".intercalate
    [if release.offTarget then "off" else "",
      release.kind.text,
      numberOrEmpty release.coverage.seasonNumber,
      "-".intercalate (release.coverage.episodeNumbers.map toString),
      if release.coverage.wholeSeason then "season" else "",
      if release.coverage.wholeSeries then "series" else "",
      release.quality.getD "",
      release.source.getD "",
      "+".intercalate (release.languages.mergeSort fun a b => Matching.units a ≤ Matching.units b),
      (releaseCodecOf release.title).getD "",
      (releaseTeamOf release.title).getD "",
      numberOrEmpty (release.size.map hundredsOfMegabytes)]

/-- `better`: more seeders first, then the larger. -/
def better (left right : Release) : ℤ :=
  orElse (((right.seeders.getD 0 : ℕ) : ℤ) - (left.seeders.getD 0 : ℕ))
    (((right.size.getD 0 : ℕ) : ℤ) - (left.size.getD 0 : ℕ))

def largestSize (copies : List Release) : Option ℕ :=
  copies.foldl (fun largest one =>
    match one.size with
    | some size => if largest.getD 0 < size then some size else largest
    | none => largest) none

def lineOf (key : String) (first : Release) (others : List Release) : ReleaseGroup where
  key := key
  title := first.title
  kind := first.kind
  seasonNumber := first.seasonNumber
  episodeNumber := first.episodeNumber
  quality := first.quality
  source := first.source
  languages := first.languages
  size := largestSize (first :: others)
  seeders :=
    if (first :: others).any (·.seeders.isSome) then
      some ((first :: others).map fun one => one.seeders.getD 0).sum
    else none
  releases := first :: others
  flags := distinct ((first :: others).flatMap (·.flags))
  indexers := distinct ((first :: others).map (·.indexer))
  coverage := first.coverage
  fills := []
  heldAlready := (first :: others).any (·.heldAlready)
  offTarget := first.offTarget
  releases_ne_nil := List.cons_ne_nil first others

/-- The line of some copies, best first. -/
def foldCopies (key : String) (copies : List Release) : Option ReleaseGroup :=
  match sort better copies with
  | [] => none
  | first :: others => some (lineOf key first others)

def copiesByKey (releases : List Release) : List (String × List Release) :=
  OrderedMap.groupBy Release.keyOf (fun release copies => copies.getD [] ++ [release]) releases

/-- The order of the lines: held ones last, then best seeded. -/
def compareGroups (left right : ReleaseGroup) : ℤ :=
  orElse ((left.heldAlready.toNat : ℤ) - right.heldAlready.toNat)
    (orElse (((right.seeders.getD 0 : ℕ) : ℤ) - (left.seeders.getD 0 : ℕ))
      (((right.size.getD 0 : ℕ) : ℤ) - (left.size.getD 0 : ℕ)))

def groupReleases (releases : List Release) : List ReleaseGroup :=
  sort compareGroups ((copiesByKey releases).filterMap fun (key, copies) => foldCopies key copies)

section

variable (toLowerCase : String → String) (preference : ReleasePreference)

theorem sortByReleasePreference_ne_nil {releases : List Release} (h : releases ≠ []) :
    sortByReleasePreference toLowerCase preference releases ≠ [] := by
  have hperm : (sortByReleasePreference toLowerCase preference releases).Perm releases :=
    Comparator.sort_perm ..
  intro hnil
  rw [hnil] at hperm
  exact h hperm.nil_eq.symm

/-- A line with its copies in the order of a preference. -/
def ReleaseGroup.prefer (group : ReleaseGroup) : ReleaseGroup :=
  let releases := sortByReleasePreference toLowerCase preference group.releases
  { group with
    releases := releases
    indexers := distinct (releases.map (·.indexer))
    releases_ne_nil := sortByReleasePreference_ne_nil toLowerCase preference group.releases_ne_nil }

/-- The order a preference gives the lines, with those that are held still last. -/
def compareLines (left right : ReleaseGroup) : ℤ :=
  orElse ((left.heldAlready.toNat : ℤ) - right.heldAlready.toNat)
    (compareByReleasePreference toLowerCase preference left.preferable right.preferable)

def orderGroupsByPreference (groups : List ReleaseGroup) : List ReleaseGroup :=
  sort (compareLines toLowerCase preference) (groups.map (·.prefer toLowerCase preference))

end

end MediaCenterSync.Releases
