import Mathlib.Data.Int.Order.Basic
import Mathlib.Data.List.Dedup

/-!
# A show numbered straight through and the same show cut into seasons

The pairs of episodes that are one episode under two numberings, for two copies of one series, and
the identifiers that name one episode rather than its show.
-/

namespace MediaCenterSync.Matching

structure NumberedEpisode where
  id : String
  seasonNumber : Option ℤ
  episodeNumber : Option ℤ

/-- Two rows that are the same episode under two numberings. -/
structure NumberingPair where
  absoluteId : String
  splitId : String

structure Numbered where
  id : String
  season : Option ℤ
  number : ℤ
deriving DecidableEq

/-- The split side, reduced to what the conversion needs. -/
structure SeasonTable where
  byAbsolute : List (ℤ × String)
  total : ℕ
  longest : ℕ

/-- The flat side, reduced to what the conversion needs. -/
structure FlatRun where
  byNumber : List (ℤ × String)
  highest : ℤ

/-- `numbered`: season 0 and anything unnumbered, gone. -/
def numbered (episodes : List NumberedEpisode) : List Numbered :=
  episodes.filterMap fun episode => do
    let number ← episode.episodeNumber
    if 1 ≤ number ∧ episode.seasonNumber ≠ some 0 then
      some ⟨episode.id, episode.seasonNumber, number⟩
    else none

/-- The flat side, or `none` when these rows are not one continuous run. -/
def flatRun (episodes : List Numbered) : Option FlatRun :=
  if (episodes.map (·.season)).dedup.length ≠ 1 then none
  else if !(episodes.map (·.number)).Nodup then none
  else
    some
      { byNumber := episodes.map fun episode => (episode.number, episode.id)
        highest := (episodes.map (·.number)).foldl max 0 }

/-- The absolute numbers of one season that starts after `total`, when it has no hole. -/
def seasonRun (within : List Numbered) (total : ℕ) : Option (List (ℤ × String)) :=
  (List.range within.length).mapM fun index : ℕ => do
    let episode ← within.find? (·.number = (index + 1 : ℤ))
    return ((total + index + 1 : ℤ), episode.id)

/-- Seasons `season`, `season + 1`, … of the split side, `count` of them. -/
def seasonRuns (episodes : List Numbered) (season : ℤ) :
    (count : ℕ) → SeasonTable → Option SeasonTable
  | 0, table => some table
  | count + 1, table => do
    let within := episodes.filter (·.season = some season)
    if within = [] then none
    else
      let run ← seasonRun within table.total
      seasonRuns episodes (season + 1) count
        { byAbsolute := table.byAbsolute ++ run
          total := table.total + within.length
          longest := max table.longest within.length }

/-- The split side, or `none` when its seasons cannot state their own lengths. -/
def seasonTable (episodes : List Numbered) : Option SeasonTable :=
  let seasons := (episodes.map (·.season)).dedup
  if !episodes.all fun episode => episode.season.any (1 ≤ ·) then none
  else if !(episodes.map fun episode => (episode.season, episode.number)).Nodup then none
  else if seasons.length < 2 then none
  else seasonRuns episodes 1 seasons.length ⟨[], 0, 0⟩

/-- The episodes of two copies of one series, paired across the two numberings. -/
def alignAbsoluteNumbering (left right : List NumberedEpisode) : List NumberingPair :=
  let leftEpisodes := numbered left
  let rightEpisodes := numbered right
  let pair (flat : FlatRun) (split : List Numbered) : List NumberingPair :=
    match seasonTable split with
    | none => []
    | some table =>
      -- two conventions, and the same show from end to end
      if flat.highest ≤ table.longest ∨ (table.total : ℤ) ≠ flat.highest then []
      else
        flat.byNumber.filterMap fun (absolute, absoluteId) =>
          (table.byAbsolute.lookup absolute).map fun splitId => ⟨absoluteId, splitId⟩
  match flatRun leftEpisodes, flatRun rightEpisodes with
  | some flat, none => pair flat rightEpisodes
  | none, some flat => pair flat leftEpisodes
  | _, _ => []

/-- The identifiers that genuinely name one episode, per episode: those no other one carries. -/
def episodeIdentifierKeys (episodes : List (String × List String)) : List (String × List String) :=
  (episodes.map fun (id, keys) => (id, keys.filter fun key =>
    (episodes.filter (key ∈ ·.2)).length = 1)).filter (·.2 ≠ [])

end MediaCenterSync.Matching
