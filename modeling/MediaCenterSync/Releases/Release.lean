import Mathlib.Data.String.Basic
import MediaCenterSync.Lib.Regex

/-!
# What a release name says about itself

The season and the episodes a name spells, read off it by the patterns of the source.  Upper and lower
case are the same to every one of them.
-/

namespace MediaCenterSync.Releases

open Regex (Pattern)
open Regex.Pattern

/-! ### Characters -/

def isDigit (c : Char) : Bool :=
  '0' ≤ c && c ≤ '9'

def isWord (c : Char) : Bool :=
  isDigit c || ('a' ≤ c && c ≤ 'z') || ('A' ≤ c && c ≤ 'Z') || c = '_'

/-- White space, as the language of the source has it. -/
def isSpace (c : Char) : Bool :=
  (9 ≤ c.toNat && c.toNat ≤ 13) || (0x2000 ≤ c.toNat && c.toNat ≤ 0x200A) ||
    c.toNat ∈ [0x20, 0xA0, 0x1680, 0x2028, 0x2029, 0x202F, 0x205F, 0x3000, 0xFEFF]

def isSeparator (c : Char) : Bool :=
  isSpace c || c ∈ ['.', '_', '-']

def digit : Pattern Char :=
  one isDigit

def letter (c : Char) : Pattern Char :=
  one fun other => other.toLower = c

def separators : Pattern Char :=
  star (one isSeparator)

def wordBoundary : Pattern Char :=
  boundary isWord

/-! ### The patterns -/

/-- `S02E09`, `S02 E09` -/
def EPISODE : Pattern Char :=
  all [wordBoundary, letter 's', group (digit.upTo 1), separators, letter 'e',
    group (digit.upTo 2), notNext isDigit]

/-- `2x09` -/
def EPISODE_X : Pattern Char :=
  all [wordBoundary, group (digit.upTo 1), letter 'x', group (digit.upTo 2), wordBoundary]

/-- One more episode of a run: `-E03`, `-03` or `E03`. -/
def EPISODE_TAIL : Pattern Char :=
  all [separators,
    alt (all [one (· = '-'), star (one isSpace), optional (letter 'e')]) (letter 'e'),
    group (digit.upTo 2)]

/-- A run of episodes: `S01E01-E03`, `S01E01E02E03`, `S01E01-03`. -/
def EPISODE_RANGE : Pattern Char :=
  all [wordBoundary, letter 's', group (digit.upTo 1), separators, letter 'e',
    group (digit.upTo 2), plus EPISODE_TAIL]

def SEASON : Pattern Char :=
  all [wordBoundary,
    all [letter 's', optional (all ("eason".toList.map letter)), separators, group (digit.upTo 1)],
    wordBoundary]

/-! ### Reading -/

/-- `numberOf`, of digits. -/
def numberOf (digits : List Char) : ℕ :=
  digits.foldl (fun number c => 10 * number + (c.toNat - '0'.toNat)) 0

def groupNumber (found : Regex.Found Char) (group : ℕ) : Option ℕ :=
  found.groups[group]?.map numberOf

/-- Every episode a name spells out, from the first one found. -/
def runOf (name : List Char) (first : ℕ) : List ℕ :=
  match Regex.exec EPISODE_RANGE name with
  | none => [first]
  | some range =>
    let found := (Regex.execAll EPISODE_TAIL range.text).filterMap (groupNumber · 0)
    match found.getLast? with
    | none => [first]
    | some last =>
      -- a run of more than that is a name and not a season
      if last ≤ first ∨ 200 < last - first then [first]
      else List.range' first (last - first + 1)

structure ReleaseCoverage where
  seasonNumber : Option ℕ
  episodeNumbers : List ℕ
  wholeSeason : Bool
deriving DecidableEq

structure ParsedRelease where
  seasonNumber : Option ℕ
  episodeNumber : Option ℕ
  coverage : ReleaseCoverage
deriving DecidableEq

/-- Reads a release name.  Only the name of a show (`hasSeason`) is taken to name a season alone. -/
def parseReleaseName (name : String) (hasSeason : Bool := true) : ParsedRelease :=
  let text := name.toList
  let episode := Regex.exec EPISODE text <|> Regex.exec EPISODE_X text
  let seasonNumber := episode.bind (groupNumber · 0)
  let episodeNumber := episode.bind (groupNumber · 1)
  let pack := if episode.isNone && hasSeason then Regex.exec SEASON text else none
  let packSeason := pack.bind (groupNumber · 0)
  let episodeNumbers := episodeNumber.elim [] (runOf text)
  { seasonNumber := seasonNumber <|> packSeason
    episodeNumber := episodeNumber
    coverage :=
      { seasonNumber := seasonNumber <|> packSeason
        episodeNumbers := episodeNumbers
        wholeSeason := episodeNumbers.isEmpty && packSeason.isSome } }

example : (parseReleaseName "Show.S01E01-E03.1080p").coverage = ⟨some 1, [1, 2, 3], false⟩ := by
  decide +kernel

example : (parseReleaseName "Show.2x09.mkv").coverage = ⟨some 2, [9], false⟩ := by
  decide +kernel

example : (parseReleaseName "Show - Season 2 (1080p)").coverage = ⟨some 2, [], true⟩ := by
  decide +kernel

end MediaCenterSync.Releases

/-!
## Releases

What an indexer answers with, and the lines its releases are folded into.
-/

namespace MediaCenterSync.Releases

inductive ReleaseKind where
  | MOVIE
  | EPISODE
  | SEASON_PACK
  /-- A name nothing could be read off. -/
  | UNKNOWN
deriving DecidableEq

structure Coverage extends ReleaseCoverage where
  wholeSeries : Bool
deriving DecidableEq

structure EpisodeRef where
  itemId : String
  seasonNumber : Option ℕ
  episodeNumber : Option ℕ
  title : String
deriving DecidableEq

structure Release where
  id : String
  title : String
  indexer : String
  size : Option ℕ
  seeders : Option ℕ
  kind : ReleaseKind
  seasonNumber : Option ℕ
  episodeNumber : Option ℕ
  quality : Option String
  source : Option String
  languages : List String
  coverage : Coverage
  /-- This gateway holds a file of that exact size. -/
  heldAlready : Bool
  /-- It names something other than what was asked for. -/
  offTarget : Bool
  flags : List String
deriving DecidableEq

/-- Releases that are the same thing to grab. -/
structure ReleaseGroup where
  key : String
  title : String
  kind : ReleaseKind
  seasonNumber : Option ℕ
  episodeNumber : Option ℕ
  quality : Option String
  source : Option String
  languages : List String
  size : Option ℕ
  seeders : Option ℕ
  /-- Every copy; the first is what a grab takes. -/
  releases : List Release
  flags : List String
  indexers : List String
  coverage : Coverage
  /-- The episodes of ours it would fill. -/
  fills : List EpisodeRef
  heldAlready : Bool
  offTarget : Bool
  releases_ne_nil : releases ≠ []
deriving DecidableEq

def ReleaseGroup.first (group : ReleaseGroup) : Release :=
  group.releases.head group.releases_ne_nil

end MediaCenterSync.Releases
