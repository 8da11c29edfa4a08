import Mathlib.Data.List.DropRight
import MediaCenterSync.Lib.Comparator
import MediaCenterSync.Releases.Release

/-!
# Putting the copy somebody wants first

What a release carries in each dimension, read off its fields and off its name, and the comparator of
a preference: the first of its ranks that separates two releases decides.  `toLowerCase` is the case
folding of the strings' own language.
-/

namespace MediaCenterSync.Releases

open Regex (Pattern)
open Regex.Pattern

/-! ### Data -/

inductive ReleasePreferenceDimension where
  | RESOLUTION
  | CODEC
  /-- The release group: the tail of a scene name. -/
  | TEAM
  | SOURCE
  | LANGUAGE
  /-- What it costs on the tracker's ratio. -/
  | COST
  | INDEXER

structure ReleasePreferenceRank where
  dimension : ReleasePreferenceDimension
  /-- Best first. -/
  values : List String

structure ReleasePreference where
  ranks : List ReleasePreferenceRank

/-- What ranking needs of a release or of a line. -/
structure PreferableRelease where
  title : String
  quality : Option String
  source : Option String
  languages : List String
  flags : List String
  /-- One tracker for a copy, all of them for a line. -/
  indexers : List String

def Release.preferable (release : Release) : PreferableRelease :=
  ⟨release.title, release.quality, release.source, release.languages, release.flags,
    [release.indexer]⟩

def ReleaseGroup.preferable (group : ReleaseGroup) : PreferableRelease :=
  ⟨group.title, group.quality, group.source, group.languages, group.flags, group.indexers⟩

/-! ### The words of a name -/

def word (text : String) : Pattern Char := all (text.toList.map letter)

def anyOf : List (Pattern Char) → Pattern Char
  | [] => one fun _ => false
  | [pattern] => pattern
  | pattern :: rest => alt pattern (anyOf rest)

/-- A pattern that is no part of a longer word. -/
def whole (pattern : Pattern Char) : Pattern Char := all [wordBoundary, pattern, wordBoundary]

/-- `[\s._-]?` -/
def separator : Pattern Char := optional (one isSeparator)

def firstMatch (value : String) (table : List (Pattern Char × String)) : Option String :=
  (table.find? fun entry => (Regex.exec entry.1 value.toList).isSome).map (·.2)

def CODECS : List (Pattern Char × String) :=
  [(whole (word "av1"), "AV1"),
    (whole (alt (all [alt (letter 'x') (letter 'h'), separator, word "265"]) (word "hevc")), "x265"),
    (whole (alt (all [alt (letter 'x') (letter 'h'), separator, word "264"]) (word "avc")), "x264"),
    (whole (alt (word "xvid") (word "divx")), "XviD")]

def RESOLUTIONS : List (Pattern Char × String) :=
  [(whole (anyOf [word "2160p", word "4k", word "uhd"]), "2160p"),
    (whole (word "1080p"), "1080p"),
    (whole (word "720p"), "720p"),
    (whole (anyOf [word "sd", word "576p", word "480p", word "360p"]), "SD")]

def SOURCES : List (Pattern Char × String) :=
  [(whole (anyOf [all [word "blu", separator, word "ray"], word "bdrip", word "brrip",
      word "bdremux", word "remux"]), "BluRay"),
    (whole (all [word "web", separator, word "dl"]), "WEB-DL"),
    (whole (all [word "web", separator, word "rip"]), "WEBRip"),
    (whole (word "hdtv"), "HDTV"),
    (whole (alt (word "dvdrip") (word "dvd")), "DVD")]

def LANGUAGES : List (Pattern Char × String) :=
  [(whole (word "multi"), "MULTI"),
    (whole (alt (word "vostfr") (word "subfrench")), "VOSTFR"),
    (whole (alt (word "truefrench") (word "french")), "FRENCH"),
    (whole (all [word "vf", optional (letter 'f')]), "VF"),
    (whole (anyOf [word "vo", word "english", word "eng"]), "VO")]

def COSTS : List (Pattern Char × String) :=
  [(anyOf [all [word "free", star (one isSpace), word "leech"], word "freeleech", word "gratuit",
      whole (word "free"), word "golden"], "free"),
    (anyOf [all [word "half", star (one isSpace), word "leech"], word "halfleech", word "demi",
      whole (word "half")], "half")]

/-! ### The team -/

/-- The suffixes of a file, which are no part of a name. -/
def EXTENSIONS : List String := ["mkv", "mp4", "avi", "ts", "m2ts", "iso"]

def NOT_A_TEAM : List String :=
  ["dl", "rip", "web", "bd", "bdrip", "brrip", "dvd", "dvdrip", "hdtv", "tv", "hd",
    "sd", "uhd", "hdr", "sdr", "remux", "proper", "repack", "internal", "extended",
    "unrated", "limited", "complete", "integrale", "final",
    "x264", "x265", "h264", "h265", "hevc", "avc", "av1", "xvid", "divx", "264", "265",
    "aac", "ac3", "eac3", "dts", "ddp", "ma", "atmos", "flac", "mp3",
    "multi", "french", "truefrench", "vf", "vff", "vfq", "vo", "vostfr", "subfrench",
    "fr", "en", "eng", "vost",
    "1080p", "720p", "2160p", "576p", "480p", "360p", "4k"]

def trimmed (text : List Char) : List Char := (text.dropWhile isSpace).rdropWhile isSpace

def lowered (text : List Char) : List Char := text.map Char.toLower

/-- `replace(EXTENSION, '')` -/
def withoutExtension (name : List Char) : List Char :=
  match EXTENSIONS.find? fun suffix => ('.' :: suffix.toList) <:+ lowered name with
  | some suffix => name.rdrop (suffix.toList.length + 1)
  | none => name

def isOpening (c : Char) : Bool := c ∈ ['[', '(', Char.ofNat 0x7B]

def isClosing (c : Char) : Bool := c ∈ [']', ')', Char.ofNat 0x7D]

/-- `TRAILING_TAG`: what is before a tracker's signature at the end of a name, and the signature. -/
def trailingTag (name : List Char) : Option (List Char × List Char) := do
  let closed := name.rdropWhile isSpace
  let closing ← closed.getLast?
  let inner := closed.dropLast.rtakeWhile fun c => !isOpening c && !isClosing c
  let front := closed.dropLast.rdropWhile fun c => !isOpening c && !isClosing c
  let opening ← front.getLast?
  if isClosing closing ∧ isOpening opening then
    some (front.dropLast, opening :: inner ++ closing :: name.rtakeWhile isSpace)
  else none

/-- The tags at the end of a name taken off, and the last that was. -/
def stripTags : ℕ → List Char → Option (List Char) → List Char × Option (List Char)
  | 0, name, stripped => (name, stripped)
  | times + 1, name, stripped =>
    match trailingTag name with
    | none => (name, stripped)
    | some (front, tag) => stripTags times (trimmed front) (some tag)

/-- `TEAM`, in any case: a plausible group tag. -/
def isTeam (text : List Char) : Bool :=
  match text with
  | [] => false
  | first :: rest =>
    isAlphanumeric first ∧ 1 ≤ rest.length ∧ rest.length ≤ 19 ∧
      rest.all fun c => isAlphanumeric c || c ∈ ['&', Char.ofNat 0x27, '!', '+']
where
  /-- `[a-z\d]`, in any case -/
  isAlphanumeric (c : Char) : Bool := isWord c && c ≠ '_'

def releaseTeamOf (title : String) : Option String :=
  let start := withoutExtension (trimmed title.toList)
  let (name, stripped) := stripTags (start.length + 1) start none
  let readable := fun text : List Char =>
    if isTeam text ∧ String.ofList (lowered text) ∉ NOT_A_TEAM then some (String.ofList text)
    else none
  let beforeDash := name.rdropWhile (· ≠ '-')
  -- there is a dash, and something before it
  if beforeDash.length ≤ 1 then none
  else
    let tail := trimmed (name.rtakeWhile (· ≠ '-'))
    match tail, stripped with
    | [], some tag =>
      let inner := (tag.dropWhile (!isTeam.isAlphanumeric ·)).takeWhile isTeam.isAlphanumeric
      if inner = [] then none else readable inner
    | tail, _ => readable tail

def releaseCodecOf (title : String) : Option String := firstMatch title CODECS

/-! ### Reading a release -/

section

variable (toLowerCase : String → String)

def FREE_RELEASE_FLAGS : List (String × String) :=
  [("freeleech", "free"), ("free", "free"), ("g_freeleech", "free"), ("ptp_golden", "free"),
    ("halfleech", "half"), ("g_halfleech", "half")]

/-- How a release counts against a ratio, as far as its flags say. -/
def releaseCostOf (flags : List String) : Option String :=
  let costs := flags.filterMap fun flag => FREE_RELEASE_FLAGS.lookup (toLowerCase flag)
  if "free" ∈ costs then some "free" else costs.head?

/-- `readers`: what a release carries in a dimension. -/
def readers (dimension : ReleasePreferenceDimension) (release : PreferableRelease) :
    List String :=
  match dimension with
  | .RESOLUTION =>
    match release.quality with
    | some quality => [quality]
    | none => (firstMatch release.title RESOLUTIONS).toList
  | .CODEC => (releaseCodecOf release.title).toList
  | .TEAM => (releaseTeamOf release.title).toList
  | .SOURCE =>
    match release.source with
    | some source => [source]
    | none => (firstMatch release.title SOURCES).toList
  | .LANGUAGE =>
    if 0 < release.languages.length then release.languages
    else (firstMatch release.title LANGUAGES).toList
  | .COST => (releaseCostOf toLowerCase release.flags).toList
  | .INDEXER => release.indexers

def folds : ReleasePreferenceDimension → List (Pattern Char × String)
  | .RESOLUTION => RESOLUTIONS
  | .CODEC => CODECS
  | .TEAM => []
  | .SOURCE => SOURCES
  | .LANGUAGE => LANGUAGES
  | .COST => COSTS
  | .INDEXER => []

def fold (dimension : ReleasePreferenceDimension) (value : String) : String :=
  .ofList ((toLowerCase ((firstMatch value (folds dimension)).getD value)).toList.filter fun c =>
    ('a' ≤ c ∧ c ≤ 'z') ∨ isDigit c)

/-- `Number.MAX_SAFE_INTEGER` -/
def MAX_SAFE_INTEGER : ℕ := 2 ^ 53 - 1

/-- Where a release sits in one rank: lower is better, and unlisted is last. -/
def placeOf (release : PreferableRelease) (rank : ReleasePreferenceRank) : ℕ :=
  let wanted := rank.values.map (fold toLowerCase rank.dimension)
  let carried := (readers toLowerCase rank.dimension release).map (fold toLowerCase rank.dimension)
  carried.foldl (fun best value =>
    match wanted.findIdx? (· = value) with
    | some place => if place < best then place else best
    | none => best) MAX_SAFE_INTEGER

/-- Better first, by the dimensions in their order; a rank without values separates nothing. -/
def compareByRanks (left right : PreferableRelease) : List ReleasePreferenceRank → ℤ
  | [] => 0
  | rank :: rest =>
    if rank.values = [] then compareByRanks left right rest
    else
      Comparator.orElse (placeOf toLowerCase left rank - placeOf toLowerCase right rank)
        (compareByRanks left right rest)

def compareByReleasePreference (preference : ReleasePreference)
    (left right : PreferableRelease) : ℤ :=
  compareByRanks toLowerCase left right preference.ranks

/-- The copies reordered by a preference, with everything it does not separate left alone. -/
def sortByReleasePreference (preference : ReleasePreference) (releases : List Release) :
    List Release :=
  Comparator.sort (fun left right =>
    compareByReleasePreference toLowerCase preference left.preferable right.preferable) releases

end

end MediaCenterSync.Releases
