import MediaCenterSync.Lib.OrderedMap
import MediaCenterSync.Quality.Comparison
import MediaCenterSync.Releases.Release

/-!
# What a set of files looks like at a glance

Files are grouped into the distinct encodings they represent (`summarise`), and summaries that exist
are folded into one (`merge`).  Both group by a key that joins what describes an encoding
(`variantKey`), and the first file or variant of a key stands for it.

A number of bytes is a rational; sizes are whole and their sums below 2 ^ 53, where doubles add them
exactly.  `toLowerCase` is the case folding of the strings' own language.
-/

namespace MediaCenterSync.Quality

open Regex (Pattern)
open Regex.Pattern
open Releases (digit letter wordBoundary)

/-! ### Data -/

/-- The fields of a file that describe its encoding, with those that are compared. -/
structure EncodedFile extends MediaFileInfo where
  path : String
  audioCodec : Option String
  container : Option String

/-- One distinct encoding found under a node. -/
structure QualityVariant where
  label : String
  videoCodec : Option String
  resolution : Option String
  hdr : Option String
  audioCodec : Option String
  audioChannels : Option String
  container : Option String
  /-- How many files under this node carry exactly this encoding. -/
  count : ℕ
  bytes : ℚ

structure QualitySummary where
  label : String
  mixed : Bool
  dominant : Option QualityVariant
  /-- Every distinct encoding under the node, most common first. -/
  variants : List QualityVariant
  fileCount : ℕ
  totalBytes : ℚ

/-! ### One file -/

def audioCodecAliases : List (String × String) :=
  [("e-ac-3", "eac3"), ("eac3", "eac3"), ("ec3", "eac3"), ("ddp", "eac3"), ("ac-3", "ac3"),
    ("ac3", "ac3"), ("dd", "ac3"), ("dts-hd", "dtshd"), ("dtshd", "dtshd"), ("dtsma", "dtshd"),
    ("dts", "dts"), ("truehd", "truehd"), ("mlp", "truehd"), ("aac", "aac"), ("aac-lc", "aac"),
    ("mp3", "mp3"), ("flac", "flac"), ("opus", "opus"), ("vorbis", "vorbis"), ("pcm", "pcm"),
    ("lpcm", "pcm")]

/-- The characters of a word, one after another. -/
def word (text : String) : Pattern Char :=
  all (text.toList.map fun c => one (· = c))

/-- `\b(dolby[ ._-]?vision|dovi|\bdv\b)\b` -/
def DOLBY_VISION : Pattern Char :=
  all [wordBoundary,
    alt (all [word "dolby", optional (one (· ∈ [' ', '.', '_', '-'])), word "vision"])
      (alt (word "dovi") (all [wordBoundary, word "dv", wordBoundary])),
    wordBoundary]

/-- `hdr10\+|hdr10plus` -/
def HDR10_PLUS : Pattern Char :=
  alt (word "hdr10+") (word "hdr10plus")

/-- `\bhdr(10)?\b` -/
def HDR10 : Pattern Char :=
  all [wordBoundary, word "hdr", optional (word "10"), wordBoundary]

/-- `\bhlg\b` -/
def HLG : Pattern Char :=
  all [wordBoundary, word "hlg", wordBoundary]

/-- `\b([1-9])[._]([01])\b` -/
def CHANNELS : Pattern Char :=
  all [wordBoundary, group (one fun c => '1' ≤ c && c ≤ '9'), one (· ∈ ['.', '_']),
    group (one (· ∈ ['0', '1'])), wordBoundary]

def bytesOf (file : EncodedFile) : ℚ :=
  max 0 (file.size.getD 0)

/-- `_label` -/
def labelOf (videoCodec resolution hdr : Option String) : String :=
  let parts := [videoCodec, resolution, hdr].reduceOption.filter (· ≠ "")
  if parts.isEmpty then "unknown" else " · ".intercalate parts

def variantKey (variant : QualityVariant) : String :=
  "|".intercalate
    ([variant.videoCodec, variant.resolution, variant.hdr, variant.audioCodec,
      variant.audioChannels, variant.container].map (·.getD ""))

section

variable (toLowerCase : String → String)

def normalizeAudioCodec (codec : Option String) : Option String :=
  normalizeCodec toLowerCase codec audioCodecAliases

def detectHdr (file : EncodedFile) : Option String :=
  let haystack := (toLowerCase file.path).toList
  if (Regex.exec DOLBY_VISION haystack).isSome then some "DV"
  else if (Regex.exec HDR10_PLUS haystack).isSome then some "HDR10+"
  else if (Regex.exec HDR10 haystack).isSome then some "HDR10"
  else if (Regex.exec HLG haystack).isSome then some "HLG"
  else none

def detectChannels (file : EncodedFile) : Option String :=
  (Regex.exec CHANNELS file.path.toList).map fun found =>
    ".".intercalate ((found.groups.take 2).map String.ofList)

/-- One file as a variant of one, which is what the grouping is built from. -/
def describe (file : EncodedFile) : QualityVariant :=
  let videoCodec := normalizeVideoCodec toLowerCase file.videoCodec
  let resolution := resolutionLabel file.height file.width
  let hdr := detectHdr toLowerCase file
  { label := labelOf videoCodec resolution hdr
    videoCodec := videoCodec
    resolution := resolution
    hdr := hdr
    audioCodec := normalizeAudioCodec toLowerCase file.audioCodec
    audioChannels := detectChannels file
    container := file.container.map toLowerCase
    count := 1
    bytes := bytesOf file }

/-! ### Many files -/

/-- The order variants are listed in: most common first, and the larger group wins a tie. -/
def comesFirst (left right : QualityVariant) : Bool :=
  right.count < left.count || (left.count = right.count && right.bytes ≤ left.bytes)

def assemble (grouped : List (String × QualityVariant)) (fileCount : ℕ) (totalBytes : ℚ) :
    QualitySummary :=
  let variants := (grouped.map (·.2)).mergeSort comesFirst
  { label := if 1 < variants.length then "mixed" else (variants.head?.map (·.label)).getD "unknown"
    mixed := 1 < variants.length
    dominant := variants.head?
    variants := variants
    fileCount := fileCount
    totalBytes := totalBytes }

/-- A file joins the variant of its key, or begins it. -/
def addFile (file : EncodedFile) : Option QualityVariant → QualityVariant
  | some existing =>
    { existing with count := existing.count + 1, bytes := existing.bytes + bytesOf file }
  | none => describe toLowerCase file

/-- A variant joins the one of its key, or is copied. -/
def addVariant (variant : QualityVariant) : Option QualityVariant → QualityVariant
  | some existing =>
    { existing with
      count := existing.count + variant.count
      bytes := existing.bytes + variant.bytes }
  | none => variant

/-- Groups a set of files into the distinct encodings they represent. -/
def summarise (files : List (Option EncodedFile)) : QualitySummary :=
  let present := files.reduceOption
  assemble
    (OrderedMap.groupBy (fun file => variantKey (describe toLowerCase file))
      (addFile toLowerCase) present)
    present.length (present.map bytesOf).sum

def merge (summaries : List (Option QualitySummary)) : QualitySummary :=
  let present := summaries.reduceOption
  assemble (OrderedMap.groupBy variantKey addVariant (present.flatMap (·.variants)))
    (present.map (·.fileCount)).sum (present.map (·.totalBytes)).sum

end

end MediaCenterSync.Quality
