import Mathlib.Algebra.Order.Field.Rat
import Mathlib.Data.List.DropRight
import Mathlib.Data.Prod.Lex
import Mathlib.Data.Sign.Defs

/-!
# Which of two copies is better

The comparator the sync replaces files by: the resolution first, then the efficiency of the codec,
then the bitrate, then the size.  The last two ignore a difference that is small next to the larger
value and say nothing about a value that was not reported.

Numbers are rationals, a field nobody reported is `none`.  `toLowerCase` is the case folding of the
strings' own language.
-/

namespace MediaCenterSync.Quality

structure MediaFileInfo where
  size : Option ℚ
  videoCodec : Option String
  width : Option ℚ
  height : Option ℚ
  bitrate : Option ℚ
deriving DecidableEq

/-- Why one file beats another, in the order the comparator applies the rules. -/
inductive QualityAdvantage where
  | resolution
  | codec
  | bitrate
  | size

structure QualityComparison where
  order : SignType
  advantage : Option QualityAdvantage
  reason : Option String

/-! ### Resolutions -/

/-- Width thresholds for a resolution label, best first. -/
def resolutionBands : List (ℚ × String) :=
  [(3000, "2160p"), (1600, "1080p"), (1100, "720p"), (800, "576p"), (1, "480p")]

def heightBands : List (ℚ × String) :=
  [(1700, "2160p"), (900, "1080p"), (650, "720p"), (540, "576p"), (1, "480p")]

/-- The first band whose threshold a dimension reaches, when the dimension is usable. -/
def findBand (bands : List (ℚ × String)) (value : Option ℚ) : Option ℕ :=
  (value.filter (0 < ·)).bind fun value => bands.findIdx? (·.1 ≤ value)

/-- `Math.min(...found)`: the better of the two readings, `none` when neither dimension has one. -/
def bestBand (height width : Option ℚ) : Option ℕ :=
  match findBand resolutionBands width, findBand heightBands height with
  | some byWidth, some byHeight => some (min byWidth byHeight)
  | some byWidth, none => some byWidth
  | none, found => found

def resolutionLabel (height width : Option ℚ) : Option String :=
  (bestBand height width).bind fun band => (resolutionBands[band]?).map (·.2)

/-! ### Codecs -/

def videoCodecAliases : List (String × String) :=
  [("hevc", "x265"), ("h265", "x265"), ("h.265", "x265"), ("x265", "x265"), ("avc", "x264"),
    ("h264", "x264"), ("h.264", "x264"), ("x264", "x264"), ("avc1", "x264"), ("mpeg4", "xvid"),
    ("xvid", "xvid"), ("divx", "xvid"), ("msmpeg4v3", "xvid"), ("av1", "av1"), ("vp9", "vp9"),
    ("vp8", "vp8"), ("mpeg2video", "mpeg2"), ("mpeg2", "mpeg2")]

def codecEfficiency : List (String × ℕ) :=
  [("av1", 4), ("x265", 3), ("vp9", 3), ("x264", 2), ("vp8", 1), ("xvid", 1), ("mpeg2", 0)]

def unknownCodecEfficiency : ℕ := 2

/-- What `\s` matches and `trim` removes. -/
def isSpace (c : Char) : Bool :=
  c.toNat ∈ [0x20, 0xA0, 0x1680, 0x2028, 0x2029, 0x202F, 0x205F, 0x3000, 0xFEFF] ∨
    0x9 ≤ c.toNat ∧ c.toNat ≤ 0xD ∨ 0x2000 ≤ c.toNat ∧ c.toNat ≤ 0x200A

def trim (s : String) : String := .ofList ((s.toList.dropWhile isSpace).rdropWhile isSpace)

theorem trim_trim (s : String) : trim (trim s) = trim s := by
  set text := s.toList.dropWhile isSpace with htext
  have hhead : (text.rdropWhile isSpace).dropWhile isSpace = text.rdropWhile isSpace := by
    rcases htrimmed : text.rdropWhile isSpace with _ | ⟨c, tail⟩
    · rfl
    · -- what is left begins as the text does, which is not with a blank
      obtain ⟨rest, hrest⟩ := List.rdropWhile_prefix isSpace text
      have hfirst := List.head?_dropWhile_not isSpace s.toList
      rw [← htext, ← hrest, htrimmed, List.cons_append, List.head?_cons] at hfirst
      exact List.dropWhile_cons_of_neg (Bool.not_eq_true _ ▸ hfirst)
  rw [trim, trim, String.toList_ofList, ← htext, hhead, List.rdropWhile_idempotent]

/-- `replace(/\s+/g, '')` -/
def removeSpaces (s : String) : String := .ofList (s.toList.filter (!isSpace ·))

section

variable (toLowerCase : String → String)

def normalizeCodec (codec : Option String) (aliases : List (String × String)) : Option String :=
  (codec.filter (· ≠ "")).bind fun codec =>
    let cleaned := removeSpaces (toLowerCase (trim codec))
    if cleaned = "" then none else some ((aliases.lookup cleaned).getD cleaned)

def normalizeVideoCodec (codec : Option String) : Option String :=
  normalizeCodec toLowerCase codec videoCodecAliases

def efficiency (codec : Option String) : ℕ :=
  match codec with
  | none => unknownCodecEfficiency
  | some codec => (codecEfficiency.lookup codec).getD unknownCodecEfficiency

/-! ### The comparison -/

def bitrateSignificance : ℚ := 1 / 10

def sizeSignificance : ℚ := 1 / 20

/-- `_significantOrder`: two numbers compared, ignoring differences too small to mean anything. -/
def significantOrder (candidate current : Option ℚ) (significance : ℚ) : SignType :=
  match candidate, current with
  | some candidate, some current =>
    if candidate ≤ 0 ∨ current ≤ 0 then 0
    else if |candidate - current| / max candidate current < significance then 0
    else SignType.sign (candidate - current)
  | _, _ => 0

/-- `compare`, once both files are there. -/
def compareFiles (candidate current : MediaFileInfo) : QualityComparison :=
  let candidateHeight := candidate.height.getD 0
  let currentHeight := current.height.getD 0
  let candidateResolution := resolutionLabel candidate.height candidate.width
  let currentResolution := resolutionLabel current.height current.width
  if candidateResolution ≠ currentResolution ∧ (candidateHeight ≠ 0 ∨ currentHeight ≠ 0) then
    let order := candidateHeight - currentHeight
    { order := SignType.sign order
      advantage := some .resolution
      reason := some <|
        if 0 < order then
          "higher resolution (" ++ candidateResolution.getD "unknown" ++ " over " ++
            currentResolution.getD "unknown" ++ ")"
        else
          "lower resolution (" ++ candidateResolution.getD "unknown" ++ " against " ++
            currentResolution.getD "unknown" ++ ")" }
  else
  let candidateCodec := normalizeVideoCodec toLowerCase candidate.videoCodec
  let currentCodec := normalizeVideoCodec toLowerCase current.videoCodec
  let candidateEfficiency := efficiency candidateCodec
  let currentEfficiency := efficiency currentCodec
  if candidateEfficiency ≠ currentEfficiency then
    let order : ℚ := candidateEfficiency - currentEfficiency
    { order := SignType.sign order
      advantage := some .codec
      reason := some <|
        if 0 < order then
          "more efficient codec (" ++ candidateCodec.getD "unknown" ++ " over " ++
            currentCodec.getD "unknown" ++ ")"
        else
          "less efficient codec (" ++ candidateCodec.getD "unknown" ++ " against " ++
            currentCodec.getD "unknown" ++ ")" }
  else
  let bitrateOrder := significantOrder candidate.bitrate current.bitrate bitrateSignificance
  if bitrateOrder ≠ 0 then
    { order := bitrateOrder
      advantage := some .bitrate
      reason := some <|
        if 0 < bitrateOrder then "higher bitrate at equal resolution" else "lower bitrate" }
  else
  let sizeOrder := significantOrder candidate.size current.size sizeSignificance
  if sizeOrder ≠ 0 then
    { order := sizeOrder
      advantage := some .size
      reason := some <|
        if 0 < sizeOrder then "larger file at equal resolution and codec" else "smaller file" }
  else { order := 0, advantage := none, reason := none }

/-- Is the candidate a better copy than the one we hold? -/
def compare (candidate current : Option MediaFileInfo) : QualityComparison :=
  match candidate, current with
  | some candidate, some current => compareFiles toLowerCase candidate current
  | _, _ => { order := 0, advantage := none, reason := none }

/-- The question the sync actually asks, phrased as it is asked. -/
def isBetter (candidate current : Option MediaFileInfo) : Prop :=
  0 < (compare toLowerCase candidate current).order

instance (candidate current : Option MediaFileInfo) :
    Decidable (isBetter toLowerCase candidate current) :=
  inferInstanceAs (Decidable (0 < (compare toLowerCase candidate current).order))

end

end MediaCenterSync.Quality
