import Mathlib.Data.List.Sort
import Mathlib.Data.Rat.Floor
import MediaCenterSync.Quality.Comparison

/-!
# Scoring one pair of media

Whether two rows of the catalogue are the same media, and on what evidence: the strategies are tried
in order of how much they prove, and the first that fires answers.  Titles are compared by Dice over
character bigrams, with a bonus for one that contains the other.

Strings are compared by their UTF-16 units, as their own language does, and `toLowerCase` is its
case folding.  A number is a rational, which stands for the double that prints as it; what the
machine answers to the arithmetic it does on its doubles is a parameter (`Arithmetic`).
-/

namespace MediaCenterSync.Matching

/-- What the machine answers to a sum, a difference and a quotient of doubles, and to one cut to
four digits.  Nothing is supposed of the answers, however they are rounded. -/
structure Arithmetic where
  add : ℚ → ℚ → ℚ
  sub : ℚ → ℚ → ℚ
  div : ℚ → ℚ → ℚ
  /-- `Number(value.toFixed(4))` -/
  toFixed4 : ℚ → ℚ

/-- The answers where nothing is rounded but to the four digits. -/
def Arithmetic.exact : Arithmetic where
  add := (· + ·)
  sub := (· - ·)
  div := (· / ·)
  toFixed4 value := ⌊value * 10000 + 1 / 2⌋ / 10000

/-! ### How alike two titles are -/

section

variable (arithmetic : Arithmetic)

def units (s : String) : List ℕ :=
  s.toList.flatMap fun c =>
    if c.toNat < 0x10000 then [c.toNat]
    else [0xD800 + (c.toNat - 0x10000) / 0x400, 0xDC00 + (c.toNat - 0x10000) % 0x400]

/-- The bigrams of a string without its spaces, each as often as it occurs. -/
def bigrams (value : String) : List (ℕ × ℕ) :=
  let compact := units (Quality.removeSpaces value)
  compact.zip compact.tail

def diceCoefficient (left right : String) : ℚ :=
  let leftBigrams := bigrams left
  let rightBigrams := bigrams right
  if leftBigrams = [] ∨ rightBigrams = [] then 0
  else
    let shared := (leftBigrams.dedup.map fun bigram =>
      min (leftBigrams.count bigram) (rightBigrams.count bigram)).sum
    arithmetic.div (2 * shared : ℕ) (leftBigrams.length + rightBigrams.length : ℕ)

def similarity (left right : String) : ℚ :=
  if left = right then if left = "" then 0 else 1
  else if left = "" ∨ right = "" then 0
  else
    let dice := diceCoefficient arithmetic left right
    let leftIsLonger := (units right).length ≤ (units left).length
    let longer := if leftIsLonger then left else right
    let shorter := if leftIsLonger then right else left
    -- a short title inside a longer one has to be substantial: `Up` inside `Growing Up` is not
    if 6 ≤ (units shorter).length ∧ units shorter <:+: units longer then max dice (85 / 100)
    else dice

end

/-! ### Media -/

inductive MediaKind where
  | MOVIE
  | SERIES
  | SEASON
  | EPISODE
  | COLLECTION
deriving DecidableEq

def MediaKind.value : MediaKind → String
  | .MOVIE => "movie"
  | .SERIES => "series"
  | .SEASON => "season"
  | .EPISODE => "episode"
  | .COLLECTION => "collection"

inductive MatchStrategy where
  | CHECKSUM
  | EXTERNAL_ID
  | SEASON_EPISODE
  | ABSOLUTE_EPISODE
  | NORMALIZED_TITLE
  | PATH
  | MANUAL
deriving DecidableEq

inductive SyncState where
  | LOCAL_ONLY
  | MISSING
  | AWAITING_INDEX
  | NOT_INDEXED
  | IN_SYNC
  | OUTDATED
  | CONFLICT
  | SYNCING
  | UNKNOWN
deriving DecidableEq

structure MediaFileInfo extends Quality.MediaFileInfo where
  path : String
  durationMs : Option ℚ
  contentId : Option String
  checksum : Option String
deriving DecidableEq

/-- The keys of the identifiers that correlate. -/
inductive Provider where
  | imdb
  | tmdb
  | tvdb
  | musicbrainz

def Provider.key : Provider → String
  | .imdb => "imdb"
  | .tmdb => "tmdb"
  | .tvdb => "tvdb"
  | .musicbrainz => "musicbrainz"

structure ExternalIds where
  imdb : Option String := none
  tmdb : Option String := none
  tvdb : Option String := none
  musicbrainz : Option String := none
deriving DecidableEq

def ExternalIds.get (ids : ExternalIds) : Provider → Option String
  | .imdb => ids.imdb
  | .tmdb => ids.tmdb
  | .tvdb => ids.tvdb
  | .musicbrainz => ids.musicbrainz

/-- The shape correlation works on. -/
structure MatchCandidate where
  id : String
  serviceId : String
  peerId : Option String
  parentId : Option String
  kind : MediaKind
  title : String
  normalizedTitle : String
  year : Option ℤ
  seasonNumber : Option ℤ
  episodeNumber : Option ℤ
  externalIds : ExternalIds
  file : Option MediaFileInfo

/-! ### Maps of sets -/

/-- A map from identifiers to sets of them: its pairs, in the order they came. -/
abbrev Links := List (String × String)

namespace Links

/-- `pairs.get(id)`, empty where there is none. -/
def get (pairs : Links) (id : String) : List String :=
  (pairs.filter (·.1 = id)).map (·.2)

/-- `pairs.get(from)?.has(to)` -/
def has (pairs : Links) (a b : String) : Bool := (a, b) ∈ pairs

def link (pairs : Links) (a b : String) : Links :=
  if (a, b) ∈ pairs then pairs else pairs ++ [(a, b)]

/-- The entries in the order of the map: by key first. -/
def entries (pairs : Links) : List (String × String) :=
  (pairs.map (·.1)).eraseDups.flatMap fun id => pairs.filter (·.1 = id)

end Links

structure MatchOptions where
  /-- Below it, a correlation is proposed and not applied. -/
  threshold : ℚ
  arithmetic : Arithmetic
  parentMatches : Links := []
  /-- The identifiers that genuinely name that episode, per item. -/
  episodeIdentifiers : List (String × List String) := []
  /-- Episodes the numbering alignment paired. -/
  absolutePairs : Links := []

/-- One correlation, before anything has decided to keep it. -/
structure MatchProposal where
  localItemId : String
  remoteItemId : String
  remoteServiceId : String
  remotePeerId : Option String
  strategy : MatchStrategy
  confidence : ℚ
  state : SyncState
  reason : Option String
  applied : Bool

/-- A strategy that fired, and how sure it is. -/
structure Score where
  strategy : MatchStrategy
  confidence : ℚ
deriving DecidableEq

def TITLE_FLOOR : ℚ := 62 / 100

def TITLE_CEILING : ℚ := 95 / 100

namespace CONFIDENCE

def checksum : ℚ := 1

def externalId : ℚ := 98 / 100

def seasonEpisode : ℚ := 95 / 100

def absoluteEpisode : ℚ := 9 / 10

def pathExact : ℚ := 85 / 100

def pathBasename : ℚ := 8 / 10

end CONFIDENCE

/-! ### Identifiers -/

def WORK_IDENTIFIERS : List Provider := [.imdb, .tmdb, .tvdb]

/-- Identifiers that correlate without being allowed to overrule the running time. -/
def CATALOGUE_IDENTIFIERS : List Provider := [.musicbrainz]

/-- `/^(tt)?0+$/i` -/
def isPlaceholder (value : String) : Bool :=
  let digits := match value.toList with
    | c :: d :: rest => if c ∈ ['t', 'T'] ∧ d ∈ ['t', 'T'] then rest else c :: d :: rest
    | chars => chars
  digits ≠ [] ∧ digits.all (· = '0')

/-- The value one identifier carries, when it carries one worth comparing. -/
def identifierValue (ids : ExternalIds) (key : Provider) : Option String := do
  let trimmed := Quality.trim (← ids.get key)
  if trimmed = "" ∨ isPlaceholder trimmed then none else some trimmed

def identifierKey (provider : Provider) (value : String) : String := provider.key ++ ":" ++ value

def agreesOn (left right : MatchCandidate) (provider : Provider) : Bool :=
  (identifierValue left.externalIds provider).any fun value =>
    identifierValue right.externalIds provider = some value

/-- Both sides carry the identifier, and it differs. -/
def differsOn (left right : MatchCandidate) (provider : Provider) : Bool :=
  (identifierValue left.externalIds provider).any fun value =>
    (identifierValue right.externalIds provider).any (value ≠ ·)

/-- Whether the two sides name different works. -/
def contradicted (left right : MatchCandidate) : Bool :=
  (left.kind = .MOVIE ∨ left.kind = .SERIES) ∧ WORK_IDENTIFIERS.any (differsOn left right)

/-- `_agreesOnAnEpisodeIdentifier`: an identifier both sides agree on names the episode on both. -/
def agreesOnAnEpisodeIdentifier (left right : MatchCandidate) (providers : List Provider)
    (options : MatchOptions) : Bool :=
  match options.episodeIdentifiers.lookup left.id, options.episodeIdentifiers.lookup right.id with
  | some leftKeys, some rightKeys => providers.any fun provider =>
      (identifierValue left.externalIds provider).any fun value =>
        identifierValue right.externalIds provider = some value ∧
          identifierKey provider value ∈ leftKeys ∧ identifierKey provider value ∈ rightKeys
  | _, _ => false

/-! ### The strategies -/

/-- A field that is there and not empty, on both sides, and the same. -/
def sameText (left right : Option String) : Bool :=
  left.any fun text => text ≠ "" ∧ right = some text

def checksumMatch (left right : MatchCandidate) : Option Score :=
  if sameText (left.file.bind (·.checksum)) (right.file.bind (·.checksum)) ∨
      sameText (left.file.bind (·.contentId)) (right.file.bind (·.contentId)) then
    some ⟨.CHECKSUM, CONFIDENCE.checksum⟩
  else none

def externalIdMatch (left right : MatchCandidate) (providers : List Provider)
    (options : MatchOptions) : Option Score :=
  let matched : Score := ⟨.EXTERNAL_ID, CONFIDENCE.externalId⟩
  if !providers.any (agreesOn left right) then none
  else if left.kind ≠ .EPISODE then some matched
  else if agreesOnAnEpisodeIdentifier left right providers options then some matched
  else if left.seasonNumber = none ∨ right.seasonNumber = none ∨ left.episodeNumber = none ∨
      right.episodeNumber = none then none
  else if left.seasonNumber ≠ right.seasonNumber ∨ left.episodeNumber ≠ right.episodeNumber then
    none
  else some matched

def underMatchedParents (left right : MatchCandidate) (options : MatchOptions) : Bool :=
  match left.parentId, right.parentId with
  | some leftParent, some rightParent =>
    leftParent ≠ "" ∧ rightParent ≠ "" ∧ options.parentMatches.has leftParent rightParent
  | _, _ => false

def seasonEpisodeMatch (left right : MatchCandidate) (options : MatchOptions) : Option Score :=
  if left.kind ≠ .EPISODE ∧ left.kind ≠ .SEASON then none
  else if left.seasonNumber = none ∨ left.seasonNumber ≠ right.seasonNumber then none
  else if left.kind = .EPISODE ∧ left.episodeNumber ≠ right.episodeNumber then none
  else if left.kind = .EPISODE ∧ left.episodeNumber = none then none
  else if !underMatchedParents left right options then none
  else some ⟨.SEASON_EPISODE, CONFIDENCE.seasonEpisode⟩

def absoluteEpisodeMatch (left right : MatchCandidate) (options : MatchOptions) : Option Score :=
  if left.kind ≠ .EPISODE then none
  else if !options.absolutePairs.has left.id right.id then none
  else
    let contradicted :=
      match options.episodeIdentifiers.lookup left.id,
          options.episodeIdentifiers.lookup right.id with
      | some leftKeys, some rightKeys => WORK_IDENTIFIERS.any fun provider =>
          (identifierValue left.externalIds provider).any fun leftValue =>
            (identifierValue right.externalIds provider).any fun rightValue =>
              leftValue ≠ rightValue ∧ identifierKey provider leftValue ∈ leftKeys ∧
                identifierKey provider rightValue ∈ rightKeys
      | _, _ => false
    if contradicted then none else some ⟨.ABSOLUTE_EPISODE, CONFIDENCE.absoluteEpisode⟩

/-- What the years make of a title's score. -/
def withYears (arithmetic : Arithmetic) (left right : Option ℤ) (confidence : ℚ) : ℚ :=
  match left, right with
  | some left, some right =>
    if left = right then min (arithmetic.add confidence (5 / 100)) TITLE_CEILING
    else if |left - right| ≤ 1 then arithmetic.sub confidence (1 / 10)
    else arithmetic.sub confidence (4 / 10)
  | _, _ => confidence

def titleMatch (left right : MatchCandidate) (options : MatchOptions) : Option Score :=
  let score := similarity options.arithmetic left.normalizedTitle right.normalizedTitle
  if score < TITLE_FLOOR then none
  else if (left.kind = .EPISODE ∨ left.kind = .SEASON) ∧
      (left.seasonNumber = none ∨ left.seasonNumber ≠ right.seasonNumber) then none
  else if left.kind = .SEASON ∧ !underMatchedParents left right options then none
  else if left.kind = .EPISODE ∧
      (left.episodeNumber = none ∨ left.episodeNumber ≠ right.episodeNumber) then none
  else
    let confidence := withYears options.arithmetic left.year right.year (min score TITLE_CEILING)
    if confidence ≤ 0 then none else some ⟨.NORMALIZED_TITLE, confidence⟩

section

variable (toLowerCase : String → String)

def basename (path : String) : String :=
  let cut := path.toList.map fun c => if c = '\\' then '/' else c
  toLowerCase (.ofList (cut.reverse.takeWhile (· ≠ '/')).reverse)

def pathMatch (left right : MatchCandidate) : Option Score := do
  let leftPath ← (left.file.map (·.path)).filter (· ≠ "")
  let rightPath ← (right.file.map (·.path)).filter (· ≠ "")
  if leftPath = rightPath then some ⟨.PATH, CONFIDENCE.pathExact⟩
  else if basename toLowerCase leftPath = basename toLowerCase rightPath ∧
      12 ≤ (units (basename toLowerCase leftPath)).length then
    some ⟨.PATH, CONFIDENCE.pathBasename⟩
  else none

/-! ### Two cuts -/

def SEPARATE_CUT_FLOOR_MS : ℚ := 30000

/-- Two copies that cannot be ordered: different cuts. -/
def isConflicting (left right : Option MediaFileInfo) : Bool :=
  match left.bind (·.durationMs), right.bind (·.durationMs) with
  | some left, some right =>
    let longest := max left right
    let difference := |left - right|
    0 < longest ∧ (120000 < difference ∨
      SEPARATE_CUT_FLOOR_MS < difference ∧ 5 / 100 < difference / longest)
  | _, _ => false

/-- `_separateCuts`: the veto for a pair no work identifier vouches for. -/
def separateCuts (left right : MatchCandidate) : Bool :=
  left.kind ≠ .EPISODE ∧ isConflicting left.file right.file

/-! ### One pair -/

/-- Score one pair, or `none` when nothing links them. -/
def score (left right : MatchCandidate) (options : MatchOptions) : Option Score :=
  if left.kind ≠ right.kind then none
  else (checksumMatch left right).or <|
    (externalIdMatch left right WORK_IDENTIFIERS options).or <|
    if contradicted left right ∨ separateCuts left right then none
    else (externalIdMatch left right CATALOGUE_IDENTIFIERS options).or <|
      (seasonEpisodeMatch left right options).or <|
      (absoluteEpisodeMatch left right options).or <|
      (titleMatch left right options).or (pathMatch toLowerCase left right)

/-- What the icon says for one pair. -/
def deriveState (left right : MatchCandidate) : SyncState :=
  match left.file, right.file with
  | none, none => .IN_SYNC
  | none, some _ => .MISSING
  | some _, none => .LOCAL_ONLY
  | some leftFile, some rightFile =>
    if isConflicting left.file right.file then .CONFLICT
    else if Quality.isBetter toLowerCase (some rightFile.toMediaFileInfo)
        (some leftFile.toMediaFileInfo) then .OUTDATED
    else .IN_SYNC

def deriveItemState (proposals : List MatchProposal) (heldLocally : Bool) : SyncState :=
  let applied := proposals.filter (·.applied)
  if applied = [] then if heldLocally then .LOCAL_ONLY else .MISSING
  else
    ([SyncState.MISSING, .OUTDATED, .CONFLICT].find? fun state =>
      applied.any (·.state = state)).getD .IN_SYNC

def minutes (file : Option MediaFileInfo) : String :=
  toString ⌊(file.bind (·.durationMs)).getD 0 / 60000 + 1 / 2⌋ ++ " min"

/-- `_reason` -/
def reasonFor (state : SyncState) (left right : MatchCandidate) (qualityReason : Option String) :
    Option String :=
  match state with
  | .OUTDATED => qualityReason
  | .CONFLICT =>
    some ("different cut (" ++ minutes right.file ++ " there against " ++ minutes left.file ++
      " here)")
  | _ => none

def toProposal (left right : MatchCandidate) (scored : Score) (options : MatchOptions) :
    MatchProposal :=
  let state := deriveState toLowerCase left right
  let comparison := Quality.compare toLowerCase (right.file.map (·.toMediaFileInfo))
    (left.file.map (·.toMediaFileInfo))
  { localItemId := left.id
    remoteItemId := right.id
    remoteServiceId := right.serviceId
    remotePeerId := right.peerId
    strategy := scored.strategy
    confidence := options.arithmetic.toFixed4 scored.confidence
    state := state
    reason := reasonFor state left right comparison.reason
    applied := options.threshold ≤ scored.confidence }

/-- `best.set`, unless the candidate has a proposal at least as sure. -/
def keepBest (best : List MatchProposal) (proposal : MatchProposal) : List MatchProposal :=
  if best.any (·.remoteItemId = proposal.remoteItemId) then
    best.map fun incumbent =>
      if incumbent.remoteItemId = proposal.remoteItemId ∧
        incumbent.confidence < proposal.confidence then proposal else incumbent
  else best ++ [proposal]

/-- Every other row that is the same media as this one, one proposal each, the surest first. -/
def correlate (item : MatchCandidate) (candidates : List MatchCandidate) (options : MatchOptions) :
    List MatchProposal :=
  let scored := (candidates.filter (·.id ≠ item.id)).filterMap fun candidate =>
    (score toLowerCase item candidate options).map (toProposal toLowerCase item candidate · options)
  (scored.foldl keepBest []).insertionSort fun left right => right.confidence ≤ left.confidence

end

end MediaCenterSync.Matching
