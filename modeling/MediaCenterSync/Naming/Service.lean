import MediaCenterSync.Placement.Service

/-!
# The folder a library keeps one season in

Reading the season a folder names, and writing another season into it the way the library spells it.
-/

namespace MediaCenterSync.Naming

open Placement (Folder)
open Quality (isSpace)
open TransferManager (Dir)

def SEASON_WORDS : List String := ["season", "saison", "series", "s"]

/-- What follows a word at the beginning of a text, whatever its case. -/
def afterWord (word : String) (text : List Char) : Option (List Char) :=
  if (text.take word.length).map Char.toLower = word.toList then some (text.drop word.length)
  else none

/-- `/^\s*\.?\s*(\d{1,3})$/` -/
def numberAfterWord (text : List Char) : Option (List Char) :=
  let text := text.dropWhile isSpace
  let text := if text.head? = some '.' then text.tail else text
  let digits := text.dropWhile isSpace
  if digits.all Char.isDigit ∧ 1 ≤ digits.length ∧ digits.length ≤ 3 then some digits else none

/-- `SEASON_FOLDER`: the number of a segment that names a season and nothing else. -/
def seasonDigits (segment : String) : Option (List Char) :=
  SEASON_WORDS.findSome? fun word =>
    (afterWord word (Quality.trim segment).toList).bind numberAfterWord

/-- `Number.parseInt` -/
def parseDigits (digits : List Char) : ℕ :=
  digits.foldl (fun number digit => 10 * number + (digit.toNat - '0'.toNat)) 0

def seasonFolderNumber (segment : String) : Option ℕ := (seasonDigits segment).map parseDigits

/-- `padStart(width, '0')` -/
def padStart (width : ℕ) (text : String) : String :=
  .ofList (List.replicate (width - text.toList.length) '0') ++ text

def renumbered (segment : String) (digits : List Char) (seasonNumber : ℤ) : String :=
  let before := (segment.toList.rdropWhile isSpace).rdrop digits.length
  let padded :=
    if 1 < digits.length then padStart digits.length (toString seasonNumber)
    else toString seasonNumber
  .ofList before ++ padded

/-- The same path with its season folder renumbered; `none` when it has none. -/
def withSeasonNumber (path : List String) (seasonNumber : ℤ) : Option (List String) := do
  let last ← path.getLast?
  let digits ← seasonDigits last
  return path.dropLast ++ [renumbered last digits seasonNumber]

def Folder.withSeasonNumber (folder : Folder) (seasonNumber : ℤ) : Option Folder :=
  match folder with
  | .absolute dir => (Naming.withSeasonNumber dir seasonNumber).map .absolute
  | .relative parts => (Naming.withSeasonNumber parts seasonNumber).map .relative

/-- `pinnedFolderOf`: the folder of the first row that has one, and the season being filed into
it. -/
def pinnedFolderOf (rows : List (Option Folder)) (seasonNumber : Option ℤ) : Option Folder :=
  (rows.findSome? id).map fun folder =>
    match seasonNumber with
    | none => folder
    | some number => (Folder.withSeasonNumber folder number).getD folder

end MediaCenterSync.Naming

/-!
## The name a pulled file lands under

`render` gives the path of a file below the root it is put in.  The folders come from `directory`,
which imitates the folders a file of ours is in and falls back to a template; the file's own name
comes from the first step of an order that can answer.  `disambiguate` gives the same file another
name.

A name below a root is the list of its segments.  `toLowerCase` is the case folding of the strings'
own language.
-/

namespace MediaCenterSync.Naming

open Matching (MediaKind)
open Quality (isSpace trim)
open TransferManager (Dir isInside)

/-! ### Data -/

inductive NamingScheme where
  | SOURCE
  | LOCAL
  | STANDARD
  | DOTTED
deriving DecidableEq

/-- What a name can be built from. -/
structure NameableItem where
  kind : MediaKind
  title : String
  year : Option ℤ
  seasonNumber : Option ℤ
  episodeNumber : Option ℤ
  seriesTitle : Option String
  /-- The year of the series, never the episode's own. -/
  seriesYear : Option ℤ
  sourcePath : Option Dir
deriving DecidableEq

/-- What tells two versions of one media apart. -/
structure VersionMarks where
  edition : Option String
  quality : Option String

structure NamingContext where
  samples : List Dir
  /-- A file our own library already holds. -/
  siblingPath : Option Dir
  libraryRoot : Option Dir
  /-- A folder somebody named for this one media. -/
  pinnedFolder : Option Dir

/-! ### Texts -/

/-- `[a-z0-9]`, whatever the case -/
def isPlain (c : Char) : Bool :=
  c.isDigit ∨ ('a' ≤ c ∧ c ≤ 'z') ∨ ('A' ≤ c ∧ c ≤ 'Z')

/-- `/\.[a-z0-9]{1,4}$/i`, the dot included; empty when there is none. -/
def extensionOf (name : List Char) : List Char :=
  let letters := name.rtakeWhile isPlain
  if 1 ≤ letters.length ∧ letters.length ≤ 4 ∧ (name.rdropWhile isPlain).getLast? = some '.' then
    '.' :: letters
  else []

def stripExtension (name : List Char) : List Char := name.rdrop (extensionOf name).length

def trimChars (text : List Char) : List Char := (text.dropWhile isSpace).rdropWhile isSpace

/-- Everything after the last separator of either kind. -/
def basename (path : Dir) : List Char :=
  (path.getLastD "").toList.rtakeWhile (· ≠ Char.ofNat 0x5C)

def extension (sourcePath : Option Dir) : String :=
  .ofList ((extensionOf ((sourcePath.map basename).getD [])).map Char.toLower)

def isIllegal (c : Char) : Bool :=
  c ∈ ['<', '>', ':', Char.ofNat 0x22, '/', Char.ofNat 0x5C, '|', '?', '*'] ∨ c.toNat < 0x20

/-- `replace(/\s+/g, ' ')` -/
def squeeze (text : List Char) : List Char :=
  text.foldr (fun c rest =>
    if isSpace c then if rest.head? = some ' ' then rest else ' ' :: rest else c :: rest) []

/-- The first so many UTF-16 units; half a pair is no character. -/
def takeUnits : ℕ → List Char → List Char
  | _, [] => []
  | 0, _ => []
  | count + 1, c :: rest =>
    if c.toNat < 0x10000 then c :: takeUnits count rest
    else
      match count with
      | 0 => [Char.ofNat 0xFFFD]
      | count + 1 => c :: takeUnits count rest

def RESERVED_NAMES : List String :=
  ["con", "prn", "aux", "nul", "com1", "com2", "com3", "com4", "com5", "com6", "com7", "com8",
    "com9", "lpt1", "lpt2", "lpt3", "lpt4", "lpt5", "lpt6", "lpt7", "lpt8", "lpt9"]

def MAX_COMPONENT_LENGTH : ℕ := 200

/-- The illegal characters, the long spaces and the trailing dots of a component taken out. -/
def cleaned (component : String) : List Char :=
  let legal := component.toList.map fun c => if isIllegal c then ' ' else c
  trimChars ((squeeze legal).rdropWhile fun c => c = '.' ∨ c = ' ')

def sanitise (component : String) : String :=
  let cleaned := cleaned component
  if cleaned = [] then "untitled"
  else
    let trimmed :=
      if MAX_COMPONENT_LENGTH < (Matching.units (.ofList cleaned)).length then
        trimChars (takeUnits MAX_COMPONENT_LENGTH cleaned)
      else cleaned
    if String.ofList ((stripExtension trimmed).map Char.toLower) ∈ RESERVED_NAMES then
      .ofList ('_' :: trimmed)
    else .ofList trimmed

def pad (value : ℤ) : String := padStart 2 (toString (max 0 value))

/-- A year in brackets, unless there is none. -/
def dated (title : String) (year : Option ℤ) : String :=
  match year.filter (· ≠ 0) with
  | some year => title ++ " (" ++ toString year ++ ")"
  | none => title

/-- `seriesTitle?.trim() || title` -/
def seriesOrOwn (item : NameableItem) : String :=
  ((item.seriesTitle.map trim).filter (· ≠ "")).getD item.title

/-- One media named the way a person would say it out loud. -/
def episodeLabel (item : NameableItem) : String :=
  if item.kind ≠ .EPISODE then item.title
  else
    let coordinates :=
      match item.seasonNumber, item.episodeNumber with
      | some season, some episode =>
        some ("S" ++ padStart 2 (toString season) ++ "E" ++ padStart 2 (toString episode))
      | _, _ => none
    " — ".intercalate ((((item.seriesTitle.map trim).filter (· ≠ "")).toList ++ coordinates.toList ++
      [item.title]).filter (· ≠ ""))

/-! ### The folders -/

/-- Whether the root being named inside is the folder somebody pinned. -/
def isPinnedRoot (context : NamingContext) : Bool :=
  context.pinnedFolder.any fun pinned => pinned ≠ [] ∧ context.libraryRoot = some pinned

/-- The season folder a sibling file sits in, when it sits in one. -/
def seasonSegmentOf (siblingPath : Option Dir) : Option String :=
  (siblingPath.map fun path => String.ofList (basename path.dropLast)).filter fun segment =>
    (seasonFolderNumber segment).isSome

/-- `_insideAPin`: what still has to be built under a folder somebody named. -/
def insideAPin (item : NameableItem) (context : NamingContext) : List String :=
  match item.seasonNumber with
  | none => []
  | some season =>
    let pin := String.ofList ((context.pinnedFolder.map basename).getD [])
    if (seasonFolderNumber pin).isSome then []
    else
      match seasonSegmentOf context.siblingPath with
      | none => [sanitise ("Season " ++ pad season)]
      | some spelled =>
        [sanitise (((withSeasonNumber [spelled] season).bind (·.getLast?)).getD spelled)]

/-- `_imitatedDirectory`: the folders our own library already uses, adapted to this item. -/
def imitatedDirectory (item : NameableItem) (context : NamingContext) : Option (List String) := do
  let sibling ← context.siblingPath
  let root ← context.libraryRoot
  let directory := sibling.dropLast
  if directory = [] ∨ !isInside directory root then none
  else
    let relative := directory.drop root.length
    if relative = [] then none
    else
      match item.seasonNumber with
      | none => some relative
      | some season => some ((withSeasonNumber relative season).getD relative)

def templateDirectory (item : NameableItem) : List String :=
  match item.kind with
  | .EPISODE =>
    [sanitise (dated (sanitise (seriesOrOwn item)) item.seriesYear),
      sanitise ("Season " ++ pad (item.seasonNumber.getD 0))]
  | .MOVIE => [sanitise (dated (sanitise item.title) item.year)]
  | _ => []

/-- `_directory`: where the file goes. -/
def directory (item : NameableItem) (context : NamingContext) : List String :=
  if isPinnedRoot context then insideAPin item context
  else (imitatedDirectory item context).getD (templateDirectory item)

/-! ### The file's own name -/

/-- `/s(\d{1,3})[\s._-]*e(\d{1,4})/i`, at the beginning of a text: what follows it. -/
def afterEpisodeTag (text : List Char) : Option (List Char) := do
  let text ← afterWord "s" text
  let digits := (text.takeWhile Char.isDigit).take 3
  if digits = [] then none
  else
    let gap := (text.drop digits.length).dropWhile fun c => isSpace c ∨ c ∈ ['.', '_', '-']
    let number ← afterWord "e" gap
    let digits := (number.takeWhile Char.isDigit).take 4
    if digits = [] then none else some (number.drop digits.length)

/-- The first episode tag of a name: what is before it and what is after it. -/
def splitAtTag : List Char → Option (List Char × List Char)
  | [] => none
  | c :: rest =>
    match afterEpisodeTag (c :: rest) with
    | some after => some ([], after)
    | none => (splitAtTag rest).map fun (before, after) => (c :: before, after)

def fromSource (item : NameableItem) : Option String :=
  ((item.sourcePath.map basename).filter (· ≠ [])).map fun name => sanitise (.ofList name)

/-- What is before the first place a text holds another at, and what is behind it. -/
def cutAtFirst (needle : List Char) : List Char → List Char × List Char
  | [] => ([], [])
  | c :: rest =>
    if needle <+: c :: rest then ([], (c :: rest).drop needle.length)
    else (cutAtFirst needle rest).map (c :: ·) id

/-- `_fromLocal`: imitate what the local library already does for this show. -/
def fromLocal (item : NameableItem) (context : NamingContext) (extension : String) :
    Option String := do
  let offered := if context.samples ≠ [] then context.samples else context.siblingPath.toList
  let sample ← offered.head?
  let (before, after) ← splitAtTag (stripExtension (basename sample))
  let season ← item.seasonNumber
  let episode ← item.episodeNumber
  let replacement := "S" ++ pad season ++ "E" ++ pad episode
  let renamed := before ++ replacement.toList ++ after
  let (beforeTag, afterTag) := cutAtFirst replacement.toList renamed
  let gap := afterTag.takeWhile fun c => isSpace c ∨ c ∈ ['.', '_', '-']
  let separator := if gap = [] then " - " else .ofList gap
  let title := if trim item.title = "" then "" else separator ++ sanitise item.title
  return sanitise (.ofList beforeTag ++ replacement ++ title ++ extension)

def standard (item : NameableItem) (extension : String) : String :=
  if item.kind = .EPISODE then
    let title := if trim item.title = "" then "" else " - " ++ sanitise item.title
    sanitise (sanitise (seriesOrOwn item) ++ " - S" ++ pad (item.seasonNumber.getD 0) ++ "E" ++
      pad (item.episodeNumber.getD 0) ++ title ++ extension)
  else sanitise (dated (sanitise item.title) item.year ++ extension)

/-- `replace(/\.{2,}/g, '.')` -/
def singleDots (text : List Char) : List Char :=
  text.foldr (fun c rest => if c = '.' ∧ rest.head? = some '.' then rest else c :: rest) []

def dots (parts : List (Option String)) : String :=
  let words := (parts.map fun part => trim (part.getD "")).filter (· ≠ "")
  let dotted := words.map fun word =>
    String.ofList ((squeeze (sanitise word).toList).map fun c => if c = ' ' then '.' else c)
  .ofList (singleDots (".".intercalate dotted).toList)

def dotted (item : NameableItem) (extension : String) : String :=
  if item.kind = .EPISODE then
    let tag := "S" ++ pad (item.seasonNumber.getD 0) ++ "E" ++ pad (item.episodeNumber.getD 0)
    sanitise (dots [some (seriesOrOwn item), item.seriesYear.map toString, some tag,
      some item.title] ++ extension)
  else sanitise (dots [some item.title, item.year.map toString] ++ extension)

def step (scheme : NamingScheme) (item : NameableItem) (context : NamingContext)
    (extension : String) : Option String :=
  match scheme with
  | .SOURCE => fromSource item
  | .LOCAL => fromLocal item context extension
  | .STANDARD => some (standard item extension)
  | .DOTTED => some (dotted item extension)

def fileName (order : List NamingScheme) (item : NameableItem) (context : NamingContext)
    (extension : String) : String :=
  (order.findSome? (step · item context extension)).getD (standard item extension)

def render (order : List NamingScheme) (item : NameableItem) (context : NamingContext) :
    List String :=
  directory item context ++ [fileName order item context (extension item.sourcePath)]

/-! ### Another name -/

/-- A marker in the form the name it is glued to cannot swallow. -/
def tagged (text : String) (tag : Bool) : String :=
  if tag then .ofList [Char.ofNat 0x7B] ++ "edition-" ++ text ++ .ofList [Char.ofNat 0x7D] else text

/-- What tells this copy from the one already there, and whether it is an edition. -/
def versionLabel (marks : VersionMarks) : Option (String × Bool) :=
  match (marks.edition.map trim).filter (· ≠ ""), (marks.quality.map trim).filter (· ≠ "") with
  | some edition, _ => some (sanitise edition, true)
  | none, some quality => some (sanitise quality, false)
  | none, none => none

/-- Does this name write its words with dots? -/
def isDotted (stem : List Char) : Bool := ' ' ∉ stem ∧ '.' ∈ stem

/-- The same name, with what tells the copy apart, or the number of the attempt. -/
def renamed (toLowerCase : String → String) (name : String) (marks : VersionMarks) (attempt : ℕ) :
    String :=
  let ending := (extensionOf name.toList).map Char.toLower
  let stem := name.toList.rdrop ending.length
  let usable := (versionLabel marks).filter fun label =>
    !((toLowerCase (tagged label.1 label.2)).toList <:+: (toLowerCase (.ofList stem)).toList)
  let counted :=
    match usable with
    | none => toString (attempt + 1)
    | some label => if attempt = 1 then label.1 else label.1 ++ " (" ++ toString attempt ++ ")"
  let suffix := tagged counted (isDotted stem || (usable.map (·.2)).getD false)
  sanitise (.ofList stem ++ " - " ++ suffix ++ .ofList ending)

/-- The same file under a name the path it wanted is not already using. -/
def disambiguate (toLowerCase : String → String) (relativeName : List String) (marks : VersionMarks)
    (attempt : ℕ) : List String :=
  let cut := relativeName.flatMap Placement.splitBackslashes
  cut.dropLast ++ [renamed toLowerCase (cut.getLastD "") marks attempt]

end MediaCenterSync.Naming
