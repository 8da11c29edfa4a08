import MediaCenterSync.Correlation.Service
import MediaCenterSync.Lib.OrderedMap
import MediaCenterSync.Lib.Table
import MediaCenterSync.Share.Visibility

/-!
# Libraries, and the categories they merge into

Libraries of the same name are one category (`categories`).  A keyword files every library whose
name folds to it as the library it hangs on reads itself, unless an alias was typed for it.  What
the strings' own language does with a text is a `Language`; identifiers are UUIDs, on which every
order of texts is the same.  What is sorted is sorted stably, which is what `insertionSort` does.
-/

namespace MediaCenterSync.Libraries

open Correlation (MediaService serviceMode)
open Quality (isSpace trim)
open Share (LibraryKind)

/-! ### Texts -/

/-- What the strings' own language does.  A blank is the end of whatever decomposes together, it
decomposes into blanks, and it has no case. -/
structure Language (κ : Type*) where
  /-- `normalize('NFD')` -/
  nfd : List Char → List Char
  toLowerCase : List Char → List Char
  /-- `localeCompare` compares two texts as these compare. -/
  collate : String → κ
  nfd_cons : ∀ {c}, isSpace c → ∀ text, nfd (c :: text) = nfd [c] ++ nfd text
  nfd_concat : ∀ {c}, isSpace c → ∀ text, nfd (text ++ [c]) = nfd text ++ nfd [c]
  isSpace_nfd : ∀ {c}, isSpace c → ∀ d ∈ nfd [c], isSpace d
  toLowerCase_cons : ∀ {c}, isSpace c → ∀ text, toLowerCase (c :: text) = c :: toLowerCase text
  toLowerCase_concat : ∀ {c}, isSpace c → ∀ text,
    toLowerCase (text ++ [c]) = toLowerCase text ++ [c]

/-- `[\u0300-\u036f]` -/
def isMark (c : Char) : Bool := 0x300 ≤ c.toNat ∧ c.toNat ≤ 0x36F

/-- `[a-z0-9]` -/
def isPlain (c : Char) : Bool := c.isDigit ∨ 'a' ≤ c ∧ c ≤ 'z'

/-- `replace(/[^a-z0-9]+/g, '-')` -/
def dash (text : List Char) : List Char :=
  text.foldr (fun c rest =>
    if isPlain c then c :: rest else if rest.head? = some '-' then rest else '-' :: rest) []

/-- `replace(/^-+|-+$/g, '')` -/
def trimDashes (text : List Char) : List Char := (text.dropWhile (· = '-')).rdropWhile (· = '-')

section

variable {κ : Type*} (language : Language κ)

def stripped (text : String) : List Char := (language.nfd text.toList).filter (!isMark ·)

def categoryKeyOf (name : String) : String :=
  let folded := trimDashes (dash (language.toLowerCase (stripped language name)))
  if folded = [] then "library" else .ofList folded

end

/-! ### Rows -/

structure Library where
  id : String
  serviceId : String
  name : String
  «alias» : Option String
  /-- Where it sits in the gateway's own order, lowest first. -/
  position : ℤ
  kind : LibraryKind
  itemCount : ℕ
deriving DecidableEq

/-- A row of `category_keywords`. -/
structure CategoryKeyword where
  id : String
  /-- The library whose category it files into. -/
  libraryId : String
  keyword : String
  normalized : String
deriving DecidableEq

/-- The three tables; the keywords in the order they were written. -/
structure Tables where
  libraries : List Library
  services : List MediaService
  keywords : List CategoryKeyword
  ids_nodup : (libraries.map (·.id)).Nodup
  keywordIds_nodup : (keywords.map (·.id)).Nodup
  normalized_nodup : (keywords.map (·.normalized)).Nodup

/-! ### How a library reads -/

/-- `library.alias?.trim()`, unless it is empty. -/
def Library.alias? (library : Library) : Option String :=
  (library.alias.map trim).filter (· ≠ "")

/-- `library.alias?.trim() || library.name` -/
def Library.ownName (library : Library) : String := library.alias?.getD library.name

structure FiledCategory where
  name : String
  kind : LibraryKind
  position : ℤ

section

variable {κ : Type*} (language : Language κ)

/-- What each keyword folds a library into, keyed by the folded form. -/
def filedByKeyword (libraries : List Library) (keywords : List CategoryKeyword) :
    List (String × FiledCategory) :=
  keywords.foldl (fun filed keyword =>
    match Table.find (·.id) libraries keyword.libraryId with
    | none => filed
    | some anchor =>
      OrderedMap.modify filed keyword.normalized fun _ =>
        ⟨anchor.ownName, anchor.kind, anchor.position⟩) []

/-- What a keyword makes of this library, or nothing when none applies. -/
def keywordMatch (library : Library) (filed : List (String × FiledCategory)) :
    Option FiledCategory :=
  if library.alias?.isSome then none
  else OrderedMap.get filed (categoryKeyOf language library.name)

def foldsTo (library : Library) (normalized : String) : Bool :=
  library.alias? = none ∧ categoryKeyOf language library.name = normalized

/-- The name and the kind a library is read with, and whether it may name the category. -/
structure Reading where
  name : String
  kind : LibraryKind
  names : Bool

def read (filed : List (String × FiledCategory)) (library : Library) : Reading :=
  match keywordMatch language library filed with
  | some mapped => ⟨mapped.name, mapped.kind, false⟩
  | none => ⟨library.ownName, library.kind, true⟩

def keyOf (filed : List (String × FiledCategory)) (library : Library) : String :=
  categoryKeyOf language (read language filed library).name

/-! ### Categories -/

structure MediaCategory where
  key : String
  name : String
  kind : LibraryKind
  position : ℤ
  libraryIds : List String
  serviceIds : List String
  itemCount : ℕ
  «local» : Bool

def ourServiceIds (services : List MediaService) : List String :=
  (services.filter fun service => serviceMode service = .LOCAL).map (·.id)

/-- A category with one more library in it; the name and the kind are decided apart. -/
def joined (ours : List String) (library : Library) (existing : MediaCategory) : MediaCategory :=
  { existing with
    libraryIds := existing.libraryIds ++ [library.id]
    itemCount := existing.itemCount + library.itemCount
    «local» := existing.local || decide (library.serviceId ∈ ours)
    serviceIds :=
      if library.serviceId ∈ existing.serviceIds then existing.serviceIds
      else existing.serviceIds ++ [library.serviceId]
    position := min existing.position library.position }

/-- One library put into the category of its key, beside the position of the library the category
takes its name from; no position is further than every position. -/
def mergeInto (ours : List String) (filed : List (String × FiledCategory)) (library : Library) :
    Option (MediaCategory × Option ℤ) → MediaCategory × Option ℤ
  | none =>
    let reading := read language filed library
    ({ key := categoryKeyOf language reading.name
       name := reading.name
       kind := reading.kind
       position := library.position
       libraryIds := [library.id]
       serviceIds := [library.serviceId]
       itemCount := library.itemCount
       «local» := decide (library.serviceId ∈ ours) },
      if reading.names then some library.position else none)
  | some (existing, namedAt) =>
    let reading := read language filed library
    if reading.names ∧ ∀ position ∈ namedAt, library.position < position then
      ({ joined ours library existing with name := reading.name, kind := reading.kind },
        some library.position)
    else (joined ours library existing, namedAt)

/-- The categories of some libraries, in the order their first libraries came. -/
def merged (ours : List String) (filed : List (String × FiledCategory)) (libraries : List Library) :
    List (String × MediaCategory × Option ℤ) :=
  OrderedMap.groupBy (keyOf language filed) (mergeInto language ours filed) libraries

variable [LinearOrder κ]

/-- `left.position - right.position || left.name.localeCompare(right.name)` is not positive. -/
def before (left right : MediaCategory) : Prop :=
  left.position < right.position ∨
    left.position = right.position ∧ language.collate left.name ≤ language.collate right.name

instance : DecidableRel (before language) := fun _ _ => inferInstanceAs (Decidable (_ ∨ _))

def categories (libraries : List Library) (services : List MediaService)
    (keywords : List CategoryKeyword) : List MediaCategory :=
  ((merged language (ourServiceIds services) (filedByKeyword libraries keywords) libraries).map
    (·.2.1)).insertionSort (before language)

def Tables.folded (t : Tables) : List (String × FiledCategory) :=
  filedByKeyword t.libraries t.keywords

def Tables.categories (t : Tables) : List MediaCategory :=
  Libraries.categories language t.libraries t.services t.keywords

end

end MediaCenterSync.Libraries
