import MediaCenterSync.Libraries.Manager

/-!
# Keywords

A keyword is added to a category, moved to another and taken out again (`addKeyword`, `moveKeyword`,
`removeKeyword`); and a category is made to read as the one another library is in
(`mergeCategoryInto`).  A keyword hangs on the library of its category that `anchorOf` chooses.
-/

namespace MediaCenterSync.Libraries

open Quality (trim)

inductive ErrorKey where
  | LIBRARY_KEYWORD_INVALID
  | LIBRARY_KEYWORD_TAKEN
  | LIBRARY_KEYWORD_NOT_FOUND
  | LIBRARY_CATEGORY_NOT_FOUND

/-- A keyword, with the category it files into today and what it catches. -/
structure KeywordReading where
  id : String
  categoryKey : String
  categoryName : String
  keyword : String
  normalized : String
  libraryIds : List String

/-- One of ours first, then the lowest position, then the identifier. -/
def standsBefore (ours : List String) (left right : Library) : Prop :=
  (left.serviceId ∈ ours ∧ right.serviceId ∉ ours) ∨
    (left.serviceId ∈ ours ↔ right.serviceId ∈ ours) ∧
      (left.position < right.position ∨ left.position = right.position ∧ left.id ≤ right.id)

instance (ours : List String) : DecidableRel (standsBefore ours) :=
  fun _ _ => inferInstanceAs (Decidable (_ ∨ _))

namespace Tables

variable (t : Tables)

/-! ### The rows -/

/-- `findByIds` of libraries -/
def findByIds (ids : List String) : List Library :=
  (t.libraries.filter (·.id ∈ ids)).insertionSort fun left right => left.name ≤ right.name

def findByNormalized (normalized : String) : Option CategoryKeyword :=
  Table.find (·.normalized) t.keywords normalized

/-- An identifier no keyword has. -/
abbrev FreshId : Type := {id : String // id ∉ t.keywords.map (·.id)}

/-- `save`, of a row that is new -/
def insertKeyword (fresh : t.FreshId) (libraryId keyword normalized : String)
    (h : t.findByNormalized normalized = none) : Tables where
  libraries := t.libraries
  services := t.services
  keywords := t.keywords ++ [⟨fresh.1, libraryId, keyword, normalized⟩]
  ids_nodup := t.ids_nodup
  keywordIds_nodup := by
    rw [List.map_append, List.map_singleton, ← List.concat_eq_append]
    exact t.keywordIds_nodup.concat fresh.2
  normalized_nodup := by
    rw [List.map_append, List.map_singleton, ← List.concat_eq_append]
    refine t.normalized_nodup.concat fun hin => ?_
    obtain ⟨row, hrow, heq⟩ := List.mem_map.mp hin
    exact List.find?_eq_none.mp h row hrow (decide_eq_true heq)

/-- `save`, of a row that hangs on another library -/
def anchorKeyword (id libraryId : String) : Tables where
  libraries := t.libraries
  services := t.services
  keywords := t.keywords.map fun row =>
    if row.id = id then { row with libraryId := libraryId } else row
  ids_nodup := t.ids_nodup
  keywordIds_nodup := by
    rw [List.map_map, List.map_congr_left (g := (·.id))]
    · exact t.keywordIds_nodup
    · intro row _
      simp only [Function.comp_apply]
      split_ifs <;> rfl
  normalized_nodup := by
    rw [List.map_map, List.map_congr_left (g := (·.normalized))]
    · exact t.normalized_nodup
    · intro row _
      simp only [Function.comp_apply]
      split_ifs <;> rfl

def deleteKeyword (id : String) : Tables where
  libraries := t.libraries
  services := t.services
  keywords := Table.delete (·.id) t.keywords id
  ids_nodup := t.ids_nodup
  keywordIds_nodup := t.keywordIds_nodup.sublist (List.filter_sublist.map _)
  normalized_nodup := t.normalized_nodup.sublist (List.filter_sublist.map _)

/-- `save`, of libraries with another alias -/
def rename (ids : List String) (name : String) : Tables where
  libraries := t.libraries.map fun library =>
    if library.id ∈ ids then { library with «alias» := some name } else library
  services := t.services
  keywords := t.keywords
  ids_nodup := by
    rw [List.map_map, List.map_congr_left (g := (·.id))]
    · exact t.ids_nodup
    · intro library _
      simp only [Function.comp_apply]
      split_ifs <;> rfl
  keywordIds_nodup := t.keywordIds_nodup
  normalized_nodup := t.normalized_nodup

variable {κ : Type*} [LinearOrder κ] (language : Language κ)

/-! ### Reading keywords -/

def categoryOf (libraryId : String) : Option MediaCategory :=
  (t.categories language).reverse.find? (libraryId ∈ ·.libraryIds)

/-- `keywords`: each keyword whose library is still there. -/
def readKeywords : List KeywordReading :=
  t.keywords.filterMap fun row =>
    (t.categoryOf language row.libraryId).map fun category =>
      { id := row.id
        categoryKey := category.key
        categoryName := category.name
        keyword := row.keyword
        normalized := row.normalized
        libraryIds := (t.libraries.filter (foldsTo language · row.normalized)).map (·.id) }

def oneKeyword (id : String) : Except ErrorKey KeywordReading :=
  match (t.readKeywords language).find? (·.id = id) with
  | none => .error .LIBRARY_KEYWORD_NOT_FOUND
  | some found => .ok found

def requireKeyword (id : String) : Except ErrorKey CategoryKeyword :=
  match Table.find (·.id) t.keywords id with
  | none => .error .LIBRARY_KEYWORD_NOT_FOUND
  | some row => .ok row

def requireCategory (key : String) : Except ErrorKey MediaCategory :=
  match (t.categories language).find? (·.key = key) with
  | none => .error .LIBRARY_CATEGORY_NOT_FOUND
  | some category => .ok category

/-- `_anchorOf`: the library a category's keywords hang off. -/
def anchorOf (category : MediaCategory) : Except ErrorKey String :=
  match ((t.findByIds category.libraryIds).insertionSort
    (standsBefore (ourServiceIds t.services))).head? with
  | none => .error .LIBRARY_CATEGORY_NOT_FOUND
  | some anchor => .ok anchor.id

end Tables

/-- `_normalizeKeyword`: the folded form of a keyword, unless it folds to nothing. -/
def normalizeKeyword {κ : Type*} (language : Language κ) (keyword : String) :
    Except ErrorKey String :=
  if (stripped language keyword).any Char.isAlphanum then .ok (categoryKeyOf language keyword)
  else .error .LIBRARY_KEYWORD_INVALID

namespace Tables

variable (t : Tables) {κ : Type*} [LinearOrder κ] (language : Language κ)

/-! ### Filing -/

/-- Plugs a name into a category, for every library that ever carries it. -/
def addKeyword (fresh : t.FreshId) (categoryKey keyword : String) :
    Except ErrorKey (Tables × KeywordReading) := do
  let normalized ← normalizeKeyword language keyword
  let category ← t.requireCategory language categoryKey
  match h : t.findByNormalized normalized with
  | some existing =>
    if existing.libraryId ∈ category.libraryIds then
      return (t, ← t.oneKeyword language existing.id)
    else throw .LIBRARY_KEYWORD_TAKEN
  | none =>
    let anchor ← t.anchorOf category
    let saved := t.insertKeyword fresh anchor (trim keyword) normalized h
    return (saved, ← saved.oneKeyword language fresh.1)

def moveKeyword (id categoryKey : String) : Except ErrorKey (Tables × KeywordReading) := do
  let row ← t.requireKeyword id
  let category ← t.requireCategory language categoryKey
  let anchor ← t.anchorOf category
  let saved := t.anchorKeyword row.id anchor
  return (saved, ← saved.oneKeyword language row.id)

def removeKeyword (id : String) : Except ErrorKey Tables := do
  let row ← t.requireKeyword id
  return t.deleteKeyword row.id

/-- Makes one category read as the category a destination library is in; answers the name its
libraries now read as, or nothing when none was touched. -/
def mergeCategoryInto (key destinationLibraryId : String) : Tables × Option String :=
  let categories := t.categories language
  match categories.find? (destinationLibraryId ∈ ·.libraryIds), categories.find? (·.key = key) with
  | some destination, some source =>
    let name := trim destination.name
    if destination.key = source.key ∨ name = "" then (t, none)
    else
      let libraries := t.findByIds (destinationLibraryId :: source.libraryIds)
      match libraries.find? (·.id = destinationLibraryId) with
      | none => (t, none)
      | some target =>
        if target.serviceId ∉ ourServiceIds t.services then (t, none)
        else
          let renamed := (libraries.filter (·.id ≠ destinationLibraryId)).map (·.id)
          (t.rename renamed name, if renamed = [] then none else some name)
  | _, _ => (t, none)

end Tables

end MediaCenterSync.Libraries
