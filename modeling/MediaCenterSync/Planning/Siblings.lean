import MediaCenterSync.Planning.Select

/-!
# The files of ours that a pulled file is put beside

A service reports its own paths.  `toLocalPath` says where the gateway reaches them: the root of the
library that holds the path is replaced by the directory the service's mappings give it.  On it rest
the libraries a placement can choose from (`placementLibraries`) and the files of ours whose folders
are imitated (`localSiblings`), one for each show.

`normalize` is the title normaliser.
-/

namespace MediaCenterSync.Planning

open Placement (PlacementLibrary)
open TransferManager (Dir isInside)

/-! ### Translating a path -/

/-- `join`, of an absolute path. -/
def join (base rest : List String) : Dir :=
  ((base ++ rest).foldl (fun kept part =>
    if part = "" ∨ part = "." then kept
    else if part = ".." then kept.tail
    else part :: kept) []).reverse

/-- The mapping with the longest prefix of a path; the first of those. -/
def mappingOf (mappings : List RootMapping) (path : Dir) : Option RootMapping :=
  mappings.foldl (fun best mapping =>
    if isInside path mapping.remoteRoot ∧
        best.all (·.remoteRoot.length < mapping.remoteRoot.length) then some mapping
    else best) none

/-- One reported path, rewritten through the most specific mapping it sits under. -/
def mappedLocalPath (reported : Dir) (mappings : List RootMapping) : Option Dir :=
  if reported.any (· ∈ [".", ".."]) then none
  else (mappingOf mappings reported).map fun mapping =>
    join mapping.localRoot (reported.drop mapping.remoteRoot.length)

def derivedLocalRoots (reported : List Dir) (mappings : List RootMapping) : List Dir :=
  (reported.filterMap (mappedLocalPath · mappings)).eraseDups

def derivedLocalPath (reported : List Dir) (mappings : List RootMapping) : Option Dir :=
  reported.findSome? (mappedLocalPath · mappings)

/-- Where the gateway reaches one declared root of a library. -/
def reachableRoot (library : Library) (root : Dir) (service : Option MediaService) : Option Dir :=
  let mappings := (service.map (·.rootMappings)).getD []
  let mapped := mappedLocalPath root mappings
  if mapped = none ∨ mapped = derivedLocalPath library.paths mappings then
    library.localPath.or mapped
  else mapped

def toLocalPath (library : Library) (reported : Option Dir) (service : Option MediaService) :
    Option Dir := do
  let reported ← reported
  let root ← library.paths.find? (isInside reported)
  let base ← reachableRoot library root service
  return if reported = root then base else join base (reported.drop root.length)

/-! ### The catalogue -/

namespace Catalogue

variable (catalogue : Catalogue)

def findLibrary (id : String) : Option Library := catalogue.libraries.find? (·.id = id)

def findLocalService (id : String) : Option MediaService := catalogue.findLocal.find? (·.id = id)

/-- Where the gateway reaches the file of a row on one of our services. -/
def gatewayPath (item : MediaItem) : Option Dir := do
  let library ← catalogue.findLibrary item.libraryId
  toLocalPath library (item.file.bind (·.path)) (catalogue.findLocalService item.serviceId)

def categoryKeyOf (libraryId : String) : Option String :=
  ((catalogue.categories.filter (libraryId ∈ ·.libraryIds)).getLast?).map (·.key)

def placementLibrary (library : Library) : PlacementLibrary where
  id := library.id
  name := library.name
  kind := library.kind
  localPath := library.localPath
  localRoots := ((catalogue.findLocalService library.serviceId).map fun service =>
    derivedLocalRoots library.paths service.rootMappings).getD []
  writable := library.writable
  isDefaultTarget := library.isDefaultTarget
  categoryKey := catalogue.categoryKeyOf library.id

def placementLibraries : List PlacementLibrary :=
  (catalogue.libraries.filter (·.serviceId ∈ catalogue.findLocal.map (·.id))).map
    catalogue.placementLibrary

/-! ### Shows -/

def parentOf (item : MediaItem) : Option MediaItem := item.parentId.bind catalogue.find

end Catalogue

/-- The show an episode belongs to, as its folder is named. -/
structure SeriesFacts where
  title : String
  year : Option ℤ

section

variable (catalogue : Catalogue) (normalize : String → String)

/-- `_seriesFacts`: the title of the show, and the year of the series row alone. -/
def seriesFacts (item : MediaItem) : Option SeriesFacts :=
  if item.kind ≠ .EPISODE then none
  else
    let season := catalogue.parentOf item
    let series := season.bind catalogue.parentOf
    (((series.map (·.title)).or (season.map (·.title))).filter (· ≠ "")).map fun title =>
      ⟨title, series.bind (·.year)⟩

/-- What a planned item is looked up by: the title of the show for an episode. -/
def siblingKey (item : MediaItem) : String :=
  if item.kind ≠ .EPISODE then item.normalizedTitle
  else ((seriesFacts catalogue item).map fun facts => normalize facts.title).getD ""

/-! ### Siblings -/

/-- What a walk below some shows has come to: the show each row is under, the rows to go on from,
and one file for each show. -/
structure Walk where
  owner : List (String × String)
  frontier : List String
  found : List (String × Dir)

/-- One row below a show that has no file yet. -/
def Walk.visit (walk : Walk) (child : MediaItem) : Walk :=
  match child.parentId.bind (List.lookup · walk.owner) with
  | none => walk
  | some title =>
    if (walk.found.lookup title).isSome then walk
    else
      let owner := (child.id, title) :: walk.owner
      match catalogue.gatewayPath child with
      | none => { walk with owner := owner, frontier := walk.frontier ++ [child.id] }
      | some path => { walk with owner := owner, found := walk.found ++ [(title, path)] }

/-- The rows right below those reached. -/
def Walk.level (walk : Walk) : Walk :=
  (catalogue.childrenOf walk.frontier).foldl (Walk.visit catalogue) { walk with frontier := [] }

/-- `_fileUnder`: one file from beneath each of these rows, two levels down. -/
def fileUnder (containers : List MediaItem) : List (String × Dir) :=
  let start : Walk :=
    ⟨(containers.map fun row => (row.id, row.normalizedTitle)).reverse, containers.map (·.id), []⟩
  ((start.level catalogue).level catalogue).found

/-- `_localSiblings`: one local file for each show, for the naming to imitate. -/
def localSiblings (items : List MediaItem) : List (String × Dir) :=
  let titles := (items.map (siblingKey catalogue normalize)).filter (· ≠ "")
  let rows := catalogue.items.filter fun row =>
    row.normalizedTitle ∈ titles ∧ catalogue.isLocal row
  (rows.filterMap fun row => (catalogue.gatewayPath row).map (row.normalizedTitle, ·)) ++
    fileUnder catalogue (rows.filter (·.file = none))

end

end MediaCenterSync.Planning
