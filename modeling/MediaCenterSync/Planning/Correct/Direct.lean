import MediaCenterSync.Planning.Correct.Plan

/-!
# A catalogue under the gateway's own paths

A media server reports paths of its own, and the gateway reaches the files elsewhere.  `direct` is a
row as it would be if its server reported the gateway's path, and two catalogues are `Direct` when
one is the other with such rows and everything is reached where it was.  The scope, the groups and
what is wanted of them are the same in both, row for row: `Direct.select`.
-/

namespace MediaCenterSync.Planning

open OrderedMap (groupBy)
open TransferManager (Dir)

namespace Catalogue

variable (catalogue : Catalogue)

/-- The file of a row on one of our services, under the path the gateway reaches it at. -/
def directFile (row : MediaItem) : Option MediaFile :=
  if catalogue.isLocal row then
    row.file.map fun file => { file with path := (catalogue.gatewayPath row).or file.path }
  else row.file

/-- A row, as a server that reports the gateway's own paths has it. -/
@[simps] def direct (row : MediaItem) : MediaItem := { row with file := catalogue.directFile row }

/-- The same catalogue, with services that report the gateway's own paths. -/
structure Direct (catalogue other : Catalogue) : Prop where
  items : other.items = catalogue.items.map catalogue.direct
  services : other.services.map ({ · with rootMappings := [] }) =
    catalogue.services.map ({ · with rootMappings := [] })
  /-- A library is the same, and is reached where it was. -/
  libraries :
    other.libraries.map (fun one => ({ one with paths := [] }, other.placementLibrary one)) =
      catalogue.libraries.map fun one => ({ one with paths := [] }, catalogue.placementLibrary one)
  categories : other.categories = catalogue.categories
  matchRows : other.matchRows = catalogue.matchRows
  /-- A file is reached where it was. -/
  gatewayPath : ∀ row ∈ catalogue.items,
    other.gatewayPath (catalogue.direct row) = catalogue.gatewayPath row

/-! ### Rows -/

variable {catalogue}

theorem bind_directFile {α : Type*} (g : MediaFile → Option α)
    (hg : ∀ file path, g { file with path := path } = g file) (row : MediaItem) :
    (catalogue.directFile row).bind g = row.file.bind g := by
  unfold directFile
  split_ifs with hlocal
  · cases row.file with
    | none => rfl
    | some file => exact hg file _
  · rfl

theorem map_directFile {α : Type*} (g : MediaFile → α)
    (hg : ∀ file path, g { file with path := path } = g file) (row : MediaItem) :
    (catalogue.directFile row).map g = row.file.map g := by
  have hsame : (catalogue.directFile row).bind (some ∘ g) = row.file.bind (some ∘ g) :=
    bind_directFile (some ∘ g) (fun file path => congrArg some (hg file path)) row
  rwa [← Option.map_eq_bind, ← Option.map_eq_bind] at hsame

@[simp] theorem isSome_directFile (row : MediaItem) :
    (catalogue.directFile row).isSome = row.file.isSome := by
  rw [← Option.isSome_map (f := fun _ => ()), map_directFile _ (fun _ _ => rfl), Option.isSome_map]

@[simp] theorem bytes_direct (row : MediaItem) : (catalogue.direct row).bytes = row.bytes := by
  unfold MediaItem.bytes
  rw [direct_file, map_directFile _ fun _ _ => rfl]

@[simp] theorem versionIdOf_directFile (row : MediaItem) :
    versionIdOf (catalogue.directFile row) = versionIdOf row.file := by
  unfold versionIdOf
  rw [bind_directFile _ fun _ _ => rfl]

@[simp] theorem contentKeys_directFile (row : MediaItem) :
    contentKeys (catalogue.directFile row) = contentKeys row.file := by
  unfold contentKeys
  rw [bind_directFile _ fun _ _ => rfl, bind_directFile _ fun _ _ => rfl]

@[simp] theorem identity_direct (row : MediaItem) :
    identity (catalogue.direct row) = identity row := by
  simp [identity]

@[simp] theorem isConflicting_direct (left right : MediaItem) :
    isConflicting (catalogue.direct left) (catalogue.direct right) = isConflicting left right := by
  have hduration (row : MediaItem) : ((catalogue.directFile row).map (·.info)).bind (·.durationMs)
      = (row.file.map (·.info)).bind (·.durationMs) := by
    rw [Option.bind_map, Option.bind_map, bind_directFile _ fun _ _ => rfl]
  unfold isConflicting Matching.isConflicting
  rw [direct_file, direct_file, hduration, hduration]

@[simp] theorem interchangeable_direct (row : Correlation.MediaMatch) (left right : MediaItem) :
    interchangeable row (catalogue.direct left) (catalogue.direct right) =
      interchangeable row left right := by
  simp [interchangeable, sameContent]

/-- A transfer of rows, as they would be reported. -/
def directWanted (catalogue : Catalogue) (wanted : WantedItem) : WantedItem where
  item := catalogue.direct wanted.item
  heldAs := wanted.heldAs.map catalogue.direct
  state := wanted.state

@[simp] theorem stateOf_direct (source : MediaItem) (heldAs : Option MediaItem) :
    stateOf (catalogue.direct source) (heldAs.map catalogue.direct) = stateOf source heldAs := by
  simp [stateOf]

@[simp] theorem keeps_direct (toLowerCase : String → String) (filter : SyncFilter)
    (wanted : WantedItem) :
    keeps toLowerCase filter (catalogue.directWanted wanted) = keeps toLowerCase filter wanted := by
  unfold keeps
  simp only [directWanted, bytes_direct]
  -- all that is read of the copy is whether there is one
  cases wanted.heldAs with
  | none => rfl
  | some held =>
    have hheld : (some (catalogue.direct held) ≠ none) = (some held ≠ none) := by simp
    rw [Option.map_some]
    congr 3

@[simp] theorem estimateOf_direct (scope : SyncScope) (wanted : List WantedItem) :
    estimateOf scope (wanted.map catalogue.directWanted) = estimateOf scope wanted := by
  simp [estimateOf, directWanted, Function.comp_def]

theorem groups_direct (candidates : List MediaItem) :
    groups (candidates.map catalogue.direct) =
      (groups candidates).map (Prod.map id (List.map catalogue.direct)) := by
  unfold groups
  rw [List.filter_map]
  simp only [Function.comp_def, direct_file, isSome_directFile]
  refine OrderedMap.groupBy_map identity_direct (fun item members => ?_) _
  rw [List.map_append, List.map_singleton]
  cases members <;> rfl

/-- A row of another server, or one whose own path is the gateway's, is left alone. -/
theorem direct_eq_self {row : MediaItem}
    (h : catalogue.isLocal row → ∀ path, catalogue.gatewayPath row = some path →
      row.file.bind (·.path) = some path) : catalogue.direct row = row := by
  have hfile : catalogue.directFile row = row.file := by
    unfold directFile
    split_ifs with hlocal
    · cases hfile : row.file with
      | none => rfl
      | some file =>
        cases hpath : catalogue.gatewayPath row with
        | none => rfl
        | some path =>
          have hreported : file.path = some path := by
            simpa [hfile] using h hlocal path hpath
          rw [Option.map_some, Option.some_or, ← hreported]
    · rfl
  rw [direct, hfile]

/-! ### The catalogue -/

namespace Direct

variable {other : Catalogue} (h : catalogue.Direct other)

include h

theorem serviceIds : other.services.map (·.id) = catalogue.services.map (·.id) := by
  have hids := congrArg (List.map MediaService.id) h.services
  rwa [List.map_map, List.map_map] at hids

theorem localIds : other.findLocal.map (·.id) = catalogue.findLocal.map (·.id) := by
  have hids := congrArg (fun services => (services.filter fun service : MediaService =>
    service.filesMounted ∧ service.peerId = none).map (·.id)) h.services
  simp only [List.filter_map, List.map_map] at hids
  exact hids

theorem isLocal (row : MediaItem) :
    other.isLocal (catalogue.direct row) = catalogue.isLocal row := by
  unfold Catalogue.isLocal
  rw [h.localIds, direct_serviceId]

theorem find (id : String) : other.find id = (catalogue.find id).map catalogue.direct := by
  unfold Catalogue.find
  rw [h.items, List.find?_map]
  rfl

theorem childrenOf (ids : List String) :
    other.childrenOf ids = (catalogue.childrenOf ids).map catalogue.direct := by
  unfold Catalogue.childrenOf
  rw [h.items, List.filter_map]
  rfl

theorem childIds (ids : List String) :
    (other.childrenOf ids).map (·.id) = (catalogue.childrenOf ids).map (·.id) := by
  rw [h.childrenOf, List.map_map]
  rfl

theorem below (depth : ℕ) (seen frontier : List String) :
    other.below depth seen frontier = catalogue.below depth seen frontier := by
  induction depth generalizing seen frontier with
  | zero => rfl
  | succ depth ih =>
    unfold Catalogue.below
    simp only [h.childIds, ih]

theorem length_items : other.items.length = catalogue.items.length := by
  rw [h.items, List.length_map]

theorem scopedItems (scope : SyncScope) :
    other.scopedItems scope = catalogue.scopedItems scope := by
  unfold Catalogue.scopedItems descendants
  rw [h.length_items, h.below]

theorem scopedLibraries (scope : SyncScope) :
    other.scopedLibraries scope = catalogue.scopedLibraries scope := by
  unfold Catalogue.scopedLibraries librariesOfCategory
  rw [h.categories]

theorem sourceOrder (sourceServiceIds : List String) :
    other.sourceOrder sourceServiceIds = catalogue.sourceOrder sourceServiceIds := by
  unfold Catalogue.sourceOrder
  rw [h.serviceIds]

theorem candidates (effective : EffectiveRequest) :
    other.candidates effective = (catalogue.candidates effective).map (·.map catalogue.direct) := by
  unfold Catalogue.candidates
  rw [h.sourceOrder, h.scopedItems, h.scopedLibraries]
  dsimp only
  split_ifs
  · rfl
  · rw [h.items, List.filter_map]
    rfl

/-! ### What is wanted -/

theorem counterparts (item : MediaItem) :
    other.counterparts (catalogue.direct item) =
      (catalogue.counterparts item).map catalogue.direct := by
  unfold Catalogue.counterparts
  rw [h.matchRows, List.map_filterMap]
  refine List.filterMap_congr fun row _ => ?_
  have hfind : (otherSide row item.id).bind other.find =
      ((otherSide row item.id).bind catalogue.find).map catalogue.direct := by
    cases otherSide row item.id with
    | none => rfl
    | some id => exact h.find id
  rw [direct_id, hfind, Option.filter_map, Option.filter_map]
  simp only [Function.comp_def, direct_id, interchangeable_direct]

theorem sourceOf (order : List String) (members : List MediaItem) :
    Planning.sourceOf other order (members.map catalogue.direct) =
      (Planning.sourceOf catalogue order members).map catalogue.direct := by
  unfold Planning.sourceOf
  have hremote : (members.map catalogue.direct).filter (!other.isLocal ·) =
      (members.filter (!catalogue.isLocal ·)).map catalogue.direct := by
    rw [List.filter_map]
    simp only [Function.comp_def, h.isLocal]
  rw [hremote, ← List.head?_map]
  exact congrArg List.head?
    (List.map_insertionSort _ _ catalogue.direct _ fun _ _ _ _ => Iff.rfl).symm

theorem localCopies (members : List MediaItem) (source : MediaItem) :
    Planning.localCopies other (members.map catalogue.direct) (catalogue.direct source) =
      (Planning.localCopies catalogue members source).map catalogue.direct := by
  unfold Planning.localCopies
  have hcounterparts : ((members.map catalogue.direct).flatMap other.counterparts).filter
        (other.isLocal ·) =
      ((members.flatMap catalogue.counterparts).filter (catalogue.isLocal ·)).map
        catalogue.direct := by
    simp only [List.flatMap_map, h.counterparts, ← List.map_flatMap]
    rw [List.filter_map]
    simp only [Function.comp_def, h.isLocal]
  rw [hcounterparts, List.map_append, List.filter_map]
  simp only [Function.comp_def, h.isLocal, isConflicting_direct]

theorem transferOf (order : List String) (members : List MediaItem) :
    Planning.transferOf other order (members.map catalogue.direct) =
      (Planning.transferOf catalogue order members).map catalogue.directWanted := by
  unfold Planning.transferOf
  rw [h.sourceOf, Option.map_map, Option.map_map]
  congr 1
  funext source
  simp only [Function.comp_apply, h.localCopies, List.head?_map, directWanted, stateOf_direct]

theorem wantedOf (toLowerCase : String → String) (effective : EffectiveRequest)
    (candidates : List MediaItem) :
    Planning.wantedOf toLowerCase other effective (candidates.map catalogue.direct) =
      (Planning.wantedOf toLowerCase catalogue effective candidates).map
        catalogue.directWanted := by
  unfold Planning.wantedOf
  rw [h.sourceOrder, groups_direct, List.filterMap_map, List.map_filterMap]
  have hkeeps : keeps toLowerCase effective.filter ∘ catalogue.directWanted =
      keeps toLowerCase effective.filter :=
    funext (keeps_direct toLowerCase effective.filter)
  congr 1
  funext group
  simp only [Function.comp_apply, Prod.map_snd, h.transferOf, Option.filter_map, hkeeps]

/-- **The same is wanted**, row for row. -/
theorem select (toLowerCase : String → String) (effective : EffectiveRequest) :
    Planning.select toLowerCase other effective =
      (Planning.select toLowerCase catalogue effective).map fun (wanted, estimate) =>
        (wanted.map catalogue.directWanted, estimate) := by
  unfold Planning.select
  rw [h.candidates]
  cases catalogue.candidates effective with
  | error refusal => rfl
  | ok candidates =>
    simp only [Except.map, h.wantedOf, estimateOf_direct]

end Direct

end Catalogue

end MediaCenterSync.Planning
