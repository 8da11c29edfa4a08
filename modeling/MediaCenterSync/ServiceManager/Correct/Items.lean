import MediaCenterSync.ServiceManager.Scan

/-!
# What the operations on the table of media items do to its rows

Looking a row up by either of its keys (`findOne_eq_some`, `findByExternalId_eq_some`), which rows
an update, an insertion or a removal leaves, and from these the rows there are once an item is
written (`mem_persist`).
-/

namespace MediaCenterSync.ServiceManager

theorem find?_id {items : List MediaItem} (hids : items.Pairwise fun a b => a.id ≠ b.id)
    {row : MediaItem} (hrow : row ∈ items) : items.find? (·.id = row.id) = some row := by
  have hnodup : (items.map (·.id)).Nodup := List.pairwise_map.mpr hids
  obtain ⟨found, hfound⟩ : ∃ found, items.find? (·.id = row.id) = some found :=
    Option.isSome_iff_exists.mp (List.find?_isSome.mpr ⟨row, hrow, by simp⟩)
  have hid : found.id = row.id := by simpa using List.find?_some hfound
  rw [hfound, List.inj_on_of_nodup_map hnodup (List.mem_of_find?_eq_some hfound) hrow hid]

namespace MediaItems

variable {t : MediaItems}

theorem eq_of_id {a b : MediaItem} (ha : a ∈ t.rows) (hb : b ∈ t.rows) (hid : a.id = b.id) :
    a = b :=
  have hnodup : (t.rows.map (·.id)).Nodup := List.pairwise_map.mpr t.ids
  List.inj_on_of_nodup_map hnodup ha hb hid

theorem eq_of_externalId {a b : MediaItem} (ha : a ∈ t.rows) (hb : b ∈ t.rows)
    (hservice : a.serviceId = b.serviceId) (hexternal : a.externalId = b.externalId) : a = b :=
  have hnodup : (t.rows.map fun row => (row.serviceId, row.externalId)).Nodup :=
    List.pairwise_map.mpr t.externalIds
  List.inj_on_of_nodup_map hnodup ha hb (Prod.ext hservice hexternal)

theorem findOne_eq_some {id : ℕ} {row : MediaItem} :
    t.findOne id = some row ↔ row ∈ t.rows ∧ row.id = id := by
  constructor
  · intro h
    exact ⟨List.mem_of_find?_eq_some h, by simpa using List.find?_some h⟩
  · rintro ⟨hrow, rfl⟩
    exact find?_id t.ids hrow

theorem findByExternalId_eq_some {serviceId externalId : String} {row : MediaItem} :
    t.findByExternalId serviceId externalId = some row ↔
      row ∈ t.rows ∧ row.serviceId = serviceId ∧ row.externalId = externalId := by
  constructor
  · intro h
    exact ⟨List.mem_of_find?_eq_some h, by simpa using List.find?_some h⟩
  · rintro ⟨hrow, rfl, rfl⟩
    obtain ⟨found, hfound⟩ : ∃ found,
        t.findByExternalId row.serviceId row.externalId = some found :=
      Option.isSome_iff_exists.mp (List.find?_isSome.mpr ⟨row, hrow, by simp⟩)
    have hkey : found.serviceId = row.serviceId ∧ found.externalId = row.externalId := by
      simpa using List.find?_some hfound
    rw [hfound, eq_of_externalId (List.mem_of_find?_eq_some hfound) hrow hkey.1 hkey.2]

theorem findByExternalId_eq_none {serviceId externalId : String} :
    t.findByExternalId serviceId externalId = none ↔
      ∀ row ∈ t.rows, row.serviceId = serviceId → row.externalId ≠ externalId := by
  simp [findByExternalId, List.find?_eq_none]

theorem mem_ofLibrary {libraryId : String} {row : MediaItem} :
    row ∈ t.ofLibrary libraryId ↔ row ∈ t.rows ∧ row.libraryId = libraryId := by
  simp [ofLibrary]

theorem mem_childrenOf {id : ℕ} {row : MediaItem} :
    row ∈ t.childrenOf id ↔ row ∈ t.rows ∧ row.parentId = some id := by
  simp [childrenOf]

variable {f : MediaItem → MediaItem} {hf : ∀ row, (f row).key = row.key}

@[simp] theorem rows_update : (t.update f hf).rows = t.rows.map f := rfl

@[simp] theorem next_update : (t.update f hf).next = t.next := rfl

theorem mem_update {row : MediaItem} :
    row ∈ (t.update f hf).rows ↔ ∃ old ∈ t.rows, f old = row := by
  simp

theorem mem_modify {id : ℕ} {row : MediaItem} :
    row ∈ (t.modify id f hf).rows ↔
      ∃ old ∈ t.rows, (if old.id = id then f old else old) = row := by
  simp [modify]

@[simp] theorem next_modify {id : ℕ} : (t.modify id f hf).next = t.next := rfl

theorem mem_insert {row added : MediaItem}
    {hnew : t.findByExternalId added.serviceId added.externalId = none} :
    row ∈ (t.insert added hnew).rows ↔ row ∈ t.rows ∨ row = { added with id := t.next } := by
  simp [insert]

theorem mem_remove {ids : List ℕ} {row : MediaItem} :
    row ∈ (t.remove ids).rows ↔ row ∈ t.rows ∧ row.id ∉ ids := by
  simp [remove]

@[simp] theorem next_remove {ids : List ℕ} : (t.remove ids).next = t.next := rfl

theorem nodup_rows : t.rows.Nodup :=
  t.ids.imp fun {_ _} hne heq => hne (congrArg MediaItem.id heq)

end MediaItems

/-! ### Writing one item -/

variable {normalize : String → String} {serviceId libraryId : String} {t : MediaItems}
  {item : NormalisedMediaItem}

@[simp] theorem parentId_applyOverride (row : MediaItem) (override : Option MediaOverride) :
    (applyOverride row override normalize).parentId = row.parentId := by
  unfold applyOverride
  dsimp only
  split <;> rfl

theorem parentId_rewriteRow (row : MediaItem) (parent : Option MediaItem) :
    (rewriteRow normalize row libraryId parent item).parentId
      = ((parent.map (·.id)) <|> row.parentId) := by
  unfold rewriteRow
  dsimp only
  split
  · rw [parentId_applyOverride]
    rfl
  · rfl

@[simp] theorem id_rewriteRow (row : MediaItem) (parent : Option MediaItem) :
    (rewriteRow normalize row libraryId parent item).id = row.id :=
  congrArg (·.1) (key_rewriteRow normalize row libraryId parent item)

@[simp] theorem serviceId_rewriteRow (row : MediaItem) (parent : Option MediaItem) :
    (rewriteRow normalize row libraryId parent item).serviceId = row.serviceId :=
  congrArg (·.2.1) (key_rewriteRow normalize row libraryId parent item)

variable (normalize serviceId libraryId t item) in
def persisted : MediaItem :=
  let row := (t.findByExternalId serviceId item.externalId).getD
    { create serviceId libraryId item with id := t.next }
  rewriteRow normalize row libraryId (parentOf t serviceId item) item

@[simp] theorem serviceId_persisted :
    (persisted normalize serviceId libraryId t item).serviceId = serviceId := by
  unfold persisted
  rw [serviceId_rewriteRow]
  cases hfind : t.findByExternalId serviceId item.externalId with
  | none => rfl
  | some row => exact (MediaItems.findByExternalId_eq_some.mp hfind).2.1

theorem applyOverride_with_id (row : MediaItem) (override : Option MediaOverride) (id : ℕ) :
    { applyOverride row override normalize with id := id }
      = applyOverride { row with id := id } override normalize := by
  unfold applyOverride
  dsimp only [snapshotReported, restoreReported]
  split <;> rfl

theorem rewriteRow_with_id (row : MediaItem) (parent : Option MediaItem) (id : ℕ) :
    { rewriteRow normalize row libraryId parent item with id := id }
      = rewriteRow normalize { row with id := id } libraryId parent item := by
  unfold rewriteRow
  dsimp only [writeReport]
  split
  · rw [applyOverride_with_id]
  · rfl

/-- **The rows once an item is written**: the item's row, and every row there was of another
item. -/
theorem mem_persist {row : MediaItem} :
    row ∈ (persist normalize serviceId libraryId t item).rows ↔
      row = persisted normalize serviceId libraryId t item ∨
        row ∈ t.rows ∧ ¬ (row.serviceId = serviceId ∧ row.externalId = item.externalId) := by
  unfold persist persisted
  split
  · next existing hfind =>
    obtain ⟨hexisting, hservice, hexternal⟩ := MediaItems.findByExternalId_eq_some.mp hfind
    rw [MediaItems.mem_modify, hfind]
    dsimp only [Option.getD_some]
    constructor
    · rintro ⟨old, hold, hrow⟩
      by_cases hid : old.id = existing.id
      · rw [if_pos hid, MediaItems.eq_of_id hold hexisting hid] at hrow
        exact .inl hrow.symm
      · rw [if_neg hid] at hrow
        subst hrow
        refine .inr ⟨hold, fun hkey => hid ?_⟩
        rw [MediaItems.eq_of_externalId hold hexisting (hkey.1.trans hservice.symm)
          (hkey.2.trans hexternal.symm)]
    · rintro (rfl | ⟨hrow, hkey⟩)
      · exact ⟨existing, hexisting, if_pos rfl⟩
      · refine ⟨row, hrow, if_neg fun hid => hkey ?_⟩
        rw [MediaItems.eq_of_id hrow hexisting hid]
        exact ⟨hservice, hexternal⟩
  · next hfind =>
    rw [MediaItems.mem_insert, hfind]
    dsimp only [Option.getD_none]
    rw [rewriteRow_with_id, or_comm]
    refine or_congr Iff.rfl ⟨fun hrow => ⟨hrow, fun hkey => ?_⟩, And.left⟩
    exact MediaItems.findByExternalId_eq_none.mp hfind row hrow hkey.1 hkey.2

/-- An item a service says nothing of but its name, its parent, its kind and its numbers. -/
def bareItem (externalId : String) (parentExternalId : Option String) (kind : Matching.MediaKind)
    (seasonNumber episodeNumber : Option ℤ) : NormalisedMediaItem where
  externalId := externalId
  parentExternalId := parentExternalId
  kind := kind
  title := externalId
  normalizedTitle := externalId
  year := none
  seasonNumber := seasonNumber
  episodeNumber := episodeNumber
  episodeNumberEnd := none
  externalIds := {}
  overview := none
  artworkUrl := none
  file := none
  addedAt := none
  watchStates := none

end MediaCenterSync.ServiceManager
