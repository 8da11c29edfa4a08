import MediaCenterSync.ServiceManager.Correct.Items

/-!
# Filing the episodes of a service by their numbers

What `refileService` does to each row (`mem_refileService`, `held_refileService`), and where that
agrees with `refile`, which decides the same question row by row: an episode whose series carries
exactly one season of its number ends where `refile` would leave it (`filed_refileService`).
-/

namespace MediaCenterSync.ServiceManager

open Matching (MediaKind)

variable {serviceId : String} {t : MediaItems}

/-! ### The moves -/

def moveRow (row : MediaItem) (move : MediaItem × ℕ) : MediaItem :=
  if row.id = move.1.id then { row with parentId := some move.2 } else row

theorem mem_moveAll {moved : List (MediaItem × ℕ)} {row' : MediaItem} :
    row' ∈ (moved.foldl moveTo t).rows ↔ ∃ row ∈ t.rows, moved.foldl moveRow row = row' := by
  induction moved generalizing t with
  | nil => simp
  | cons move moved ih =>
    rw [List.foldl_cons, ih]
    constructor
    · rintro ⟨row, hrow, rfl⟩
      obtain ⟨old, hold, rfl⟩ := MediaItems.mem_modify.mp hrow
      exact ⟨old, hold, rfl⟩
    · rintro ⟨row, hrow, rfl⟩
      exact ⟨moveRow row move, MediaItems.mem_modify.mpr ⟨row, hrow, rfl⟩, rfl⟩

theorem id_moveRow (row : MediaItem) (move : MediaItem × ℕ) : (moveRow row move).id = row.id := by
  unfold moveRow
  split <;> rfl

theorem moveRow_of_ne {moved : List (MediaItem × ℕ)} {row : MediaItem}
    (h : ∀ move ∈ moved, move.1.id ≠ row.id) : moved.foldl moveRow row = row := by
  induction moved with
  | nil => rfl
  | cons move moved ih =>
    rw [List.foldl_cons, show moveRow row move = row from if_neg (h move (by simp)).symm]
    exact ih fun other hother => h other (by simp [hother])

theorem moveRow_of_eq {moved : List (MediaItem × ℕ)} {row : MediaItem} {to' : ℕ}
    (hto : ∀ move ∈ moved, move.1.id = row.id → move.2 = to')
    (hsome : ∃ move ∈ moved, move.1.id = row.id) :
    moved.foldl moveRow row = { row with parentId := some to' } := by
  induction moved generalizing row with
  | nil => simp at hsome
  | cons move moved ih =>
    rw [List.foldl_cons]
    by_cases hlater : ∃ other ∈ moved, other.1.id = row.id
    · rw [ih (fun other hother hid => hto other (by simp [hother])
        (hid.trans (id_moveRow row move))) (by rwa [id_moveRow])]
      unfold moveRow
      split <;> rfl
    · obtain ⟨first, hfirst, hid⟩ := hsome
      have hmove : first = move := by
        rcases List.mem_cons.mp hfirst with heq | hin
        · exact heq
        · exact absurd ⟨first, hin, hid⟩ hlater
      subst hmove
      have hnone : ∀ other ∈ moved, other.1.id ≠ (moveRow row first).id :=
        fun other hother heq => hlater ⟨other, hother, heq.trans (id_moveRow row first)⟩
      rw [moveRow_of_ne hnone]
      unfold moveRow
      rw [if_pos hid.symm, hto first (by simp) hid]

theorem mem_moves {move : MediaItem × ℕ} :
    move ∈ moves t serviceId ↔
      move.1 ∈ findPlacements t serviceId ∧
        target (findPlacements t serviceId) move.1 = some move.2 := by
  simp only [moves, List.mem_filterMap, Option.map_eq_some_iff]
  constructor
  · rintro ⟨row, hrow, season, htarget, rfl⟩
    exact ⟨hrow, htarget⟩
  · rintro ⟨hrow, htarget⟩
    exact ⟨move.1, hrow, move.2, htarget, rfl⟩

theorem mem_findPlacements {row : MediaItem} :
    row ∈ findPlacements t serviceId ↔
      row ∈ t.rows ∧ row.serviceId = serviceId ∧
        row.kind ∈ [MediaKind.SERIES, .SEASON, .EPISODE] := by
  simp [findPlacements]

/-- The row once every episode is filed. -/
def refiledRow (t : MediaItems) (serviceId : String) (row : MediaItem) : MediaItem :=
  (moves t serviceId).foldl moveRow row

theorem target_kind {rows : List MediaItem} {row : MediaItem} {id : ℕ}
    (h : target rows row = some id) : row.kind = .EPISODE := by
  by_contra hkind
  simp [target, hkind] at h

/-- An episode is only ever moved to a row of its service. -/
theorem exists_of_target {rows : List MediaItem} {row : MediaItem} {id : ℕ}
    (h : target rows row = some id) : ∃ season ∈ rows, season.id = id := by
  rw [target, if_pos (target_kind h)] at h
  simp only [Option.bind_eq_bind, Option.bind_eq_some_iff] at h
  obtain ⟨number, -, seriesId, -, season, hseason, hid⟩ := h
  split_ifs at hid
  exact ⟨season, List.mem_of_find?_eq_some hseason, Option.some.inj hid⟩

theorem refiledRow_of_kind {row : MediaItem} (hrow : row ∈ t.rows) (hkind : row.kind ≠ .EPISODE) :
    refiledRow t serviceId row = row := by
  refine moveRow_of_ne fun move hmove hid => hkind ?_
  obtain ⟨hplaced, htarget⟩ := mem_moves.mp hmove
  rw [← MediaItems.eq_of_id (mem_findPlacements.mp hplaced).1 hrow hid]
  exact target_kind htarget

theorem refiledRow_of_target {row : MediaItem} (hrow : row ∈ findPlacements t serviceId) :
    refiledRow t serviceId row
      = { row with
          parentId := (target (findPlacements t serviceId) row) <|> row.parentId } := by
  have hin := (mem_findPlacements.mp hrow).1
  have hsame : ∀ move ∈ moves t serviceId, move.1.id = row.id → move.1 = row :=
    fun move hmove hid =>
      MediaItems.eq_of_id (mem_findPlacements.mp (mem_moves.mp hmove).1).1 hin hid
  cases htarget : target (findPlacements t serviceId) row with
  | none =>
    refine moveRow_of_ne fun move hmove hid => ?_
    have hmoved := (mem_moves.mp hmove).2
    rw [hsame move hmove hid, htarget] at hmoved
    exact nomatch hmoved
  | some id =>
    refine moveRow_of_eq (fun move hmove hid => ?_) ⟨(row, id), mem_moves.mpr ⟨hrow, htarget⟩, rfl⟩
    have hmoved := (mem_moves.mp hmove).2
    rw [hsame move hmove hid, htarget] at hmoved
    exact (Option.some.inj hmoved).symm

/-! ### Settling both ends -/

def recounted (row : MediaItem) (childCount : ℕ) : MediaItem :=
  { row with childCount := childCount }

def Has (t : MediaItems) (row : MediaItem) : Prop := ∃ childCount, recounted row childCount ∈ t.rows

theorem mem_settle {id : ℕ} {row' : MediaItem} (h : row' ∈ (settle t id).rows) :
    ∃ row ∈ t.rows, row' = recounted row row'.childCount := by
  unfold settle at h
  split at h
  · exact ⟨row', h, rfl⟩
  · next found hfound =>
    split_ifs at h with hempty
    · exact ⟨row', (MediaItems.mem_remove.mp h).1, rfl⟩
    · obtain ⟨row, hrow, rfl⟩ := MediaItems.mem_modify.mp h
      refine ⟨row, hrow, ?_⟩
      split <;> rfl

/-- Settling takes away no row the service reported, and none something hangs from. -/
theorem has_settle {row : MediaItem} (h : Has t row)
    (hkept : row.synthetic = false ∨ ∃ child, Has t child ∧ child.parentId = some row.id)
    (id : ℕ) : Has (settle t id) row := by
  obtain ⟨childCount, hrow⟩ := h
  unfold settle
  split
  · exact ⟨childCount, hrow⟩
  · next found hfound =>
    obtain ⟨hmem, hid⟩ := MediaItems.findOne_eq_some.mp hfound
    split_ifs with hempty
    · refine ⟨childCount, MediaItems.mem_remove.mpr ⟨hrow, fun hin => ?_⟩⟩
      have hsame : found = recounted row childCount :=
        MediaItems.eq_of_id hmem hrow (hid.trans (List.mem_singleton.mp hin).symm)
      rcases hkept with hreported | ⟨child, ⟨count, hchild⟩, hparent⟩
      · rw [hsame] at hempty
        exact absurd (hreported.symm.trans hempty.2) (by decide)
      · have hnone := List.length_eq_zero_iff.mp hempty.1
        have hunder : recounted child count ∈ t.childrenOf id := by
          refine MediaItems.mem_childrenOf.mpr ⟨hchild, hparent.trans ?_⟩
          exact congrArg some (List.mem_singleton.mp hin)
        rw [hnone] at hunder
        exact absurd hunder (by simp)
    · refine ⟨if row.id = id then (t.childrenOf id).length else childCount,
        MediaItems.mem_modify.mpr ⟨recounted row childCount, hrow, ?_⟩⟩
      change (if row.id = id then _ else _) = _
      split_ifs <;> rfl

/-- A row that stays through every settling: one the service reported, or one that something that
stays hangs from. -/
inductive Held (t : MediaItems) : MediaItem → Prop
  | reported {row : MediaItem} : Has t row → row.synthetic = false → Held t row
  | above {row child : MediaItem} : Has t row → Held t child → child.parentId = some row.id →
      Held t row

theorem Held.has {row : MediaItem} (h : Held t row) : Has t row := by
  cases h with
  | reported hhas _ => exact hhas
  | above hhas _ _ => exact hhas

theorem Held.settle {row : MediaItem} (h : Held t row) (id : ℕ) :
    Held (ServiceManager.settle t id) row := by
  induction h with
  | reported hhas hreported => exact .reported (has_settle hhas (.inl hreported) id) hreported
  | above hhas hchild hparent ih =>
    exact .above (has_settle hhas (.inr ⟨_, hchild.has, hparent⟩) id) ih hparent

theorem Held.settles {row : MediaItem} (h : Held t row) (ids : List ℕ) :
    Held (ids.foldl ServiceManager.settle t) row := by
  induction ids generalizing t with
  | nil => exact h
  | cons id ids ih => exact ih (h.settle id)

theorem mem_settles {ids : List ℕ} {row' : MediaItem} (h : row' ∈ (ids.foldl settle t).rows) :
    ∃ row ∈ t.rows, row' = recounted row row'.childCount := by
  induction ids generalizing t with
  | nil => exact ⟨row', h, rfl⟩
  | cons id ids ih =>
    obtain ⟨between, hbetween, heq⟩ := ih h
    obtain ⟨row, hrow, heq'⟩ := mem_settle hbetween
    refine ⟨row, hrow, ?_⟩
    rw [heq, heq']
    rfl

/-! ### The whole of it -/

/-- **Every row there is afterwards is a row there was**, filed and recounted. -/
theorem mem_refileService {row' : MediaItem} (h : row' ∈ (refileService t serviceId).rows) :
    ∃ row ∈ t.rows, row' = recounted (refiledRow t serviceId row) row'.childCount := by
  obtain ⟨moved, hmoved, heq⟩ := mem_settles h
  obtain ⟨row, hrow, rfl⟩ := mem_moveAll.mp hmoved
  exact ⟨row, hrow, heq⟩

theorem has_moved {row : MediaItem} (hrow : row ∈ t.rows) :
    Has ((moves t serviceId).foldl moveTo t) (refiledRow t serviceId row) :=
  ⟨(refiledRow t serviceId row).childCount, mem_moveAll.mpr ⟨row, hrow, rfl⟩⟩

theorem Held.refileService {row : MediaItem}
    (h : Held ((moves t serviceId).foldl moveTo t) row) :
    Has (ServiceManager.refileService t serviceId) row :=
  (h.settles _).has

/-! ### Where both rules agree -/

/-- Every row hangs from a row of its own service, or from one that is gone. -/
structure Family (t : MediaItems) : Prop where
  same : ∀ row ∈ t.rows, ∀ parent ∈ t.rows, row.parentId = some parent.id →
    parent.serviceId = row.serviceId
  given : ∀ row ∈ t.rows, ∀ id, row.parentId = some id → id < t.next

/-- `season` is the one season of a series that carries a number. -/
structure OnlySeason (t : MediaItems) (seriesId : ℕ) (number : ℤ) (season : MediaItem) : Prop where
  mem : season ∈ t.rows
  only : ∀ row ∈ t.rows, row.kind = .SEASON ∧ row.parentId = some seriesId ∧
    row.seasonNumber = some number ↔ row = season

/-- An episode both rules file in one place: it hangs from a series or a season, and its series, if
it has one, carries one season of its number (or it has no number, and hangs from the series). -/
structure Placeable (t : MediaItems) (row : MediaItem) : Prop where
  parent : ∀ parent, row.parentId.bind t.findOne = some parent →
    parent.kind = .SERIES ∨ parent.kind = .SEASON
  season : ∀ series, seriesOf t row = some series →
    row.seasonNumber = none ∧ row.parentId = some series.id ∨
      ∃ number season, row.seasonNumber = some number ∧ OnlySeason t series.id number season

theorem find?_findPlacements {id : ℕ} {row : MediaItem} (hrow : t.findOne id = some row)
    (hservice : row.serviceId = serviceId)
    (hkind : row.kind ∈ [MediaKind.SERIES, .SEASON, .EPISODE]) :
    (findPlacements t serviceId).find? (·.id = id) = some row := by
  obtain ⟨hmem, rfl⟩ := MediaItems.findOne_eq_some.mp hrow
  exact find?_id (t.ids.filter _) (mem_findPlacements.mpr ⟨hmem, hservice, hkind⟩)

theorem findOne_of_find? {id : ℕ} {row : MediaItem}
    (h : (findPlacements t serviceId).find? (·.id = id) = some row) : t.findOne id = some row :=
  MediaItems.findOne_eq_some.mpr
    ⟨(mem_findPlacements.mp (List.mem_of_find?_eq_some h)).1, by simpa using List.find?_some h⟩

/-- The series a climb finds: the parent, or what a parent that is none hangs from. -/
def ClimbsTo (byId : ℕ → Option MediaItem) (row series : MediaItem) : Prop :=
  series.kind = .SERIES ∧
    (row.parentId.bind byId = some series ∨
      ∃ parent, row.parentId.bind byId = some parent ∧ parent.kind ≠ .SERIES ∧
        parent.parentId.bind byId = some series)

theorem seriesOf_eq_some {row series : MediaItem} :
    seriesOf t row = some series ↔ ClimbsTo t.findOne row series := by
  unfold seriesOf ClimbsTo
  cases row.parentId.bind t.findOne with
  | none => simp
  | some parent =>
    cases hgrand : parent.parentId.bind t.findOne with
    | none => grind
    | some grandparent => grind

theorem seriesIdOf_eq_some {byId : ℕ → Option MediaItem} {row : MediaItem} {id : ℕ} :
    seriesIdOf byId row = some id ↔ ∃ series, ClimbsTo byId row series ∧ series.id = id := by
  unfold seriesIdOf ClimbsTo
  cases row.parentId.bind byId with
  | none => simp
  | some parent =>
    cases hgrand : parent.parentId.bind byId with
    | none => grind
    | some grandparent => grind

theorem mem_of_parent {child parent : MediaItem} (hfamily : Family t) (hchild : child ∈ t.rows)
    (h : child.parentId.bind t.findOne = some parent) :
    parent ∈ t.rows ∧ parent.serviceId = child.serviceId := by
  obtain ⟨id, hid, hfound⟩ := Option.bind_eq_some_iff.mp h
  obtain ⟨hmem, rfl⟩ := MediaItems.findOne_eq_some.mp hfound
  exact ⟨hmem, hfamily.same child hchild parent hmem hid⟩

theorem mem_of_climbsTo {row series : MediaItem} (hfamily : Family t) (hrow : row ∈ t.rows)
    (h : ClimbsTo t.findOne row series) :
    series ∈ t.rows ∧ series.serviceId = row.serviceId := by
  rcases h.2 with hparent | ⟨parent, hparent, -, hgrand⟩
  · exact mem_of_parent hfamily hrow hparent
  · obtain ⟨hmem, hsame⟩ := mem_of_parent hfamily hrow hparent
    obtain ⟨hseries, hsame'⟩ := mem_of_parent hfamily hmem hgrand
    exact ⟨hseries, hsame'.trans hsame⟩

/-- The rows a pass over the episodes reads are looked up as the table looks them up. -/
theorem bind_placements {child parent : MediaItem} (hfamily : Family t) (hchild : child ∈ t.rows)
    (hservice : child.serviceId = serviceId) (h : child.parentId.bind t.findOne = some parent)
    (hkind : parent.kind ∈ [MediaKind.SERIES, .SEASON, .EPISODE]) :
    (child.parentId.bind fun id => (findPlacements t serviceId).find? (·.id = id))
      = some parent := by
  have hsame := (mem_of_parent hfamily hchild h).2.trans hservice
  obtain ⟨id, hid, hfound⟩ := Option.bind_eq_some_iff.mp h
  rw [hid, Option.bind_some, find?_findPlacements hfound hsame hkind]

theorem climbsTo_placements {row series : MediaItem} (hfamily : Family t) (hrow : row ∈ t.rows)
    (hservice : row.serviceId = serviceId)
    (hparent : ∀ parent, row.parentId.bind t.findOne = some parent →
      parent.kind = .SERIES ∨ parent.kind = .SEASON)
    (h : ClimbsTo t.findOne row series) :
    ClimbsTo (fun id => (findPlacements t serviceId).find? (·.id = id)) row series := by
  refine ⟨h.1, ?_⟩
  rcases h.2 with hseries | ⟨parent, hfind, hnot, hgrand⟩
  · exact .inl (bind_placements hfamily hrow hservice hseries (by simp [h.1]))
  · have hkind : parent.kind ∈ [MediaKind.SERIES, .SEASON, .EPISODE] := by
      rcases hparent parent hfind with h | h <;> simp [h]
    obtain ⟨hmem, hsame⟩ := mem_of_parent hfamily hrow hfind
    refine .inr ⟨parent, bind_placements hfamily hrow hservice hfind hkind, hnot, ?_⟩
    exact bind_placements hfamily hmem (hsame.trans hservice) hgrand (by simp [h.1])

theorem climbsTo_of_placements {row series : MediaItem}
    (h : ClimbsTo (fun id => (findPlacements t serviceId).find? (·.id = id)) row series) :
    ClimbsTo t.findOne row series := by
  have hup : ∀ {child parent : MediaItem},
      (child.parentId.bind fun id => (findPlacements t serviceId).find? (·.id = id)) = some parent →
      child.parentId.bind t.findOne = some parent := by
    intro child parent hfind
    obtain ⟨id, hid, hfound⟩ := Option.bind_eq_some_iff.mp hfind
    rw [hid, Option.bind_some, findOne_of_find? hfound]
  refine ⟨h.1, ?_⟩
  rcases h.2 with hseries | ⟨parent, hfind, hnot, hgrand⟩
  · exact .inl (hup hseries)
  · exact .inr ⟨parent, hup hfind, hnot, hup hgrand⟩

theorem target_eq {row series season : MediaItem} {number : ℤ} (hfamily : Family t)
    (hrow : row ∈ t.rows) (hservice : row.serviceId = serviceId) (hkind : row.kind = .EPISODE)
    (hplaceable : Placeable t row) (hseries : seriesOf t row = some series)
    (hnumber : row.seasonNumber = some number) (honly : OnlySeason t series.id number season) :
    target (findPlacements t serviceId) row
      = if some season.id = row.parentId then none else some season.id := by
  have hwanted := (honly.only season honly.mem).mpr rfl
  have hclimbs := seriesOf_eq_some.mp hseries
  obtain ⟨hseriesMem, hseriesService⟩ := mem_of_climbsTo hfamily hrow hclimbs
  have hseason : season.serviceId = serviceId :=
    (hfamily.same season honly.mem series hseriesMem hwanted.2.1).symm.trans
      (hseriesService.trans hservice)
  have hplaced : season ∈ findPlacements t serviceId :=
    mem_findPlacements.mpr ⟨honly.mem, hseason, by simp [hwanted.1]⟩
  obtain ⟨found, hfound⟩ : ∃ found,
      seasonOf (findPlacements t serviceId) series.id number = some found :=
    Option.isSome_iff_exists.mp (List.find?_isSome.mpr ⟨season, hplaced, by simpa using hwanted⟩)
  have hfoundIs : found = season := by
    refine (honly.only found ?_).mp (by simpa using List.find?_some hfound)
    exact (mem_findPlacements.mp (List.mem_of_find?_eq_some hfound)).1
  have hseriesId := seriesIdOf_eq_some.mpr
    ⟨series, climbsTo_placements hfamily hrow hservice hplaceable.parent hclimbs, rfl⟩
  unfold target
  rw [if_pos hkind, hnumber, hseriesId]
  simp only [Option.bind_eq_bind, Option.bind_some]
  rw [hfound, Option.bind_some, hfoundIs]

/-! ### The table afterwards -/

theorem refiledRow_eq (t : MediaItems) (serviceId : String) (row : MediaItem) :
    ∃ parentId, refiledRow t serviceId row = { row with parentId := parentId } := by
  unfold refiledRow
  generalize moves t serviceId = moved
  induction moved generalizing row with
  | nil => exact ⟨row.parentId, rfl⟩
  | cons move moved ih =>
    obtain ⟨parentId, hparent⟩ := ih (moveRow row move)
    refine ⟨parentId, hparent.trans ?_⟩
    unfold moveRow
    split <;> rfl

@[simp] theorem id_refiledRow (row : MediaItem) : (refiledRow t serviceId row).id = row.id := by
  obtain ⟨parentId, hrow⟩ := refiledRow_eq t serviceId row
  rw [hrow]

@[simp] theorem kind_refiledRow (row : MediaItem) :
    (refiledRow t serviceId row).kind = row.kind := by
  obtain ⟨parentId, hrow⟩ := refiledRow_eq t serviceId row
  rw [hrow]

@[simp] theorem seasonNumber_refiledRow (row : MediaItem) :
    (refiledRow t serviceId row).seasonNumber = row.seasonNumber := by
  obtain ⟨parentId, hrow⟩ := refiledRow_eq t serviceId row
  rw [hrow]

/-- What is found under an identifier afterwards was found under it before. -/
theorem findOne_refileService {id : ℕ} {row' : MediaItem}
    (h : (refileService t serviceId).findOne id = some row') :
    ∃ row, t.findOne id = some row ∧
      row' = recounted (refiledRow t serviceId row) row'.childCount := by
  obtain ⟨hmem, hid⟩ := MediaItems.findOne_eq_some.mp h
  obtain ⟨row, hrow, heq⟩ := mem_refileService hmem
  have hidrow : row'.id = row.id := (congrArg (·.id) heq).trans (id_refiledRow row)
  exact ⟨row, MediaItems.findOne_eq_some.mpr ⟨hrow, hidrow.symm.trans hid⟩, heq⟩

theorem findOne_of_has {row : MediaItem} (h : Has (refileService t serviceId) row) :
    ∃ childCount, (refileService t serviceId).findOne row.id = some (recounted row childCount) := by
  obtain ⟨childCount, hrow⟩ := h
  exact ⟨childCount, MediaItems.findOne_eq_some.mpr ⟨hrow, rfl⟩⟩

/-- An episode whose parent is moved nowhere climbs to no series it did not climb to before. -/
theorem exists_climbsTo_of_refileService {row series' : MediaItem} {childCount : ℕ}
    (hparent : ∀ parent, row.parentId.bind t.findOne = some parent →
      parent.kind = .SERIES ∨ parent.kind = .SEASON)
    (h : ClimbsTo (refileService t serviceId).findOne (recounted row childCount) series') :
    ∃ series, ClimbsTo t.findOne row series := by
  have hup : ∀ {id : Option ℕ} {row' : MediaItem},
      id.bind (refileService t serviceId).findOne = some row' →
        ∃ row, id.bind t.findOne = some row ∧
          row' = recounted (refiledRow t serviceId row) row'.childCount := by
    intro id row' hfind
    obtain ⟨id, rfl, hfound⟩ := Option.bind_eq_some_iff.mp hfind
    exact findOne_refileService hfound
  have hkind : ∀ {row row' : MediaItem},
      row' = recounted (refiledRow t serviceId row) row'.childCount → row'.kind = row.kind :=
    fun heq => (congrArg (·.kind) heq).trans (kind_refiledRow _)
  rcases h.2 with hseries | ⟨parent', hfind, hnot, hgrand⟩
  · obtain ⟨series, hfound, heq⟩ := hup hseries
    exact ⟨series, hkind heq ▸ h.1, .inl hfound⟩
  · obtain ⟨parent, hfound, heq⟩ := hup hfind
    have hstays : refiledRow t serviceId parent = parent := by
      obtain ⟨id, -, hid⟩ := Option.bind_eq_some_iff.mp hfound
      refine refiledRow_of_kind (MediaItems.findOne_eq_some.mp hid).1 ?_
      rcases hparent parent hfound with h | h <;> simp [h]
    have hstill : parent'.parentId = parent.parentId := by
      rw [heq, hstays]
      rfl
    rw [hstill] at hgrand
    obtain ⟨series, hfound', heq'⟩ := hup hgrand
    exact ⟨series, hkind heq' ▸ h.1, .inr ⟨parent, hfound, hkind heq ▸ hnot, hfound'⟩⟩

/-- Among what hangs from the series afterwards, the first season of the number is the only one. -/
theorem find?_season {seriesId : ℕ} {number : ℤ} {season : MediaItem} {count : ℕ}
    (honly : OnlySeason t seriesId number season)
    (hthere : recounted season count ∈ (refileService t serviceId).rows) :
    ∃ found, (findChildren (refileService t serviceId) seriesId).find?
      (fun one => one.kind = .SEASON ∧ one.seasonNumber = some number) = some found ∧
        found.id = season.id := by
  have hwanted := (honly.only season honly.mem).mpr rfl
  obtain ⟨found, hfound⟩ : ∃ found, (findChildren (refileService t serviceId) seriesId).find?
      (fun one => one.kind = .SEASON ∧ one.seasonNumber = some number) = some found := by
    refine Option.isSome_iff_exists.mp (List.find?_isSome.mpr ⟨recounted season count, ?_, ?_⟩)
    · exact List.mem_mergeSort.mpr (MediaItems.mem_childrenOf.mpr ⟨hthere, hwanted.2.1⟩)
    · exact decide_eq_true ⟨hwanted.1, hwanted.2.2⟩
  refine ⟨found, hfound, ?_⟩
  obtain ⟨hmem, hchild⟩ := MediaItems.mem_childrenOf.mp
    (List.mem_mergeSort.mp (List.mem_of_find?_eq_some hfound))
  have hfits : found.kind = .SEASON ∧ found.seasonNumber = some number := by
    simpa using List.find?_some hfound
  obtain ⟨old, hold, heq⟩ := mem_refileService hmem
  have hkind : old.kind = .SEASON :=
    (kind_refiledRow old).symm.trans ((congrArg (·.kind) heq).symm.trans hfits.1)
  rw [refiledRow_of_kind hold (by simp [hkind])] at heq
  rw [heq] at hchild hfits ⊢
  exact congrArg (·.id) ((honly.only old hold).mp ⟨hfits.1, hchild, hfits.2⟩)

/-- **An episode both rules file in one place is left where `refile` would leave it.** -/
theorem filed_refileService {row : MediaItem} (hfamily : Family t) (hrow : row ∈ t.rows)
    (hservice : row.serviceId = serviceId) (hreported : row.synthetic = false)
    (hplaceable : row.kind = .EPISODE → Placeable t row) :
    ∃ childCount, recounted (refiledRow t serviceId row) childCount
        ∈ (refileService t serviceId).rows ∧
      Filed (refileService t serviceId) (recounted (refiledRow t serviceId row) childCount) := by
  obtain ⟨parentId, hrefiled⟩ := refiledRow_eq t serviceId row
  have hheld : Held ((moves t serviceId).foldl moveTo t) (refiledRow t serviceId row) :=
    .reported (has_moved hrow) (by rw [hrefiled]; exact hreported)
  obtain ⟨childCount, hthere⟩ := hheld.refileService
  refine ⟨childCount, hthere, fun hkind => ?_⟩
  replace hkind : row.kind = .EPISODE := by rwa [recounted, kind_refiledRow] at hkind
  have hplace := hplaceable hkind
  have hplaced : row ∈ findPlacements t serviceId :=
    mem_findPlacements.mpr ⟨hrow, hservice, by simp [hkind]⟩
  have htarget := refiledRow_of_target hplaced
  cases hseries : seriesOf t row with
  | none =>
    -- No series to be filed in: neither rule moves it.
    have hno : ∀ series, ¬ ClimbsTo t.findOne row series := fun series hclimbs => by
      rw [seriesOf_eq_some.mpr hclimbs] at hseries
      exact nomatch hseries
    have hnowhere : target (findPlacements t serviceId) row = none := by
      cases hto : target (findPlacements t serviceId) row with
      | none => rfl
      | some id =>
        simp only [target, if_pos hkind, Option.bind_eq_bind, Option.bind_eq_some_iff] at hto
        obtain ⟨-, -, seriesId, hseriesId, -⟩ := hto
        obtain ⟨series, hclimbs, -⟩ := seriesIdOf_eq_some.mp hseriesId
        exact absurd (climbsTo_of_placements hclimbs) (hno series)
    have hstays : refiledRow t serviceId row = row := by
      rw [htarget, hnowhere]
      rfl
    refine .inl ?_
    rw [hstays]
    unfold seasonFor
    cases hafter : seriesOf (refileService t serviceId) (recounted row childCount) with
    | none => rfl
    | some series' =>
      obtain ⟨series, hclimbs⟩ :=
        exists_climbsTo_of_refileService hplace.parent (seriesOf_eq_some.mp hafter)
      exact absurd hclimbs (hno series)
  | some series =>
    have hclimbs := seriesOf_eq_some.mp hseries
    have hseriesMem := (mem_of_climbsTo hfamily hrow hclimbs).1
    have hseriesHas : Has ((moves t serviceId).foldl moveTo t) (refiledRow t serviceId series) :=
      has_moved hseriesMem
    rw [refiledRow_of_kind hseriesMem (by simp [hclimbs.1])] at hseriesHas
    rcases hplace.season series hseries with ⟨hnumber, hunder⟩ | ⟨number, season, hnumber, honly⟩
    · -- No number, and right under its series.
      have hstays : refiledRow t serviceId row = row := by
        rw [htarget, show target (findPlacements t serviceId) row = none by
          simp [target, hkind, hnumber]]
        rfl
      rw [hstays] at hheld ⊢
      obtain ⟨count, hfound⟩ := findOne_of_has (Held.above hseriesHas hheld hunder).refileService
      have hseriesAfter : seriesOf (refileService t serviceId) (recounted row childCount)
          = some (recounted series count) := by
        refine seriesOf_eq_some.mpr ⟨hclimbs.1, .inl ?_⟩
        rw [show (recounted row childCount).parentId = some series.id from hunder,
          Option.bind_some, hfound]
      refine .inr ⟨series.id, ?_, hunder⟩
      unfold seasonFor
      rw [hseriesAfter]
      dsimp only [recounted]
      rw [hnumber]
    · have hwanted := (honly.only season honly.mem).mpr rfl
      have hto := target_eq hfamily hrow hservice hkind hplace hseries hnumber honly
      have hunder : (refiledRow t serviceId row).parentId = some season.id := by
        rw [htarget, hto]
        split_ifs with halready
        · exact halready.symm
        · rfl
      have hseasonHas : Has ((moves t serviceId).foldl moveTo t) (refiledRow t serviceId season) :=
        has_moved honly.mem
      rw [refiledRow_of_kind honly.mem (by simp [hwanted.1])] at hseasonHas
      have hseasonHeld := Held.above hseasonHas hheld hunder
      obtain ⟨count, hseasonFound⟩ := findOne_of_has hseasonHeld.refileService
      obtain ⟨count', hseriesFound⟩ :=
        findOne_of_has (Held.above hseriesHas hseasonHeld hwanted.2.1).refileService
      have hseriesAfter : seriesOf (refileService t serviceId)
          (recounted (refiledRow t serviceId row) childCount)
          = some (recounted series count') := by
        refine seriesOf_eq_some.mpr
          ⟨hclimbs.1, .inr ⟨recounted season count, ?_, by simp [recounted, hwanted.1], ?_⟩⟩
        · rw [show (recounted (refiledRow t serviceId row) childCount).parentId = some season.id
            from hunder, Option.bind_some, hseasonFound]
        · rw [show (recounted season count).parentId = some series.id from hwanted.2.1,
            Option.bind_some, hseriesFound]
      refine .inr ⟨season.id, ?_, hunder⟩
      obtain ⟨found, hfound, hid⟩ :=
        find?_season honly (MediaItems.findOne_eq_some.mp hseasonFound).1
      unfold seasonFor
      rw [hseriesAfter]
      dsimp only [recounted]
      rw [seasonNumber_refiledRow, hnumber]
      dsimp only
      rw [hfound]
      dsimp only
      rw [hid]

end MediaCenterSync.ServiceManager
