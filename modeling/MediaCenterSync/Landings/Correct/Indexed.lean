import Mathlib.Data.List.ReduceOption
import MediaCenterSync.Landings.Manager
import MediaCenterSync.Planning.Correct.Plan

/-!
# What clears a landing

A pass is a loop that deletes and a loop that marks.  Put together (`reconcile_eq`) they keep the
landings that survive, those whose time is up marked stale, and report the others that were indexed.

A landing should be cleared by a row of ours that holds its very file.  It is cleared by such a row
when that is among the hundred its hint gives (`Seen`), and by any row of ours that is matched with
the item the file was pulled from (`Paired`), whichever copy that row is of: `waitsForIts_iff`.
-/

namespace MediaCenterSync.Landings

open Correlation (MediaMatch)
open Planning (Catalogue MediaItem)
open TransferManager (Dir)

/-! ### One pass -/

/-- What the second loop makes of a surviving landing. -/
def Landing.markedAt (landing : Landing) (now : ℕ) : Landing :=
  if landing.isDue now then { landing with state := .STALE } else landing

def Index.reported (index : Index) (landing : Landing) : Option (Landing × MediaItem) :=
  match index.judge landing with
  | .indexed item => some (landing, item)
  | _ => none

@[simp] theorem Landing.markedAt_id (landing : Landing) (now : ℕ) :
    (landing.markedAt now).id = landing.id := by
  unfold markedAt
  split <;> rfl

namespace LandingTable

variable {t : LandingTable}

theorem eq_of_id {a b : Landing} (ha : a ∈ t.rows) (hb : b ∈ t.rows) (h : a.id = b.id) : a = b :=
  List.inj_on_of_nodup_map t.ids ha hb h

theorem eq_of_itemId {a b : Landing} (ha : a ∈ t.rows) (hb : b ∈ t.rows)
    (h : a.itemId = b.itemId) : a = b :=
  List.inj_on_of_nodup_map t.items ha hb h

theorem mem_findOpen {landing : Landing} : landing ∈ t.findOpen ↔ landing ∈ t.rows :=
  List.mem_insertionSort _

theorem nodup_findOpen : (t.findOpen.map (·.id)).Nodup :=
  ((List.perm_insertionSort _ t.rows).map _).nodup_iff.mpr t.ids

theorem mem_delete {landing : Landing} {id : ℕ} :
    landing ∈ (t.delete id).rows ↔ landing ∈ t.rows ∧ landing.id ≠ id := by
  unfold delete Table.delete
  rw [List.mem_filter, decide_eq_true_eq]

theorem mark_eq {landing : Landing} (h : landing ∈ t.rows) (now : ℕ) :
    ∃ t', t.mark now landing = some t' ∧
      t'.rows = t.rows.map fun row => if row.id = landing.id then row.markedAt now else row := by
  have hself : ∀ row ∈ t.rows, row.id = landing.id → row = landing :=
    fun row hrow => eq_of_id hrow h
  unfold mark
  split_ifs with hdue
  · have hfree : ∀ other ∈ t.rows, other.itemId = landing.itemId → other.id = landing.id := by
      intro other hother hitem
      rw [eq_of_itemId hother h hitem]
    have hany : t.rows.any (·.id = landing.id) = true :=
      List.any_eq_true.mpr ⟨landing, h, by simp⟩
    refine ⟨_, dif_pos hfree, ?_⟩
    show Table.save (·.id) t.rows { landing with state := .STALE } = _
    unfold Table.save
    rw [if_pos hany]
    refine List.map_congr_left fun row hrow => ?_
    split_ifs with hid
    · rw [hself row hrow hid, Landing.markedAt, if_pos hdue]
    · rfl
  · refine ⟨t, rfl, ?_⟩
    have hsame : ∀ row ∈ t.rows, (if row.id = landing.id then row.markedAt now else row) = row := by
      intro row hrow
      split_ifs with hid
      · rw [hself row hrow hid, Landing.markedAt, if_neg hdue]
      · rfl
    rw [List.map_congr_left hsame, List.map_id']

/-- The second loop marks what it walks, and is never refused. -/
theorem markAll_eq {landings : List Landing} (hids : (landings.map (·.id)).Nodup)
    (hmem : ∀ landing ∈ landings, landing ∈ t.rows) (now : ℕ) :
    ∃ t', landings.foldlM (fun (t : LandingTable) => t.mark now) t = some t' ∧
      t'.rows = t.rows.map fun row =>
        if row.id ∈ landings.map (·.id) then row.markedAt now else row := by
  induction landings generalizing t with
  | nil =>
    refine ⟨t, rfl, ?_⟩
    simp
  | cons first rest ih =>
    rw [List.map_cons, List.nodup_cons] at hids
    obtain ⟨t₁, hmark, hrows⟩ := mark_eq (hmem first List.mem_cons_self) now
    have hrest : ∀ landing ∈ rest, landing ∈ t₁.rows := by
      intro landing hlanding
      have hne : landing.id ≠ first.id := fun heq => hids.1 (heq ▸ List.mem_map_of_mem hlanding)
      rw [hrows]
      exact List.mem_map.mpr ⟨landing, hmem landing (List.mem_cons_of_mem _ hlanding), if_neg hne⟩
    obtain ⟨t', hrun, hrows'⟩ := ih hids.2 hrest
    refine ⟨t', by rw [List.foldlM_cons, hmark]; exact hrun, ?_⟩
    rw [hrows', hrows, List.map_map]
    refine List.map_congr_left fun row _ => ?_
    rw [Function.comp_apply]
    by_cases hid : row.id = first.id
    · have hout : (row.markedAt now).id ∉ rest.map (·.id) := by
        rw [Landing.markedAt_id, hid]
        exact hids.1
      rw [if_pos hid, if_neg hout, if_pos (by simp [hid])]
    · simp [hid]

end LandingTable

theorem Pass.settle_rows (pass : Pass) (landing : Landing) (verdict : Verdict) :
    (pass.settle landing verdict).table.rows =
      pass.table.rows.filter fun row => verdict ≠ .surviving → row.id ≠ landing.id := by
  cases verdict <;> simp [settle, LandingTable.delete, Table.delete]

namespace Index

variable (index : Index)

theorem settle_fold (landings : List Landing) (pass : Pass) :
    let after := landings.foldl (fun pass landing => pass.settle landing (index.judge landing)) pass
    after.surviving = pass.surviving ++ landings.filter (index.judge · = .surviving) ∧
      after.indexed = pass.indexed ++ landings.filterMap index.reported ∧
      after.table.rows = pass.table.rows.filter fun row =>
        ∀ landing ∈ landings, index.judge landing ≠ .surviving → row.id ≠ landing.id := by
  induction landings generalizing pass with
  | nil => simp
  | cons first rest ih =>
    obtain ⟨hsurviving, hindexed, hrows⟩ := ih (pass.settle first (index.judge first))
    rw [List.foldl_cons]
    refine ⟨hsurviving.trans ?_, hindexed.trans ?_, hrows.trans ?_⟩
    · rcases hjudge : index.judge first with item | _ | _ <;> simp [Pass.settle, hjudge]
    · rcases hjudge : index.judge first with item | _ | _ <;> simp [Pass.settle, reported, hjudge]
    · rw [Pass.settle_rows, List.filter_filter]
      refine List.filter_congr fun row _ => ?_
      rw [← Bool.decide_and, decide_eq_decide, List.forall_mem_cons, and_comm]

/-- **What a pass does**: it keeps the landings that survive, those whose time is up marked, and
reports what the others were indexed as. -/
theorem reconcile_eq (now : ℕ) (t : LandingTable) :
    ∃ pass, reconcile index now t = some pass ∧
      pass.table.rows =
        (t.rows.filter (index.judge · = .surviving)).map (·.markedAt now) ∧
      pass.indexed = t.findOpen.filterMap index.reported := by
  obtain ⟨hsurviving, hindexed, hrows⟩ :=
    index.settle_fold t.findOpen { table := t, surviving := [], indexed := [] }
  have hkept : (settleOpen index t).table.rows = t.rows.filter (index.judge · = .surviving) := by
    refine hrows.trans (List.filter_congr fun row hrow => ?_)
    rw [decide_eq_decide]
    constructor
    · intro h
      by_contra hout
      exact h row (LandingTable.mem_findOpen.mpr hrow) hout rfl
    · intro hin landing hlanding hout hid
      rw [LandingTable.eq_of_id hrow (LandingTable.mem_findOpen.mp hlanding) hid] at hin
      exact hout hin
  rw [List.nil_append] at hsurviving hindexed
  have hids : ((settleOpen index t).surviving.map (·.id)).Nodup := by
    rw [settleOpen, hsurviving]
    exact LandingTable.nodup_findOpen.sublist (List.filter_sublist.map _)
  have hmem : ∀ landing,
      landing ∈ (settleOpen index t).surviving ↔ landing ∈ (settleOpen index t).table.rows := by
    intro landing
    rw [hkept, settleOpen, hsurviving, List.mem_filter, List.mem_filter, LandingTable.mem_findOpen]
  obtain ⟨table, hrun, hmarked⟩ :=
    LandingTable.markAll_eq hids (fun landing h => (hmem landing).mp h) now
  refine ⟨{ settleOpen index t with table := table }, ?_, ?_, hindexed⟩
  · rw [reconcile, hrun]
    rfl
  · rw [← hkept]
    refine hmarked.trans (List.map_congr_left fun row hrow => ?_)
    rw [if_pos (List.mem_map_of_mem ((hmem row).mpr hrow))]

/-! ### The three tests -/

variable (landing : Landing) (item : MediaItem)

def SameContent : Prop :=
  landing.contentId ≠ none ∧ landing.contentId ≠ some "" ∧
    item.file.bind (·.contentId) = landing.contentId

instance : Decidable (SameContent landing item) := inferInstanceAs (Decidable (_ ∧ _))

/-- The row's file is where the landing put it. -/
def AtItsPath : Prop := index.reachedAt item = some landing.path

instance : Decidable (index.AtItsPath landing item) := inferInstanceAs (Decidable (_ = _))

/-- The row holds the landing's very file, and is among the hundred rows its hint gives. -/
def Seen : Prop :=
  (SameContent landing item ∧ item ∈ index.findByFileHint (landing.contentId.getD "")) ∨
    (index.AtItsPath landing item ∧ item ∈ index.findByFileHint (basename landing.path))

/-- An applied match pairs the row, which has a file on one of our disks, with the item that was
pulled. -/
def Paired : Prop :=
  item ∈ index.catalogue.items ∧ index.isOurs landing item ∧ item.file.isSome ∧
    ∃ pair ∈ index.catalogue.matchRows, applied index.matchThreshold pair ∧
      pair.joins item.id landing.itemId

variable {index landing item}

theorem mem_of_findByFileHint {hint : String} (h : item ∈ index.findByFileHint hint) :
    item ∈ index.catalogue.items := by
  unfold findByFileHint at h
  split_ifs at h
  · cases h
  · exact List.mem_of_mem_filter (List.mem_of_mem_take h)

theorem byContent_isSome : (index.byContent landing).isSome ↔
    ∃ item, index.isOurs landing item ∧ SameContent landing item ∧
      item ∈ index.findByFileHint (landing.contentId.getD "") := by
  unfold byContent SameContent
  rcases hid : landing.contentId with _ | contentId
  · simp
  · by_cases hempty : contentId = ""
    · simp [hempty]
    · simp only [hempty, if_false, List.find?_isSome, decide_eq_true_eq, Option.getD_some]
      simp [hempty]
      grind

theorem byPath_isSome : (index.byPath landing).isSome ↔
    ∃ item, index.isOurs landing item ∧ index.AtItsPath landing item ∧
      item ∈ index.findByFileHint (basename landing.path) := by
  unfold byPath AtItsPath
  simp only [List.find?_isSome, decide_eq_true_eq]
  grind

theorem mem_pairedIds {id : String} : id ∈ index.pairedIds landing ↔ id ≠ landing.itemId ∧
    ∃ pair ∈ index.catalogue.matchRows, applied index.matchThreshold pair ∧
      pair.joins id landing.itemId := by
  simp only [pairedIds, findForRemoteItem, findForLocalItem, List.mem_filter,
    List.reduceOption_mem_iff, List.mem_flatMap, List.mem_append, List.mem_insertionSort,
    List.mem_cons, List.not_mem_nil, or_false, decide_eq_true_eq, MediaMatch.joins,
    MediaMatch.isFor, Option.some.injEq]
  constructor
  · rintro ⟨⟨pair, ⟨⟨hpair, hremote⟩ | ⟨hpair, hlocal⟩, happlied⟩, hside⟩, hne⟩
    · exact ⟨hne, pair, hpair, happlied, by grind⟩
    · exact ⟨hne, pair, hpair, happlied, by grind⟩
  · rintro ⟨hne, pair, hpair, happlied, ⟨hlocal, hremote⟩ | ⟨hlocal, hremote⟩⟩
    · exact ⟨⟨pair, ⟨.inl ⟨hpair, hremote⟩, happlied⟩, .inl hlocal.symm⟩, hne⟩
    · exact ⟨⟨pair, ⟨.inr ⟨hpair, hlocal⟩, happlied⟩, .inr hremote.symm⟩, hne⟩

theorem matched_isSome : (index.matched landing).isSome ↔ ∃ item, index.Paired landing item := by
  simp only [matched, findByIds, Paired, isOurs, List.find?_isSome, List.mem_filter,
    decide_eq_true_eq, mem_pairedIds]
  grind

/-- **What clears a landing**: a row of ours that holds its file and is seen, or one that is matched
with the item that was pulled. -/
theorem indexed_isSome : (index.indexed landing).isSome ↔
    (∃ item, index.isOurs landing item ∧ index.Seen landing item) ∨
      ∃ item, index.Paired landing item := by
  unfold indexed Seen
  rw [Option.isSome_or, Option.isSome_or, Bool.or_eq_true, Bool.or_eq_true, byContent_isSome,
    byPath_isSome, matched_isSome, ← exists_or]
  simp only [and_or_left]

/-! ### A landing and its own file -/

def Removes (index : Index) (now : ℕ) (t : LandingTable) (landing : Landing) : Prop :=
  ∃ pass, reconcile index now t = some pass ∧ landing.id ∉ pass.table.rows.map (·.id) ∧
    ∃ item, (landing, item) ∈ pass.indexed

/-- A row of ours holds the landing's very file: by its content, by its path, or as the copy a
server made of it on import. -/
def HoldsIts (index : Index) (reimported : MediaItem → Prop) (landing : Landing) : Prop :=
  ∃ item ∈ index.catalogue.items, index.isOurs landing item ∧
    (SameContent landing item ∨ index.AtItsPath landing item ∨ reimported item)

/-- **A landing waits for its own file.** -/
def WaitsForIts (index : Index) (now : ℕ) (t : LandingTable) (reimported : MediaItem → Prop)
    (landing : Landing) : Prop :=
  index.Removes now t landing ↔ index.HoldsIts reimported landing

theorem removes_iff {now : ℕ} {t : LandingTable} (h : landing ∈ t.rows) :
    index.Removes now t landing ↔ (index.indexed landing).isSome := by
  obtain ⟨pass, hrun, hrows, hindexed⟩ := index.reconcile_eq now t
  have hreported : (∃ item, (landing, item) ∈ pass.indexed) ↔ (index.indexed landing).isSome := by
    simp only [hindexed, List.mem_filterMap, LandingTable.mem_findOpen, reported, judge]
    constructor
    · rintro ⟨item, other, -, hother⟩
      rcases hfound : index.indexed other with _ | found
      · rw [hfound] at hother
        by_cases hdisk : index.onDisk other.path <;> simp [hdisk] at hother
      · rw [hfound, Option.some.injEq, Prod.mk.injEq] at hother
        rw [← hother.1, hfound]
        rfl
    · intro hsome
      obtain ⟨item, hitem⟩ := Option.isSome_iff_exists.mp hsome
      exact ⟨item, landing, h, by rw [hitem]⟩
  unfold Removes
  constructor
  · rintro ⟨pass', hrun', -, hin⟩
    obtain rfl := Option.some.inj (hrun.symm.trans hrun')
    exact hreported.mp hin
  · intro hsome
    refine ⟨pass, hrun, fun hkept => ?_, hreported.mpr hsome⟩
    simp only [hrows, List.map_map, List.mem_map, List.mem_filter, Function.comp_apply,
      Landing.markedAt_id, decide_eq_true_eq] at hkept
    obtain ⟨row, ⟨hrow, hsurviving⟩, hid⟩ := hkept
    obtain rfl := LandingTable.eq_of_id hrow h hid
    obtain ⟨item, hitem⟩ := Option.isSome_iff_exists.mp hsome
    rw [judge, hitem] at hsurviving
    cases hsurviving

theorem holdsIts_of_seen {reimported : MediaItem → Prop} (hours : index.isOurs landing item)
    (h : index.Seen landing item) : index.HoldsIts reimported landing := by
  rcases h with ⟨hsame, hin⟩ | ⟨hpath, hin⟩
  · exact ⟨item, mem_of_findByFileHint hin, hours, .inl hsame⟩
  · exact ⟨item, mem_of_findByFileHint hin, hours, .inr (.inl hpath)⟩

/-- **A landing waits for its own file** exactly when, of the rows that hold it, one is among the
hundred of its hint or some row is matched with the item that was pulled; and a row is matched with
that item only when some row holds the file. -/
theorem waitsForIts_iff (index : Index) (now : ℕ) (reimported : MediaItem → Prop)
    {t : LandingTable} (h : landing ∈ t.rows) :
    index.WaitsForIts now t reimported landing ↔
      (index.HoldsIts reimported landing →
        (∃ item, index.isOurs landing item ∧ index.Seen landing item) ∨
          ∃ item, index.Paired landing item) ∧
      ((∃ item, index.Paired landing item) → index.HoldsIts reimported landing) := by
  have hseen : (∃ item, index.isOurs landing item ∧ index.Seen landing item) →
      index.HoldsIts reimported landing := by
    rintro ⟨item, hours, hitem⟩
    exact holdsIts_of_seen hours hitem
  unfold WaitsForIts
  rw [removes_iff h, indexed_isSome]
  constructor
  · intro hwaits
    exact ⟨hwaits.mpr, fun hpaired => hwaits.mp (.inr hpaired)⟩
  · rintro ⟨hfound, hpaired⟩
    exact ⟨fun hcleared => hcleared.elim hseen hpaired, hfound⟩

end Index

/-! ### A better copy of a film -/

/-- A version of the film was pulled from the other server. -/
def pulledDune : Landing where
  id := 0
  itemId := "theirs"
  transferId := some "transfer"
  libraryId := some "home-films"
  path := ["films", "Dune (2021)", "Dune - 2160p.mkv"]
  bytes := 0
  contentId := some "v1:b"
  state := .WAITING
  expiresAt := 100
  rescanOutcome := none
  createdAt := 0

def oneLanding : LandingTable where
  rows := [pulledDune]
  ids := by decide
  items := by decide

def filmIndex (ours : List MediaItem) (matchRows : List MediaMatch)
    (nodup : ((ours ++ [Planning.theirDune "theirs" "v1:b"]).map (·.id)).Nodup) : Index where
  catalogue :=
    { items := ours ++ [Planning.theirDune "theirs" "v1:b"]
      services := [Planning.ourServer [], Planning.theirServer]
      libraries := [Planning.ourFilms ["films"]]
      categories := []
      matchRows := matchRows
      nodup := nodup }
  mentions file hint := hint.toList <:+:
    ((file.path.map Placement.text).getD "" ++ file.contentId.getD "").toList
  matchThreshold := 4 / 5
  onDisk _ := true

/-- The old copy is indexed, and the two were matched before the new one was pulled. -/
def oldCopyOnly : Index :=
  filmIndex [Planning.ourDune] [Planning.correlated 0 "ours" "theirs"] (by decide)

def newCopy : MediaItem :=
  { Planning.ourDune with
    id := "new"
    file := some (Planning.fileAt ["films", "Dune (2021)", "Dune - 2160p.mkv"] none) }

def bothCopies : Index :=
  filmIndex [Planning.ourDune, newCopy] [Planning.correlated 0 "ours" "theirs"] (by decide)

/-- With the new copy indexed, the landing is done with. -/
theorem waitsForIts_bothCopies :
    bothCopies.WaitsForIts 10 oneLanding (fun _ => False) pulledDune := by
  have hholds : bothCopies.HoldsIts (fun _ => False) pulledDune :=
    ⟨newCopy, by decide, by decide, .inr (.inl (by decide))⟩
  refine (Index.waitsForIts_iff bothCopies 10 _ (by decide)).mpr ⟨fun _ => .inl ?_, fun _ => hholds⟩
  exact ⟨newCopy, by decide, .inr ⟨by decide, by decide +kernel⟩⟩

/-- **The old copy clears it**, with the new one not indexed yet. -/
theorem not_waitsForIts_oldCopyOnly :
    ¬ oldCopyOnly.WaitsForIts 10 oneLanding (fun _ => False) pulledDune := by
  intro hwaits
  have hfound : (oldCopyOnly.indexed pulledDune).isSome := by decide +kernel
  obtain ⟨item, hitem, hours, hits⟩ := hwaits.mp ((Index.removes_iff (by decide)).mpr hfound)
  have hnone : ∀ item ∈ oldCopyOnly.catalogue.items, oldCopyOnly.isOurs pulledDune item →
      ¬ (Index.SameContent pulledDune item ∨ oldCopyOnly.AtItsPath pulledDune item ∨ False) := by
    decide
  exact hnone item hitem hours hits

end MediaCenterSync.Landings
