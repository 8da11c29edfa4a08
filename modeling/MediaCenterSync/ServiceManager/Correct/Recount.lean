import MediaCenterSync.ServiceManager.Correct.Items

/-!
# Where an indexing pass ends

The climb of `reconcileParents` is cut at `PARENT_HOPS`, so whatever a media server answers the
table of a pass is reached (`exists_index`).  Two steps have no such bound of their own: a sweep
binds a variable for every item its library listed, and `collect`, which writes a row's files only
once it has been through everything below, goes as deep as rows hang from one another and never
comes back from a row that hangs from itself.

* `walked_eq_iff`: every library that answers is walked to its end exactly when the database takes
  the statements of every sweep;
* `exists_recompute_iff`: a recount ends, with every row given the files at or below it once
  (`Counted`), exactly when no chain of rows it goes down is longer than the stack is deep.
-/

namespace MediaCenterSync.ServiceManager

open Matching (MediaKind MediaFileInfo)

variable {normalize : String → String} {pass : Pass}

/-! ### The reconciliation -/

theorem exists_reconcileParents {fuel hop : ℕ} (hhop : hop ≤ PARENT_HOPS)
    (hfuel : PARENT_HOPS < fuel + hop) (asked : List String) (t : MediaItems) :
    ∃ linked, reconcileParents normalize pass fuel hop asked t = some linked := by
  induction fuel generalizing hop asked t with
  | zero => omega
  | succ fuel ih =>
    rw [reconcileParents]
    dsimp only
    split_ifs with hlast hmissing hfetched
    · exact ⟨_, rfl⟩
    · exact ⟨_, rfl⟩
    · exact ⟨_, rfl⟩
    · exact ih (by omega) (by omega) _ _

theorem reconcileParents_mono {n m hop : ℕ} (hnm : n ≤ m) {asked : List String}
    {t linked : MediaItems} (h : reconcileParents normalize pass n hop asked t = some linked) :
    reconcileParents normalize pass m hop asked t = some linked := by
  induction n generalizing m hop asked t with
  | zero => simp [reconcileParents] at h
  | succ n ih =>
    obtain ⟨m, rfl⟩ : ∃ k, m = k + 1 := ⟨m - 1, by omega⟩
    rw [reconcileParents] at h ⊢
    dsimp only at h ⊢
    split_ifs at h ⊢ with hlast hmissing hfetched
    · exact h
    · exact h
    · exact h
    · exact ih (by omega) h

/-- **Whatever a media server answers, the walk, the sweeps and the reconciliation end.** -/
theorem exists_index (normalize : String → String) (pass : Pass) (t : MediaItems) :
    ∃ indexed, index normalize (PARENT_HOPS + 1) pass t = some indexed := by
  unfold index
  dsimp only
  split
  · exact ⟨_, rfl⟩
  · obtain ⟨linked, hlinked⟩ : ∃ linked, reconcileParents normalize pass (PARENT_HOPS + 1) 0 []
        (walkLibraries normalize pass t) = some linked :=
      exists_reconcileParents (Nat.zero_le PARENT_HOPS) (by omega) [] _
    exact ⟨_, by rw [hlinked, Option.map_some]⟩

theorem index_mono {n m : ℕ} (hnm : n ≤ m) {t indexed : MediaItems}
    (h : index normalize n pass t = some indexed) : index normalize m pass t = some indexed := by
  unfold index at h ⊢
  dsimp only at h ⊢
  split
  · next hsilent => rwa [if_pos hsilent] at h
  · next hsilent =>
    rw [if_neg hsilent] at h
    obtain ⟨linked, hlinked, hindexed⟩ := Option.map_eq_some_iff.mp h
    rw [reconcileParents_mono hnm hlinked, Option.map_some, hindexed]

/-- The table of a pass does not depend on the fuel. -/
theorem index_unique {n m : ℕ} {t indexed indexed' : MediaItems}
    (h : index normalize n pass t = some indexed) (h' : index normalize m pass t = some indexed') :
    indexed = indexed' :=
  Option.some.inj <|
    (index_mono (le_max_left n m) h).symm.trans (index_mono (le_max_right n m) h')

/-! ### The recount -/

abbrev Under (items : List MediaItem) : MediaItem → MediaItem → Prop :=
  Subtree.IsChild (children items)

theorem under_iff {items : List MediaItem} {x y : MediaItem} :
    Under items x y ↔ x ∈ items ∧ x.parentId = some y.id := by
  simp [Subtree.IsChild, children]

/-- The recount of a row is right: it has the files at or below the row, each of them once. -/
structure Counted (items : List MediaItem) (item : MediaItem) (found : Recount) : Prop where
  id : found.id = item.id
  childCount : found.childCount = (children items item).length
  files : ∃ below : List MediaItem, below.Nodup ∧
    (∀ x, x ∈ below ↔ Relation.ReflTransGen (Under items) x item) ∧
      found.files = below.filterMap (·.file)

variable {t : MediaItems} {libraryId : String}

theorem injOn_id : Set.InjOn (fun row : MediaItem => row.id) {row | row ∈ t.ofLibrary libraryId} :=
  fun _ ha _ hb hid =>
    MediaItems.eq_of_id (MediaItems.mem_ofLibrary.mp ha).1 (MediaItems.mem_ofLibrary.mp hb).1 hid

theorem children_subset {items : List MediaItem} :
    ∀ a ∈ {row | row ∈ items}, ∀ b ∈ children items a, b ∈ {row | row ∈ items} :=
  fun _ _ _ hb => List.mem_of_mem_filter hb

/-- A row has one parent: the row its `parentId` names. -/
theorem one_parent (x : MediaItem) : ∀ a ∈ {row | row ∈ t.ofLibrary libraryId},
    ∀ b ∈ {row | row ∈ t.ofLibrary libraryId}, Under (t.ofLibrary libraryId) x a →
      Under (t.ofLibrary libraryId) x b → a = b := by
  intro a ha b hb hxa hxb
  have hid := Option.some.inj ((under_iff.mp hxa).2.symm.trans (under_iff.mp hxb).2)
  exact injOn_id ha hb hid

theorem nodup_children {row : MediaItem} : (children (t.ofLibrary libraryId) row).Nodup :=
  (MediaItems.nodup_rows.filter _).filter _

/-- What the walk from a row gives is what its recount should have. -/
theorem exists_below {item : MediaItem} (hitem : item ∈ t.ofLibrary libraryId) {n : ℕ}
    {files : List MediaFileInfo}
    (h : Subtree.gather (children (t.ofLibrary libraryId)) (·.file.toList) n item = some files) :
    ∃ below : List MediaItem, below.Nodup ∧
      (∀ x, x ∈ below ↔ Relation.ReflTransGen (Under (t.ofLibrary libraryId)) x item) ∧
        files = below.filterMap (·.file) := by
  rw [Subtree.gather_eq_flatMap] at h
  obtain ⟨below, hbelow, hfiles⟩ := Option.map_eq_some_iff.mp h
  refine ⟨below, ?_, Subtree.mem_nodes hbelow, ?_⟩
  · have hin : item ∈ {row | row ∈ t.ofLibrary libraryId} := hitem
    exact Subtree.nodup_nodes children_subset one_parent (fun _ => nodup_children) hin hbelow
  · rw [← hfiles, List.filterMap_eq_flatMap_toList]

theorem forall₂_zipWith_of_forall₂ {items : List MediaItem} {collected : List (List MediaFileInfo)}
    {R : MediaItem → List MediaFileInfo → Prop} {S : MediaItem → Recount → Prop}
    {count : MediaItem → List MediaFileInfo → Recount}
    (h : List.Forall₂ R items collected)
    (himp : ∀ item ∈ items, ∀ files, R item files → S item (count item files)) :
    List.Forall₂ S items (items.zipWith count collected) := by
  induction h with
  | nil => exact .nil
  | @cons item files items collected hR _ ih =>
    exact .cons (himp item (by simp) files hR) (ih fun x hx => himp x (by simp [hx]))

/-- From no row does a chain of more than `stack` rows, each hanging from the one before, lead down
past rows that are not an earlier row of the library and do not hang, at any distance, from one. -/
def Shallow (stack : ℕ) (items : List MediaItem) : Prop :=
  ∀ before row after, items = before ++ row :: after →
    ∀ rows, Subtree.Descent (children items) (Subtree.below (children items) before) row rows →
      rows ≤ stack

theorem descent_of_self {items : List MediaItem} {row : MediaItem} (hself : Under items row row)
    (rows : ℕ) : Subtree.Descent (children items) ∅ row (rows + 1) := by
  induction rows with
  | zero => exact .here row
  | succ rows ih => exact .down (by simp) hself ih

/-- **The recount of a library ends, with the right counts, exactly when the stack has room for
the chains of rows it goes down.** -/
theorem exists_recompute_iff {stack : ℕ} :
    (∃ found, recompute stack t libraryId = some found ∧
      List.Forall₂ (Counted (t.ofLibrary libraryId)) (t.ofLibrary libraryId) found) ↔
      Shallow stack (t.ofLibrary libraryId) := by
  have hdomain : ∀ a ∈ t.ofLibrary libraryId, a ∈ {row | row ∈ t.ofLibrary libraryId} :=
    fun _ ha => ha
  have hends : (∃ result, Subtree.collectAll (collect (t.ofLibrary libraryId) stack)
      (fun _ => none) (t.ofLibrary libraryId) = some result) ↔
        Shallow stack (t.ofLibrary libraryId) :=
    Subtree.exists_walks_iff injOn_id children_subset one_parent (fun _ => nodup_children) hdomain
  constructor
  · rintro ⟨found, hfound, -⟩
    obtain ⟨result, hcollected, -⟩ := Option.map_eq_some_iff.mp hfound
    exact hends.mp ⟨result, hcollected⟩
  · intro hshallow
    obtain ⟨⟨collected, memo⟩, hcollected⟩ := hends.mpr hshallow
    refine ⟨_, Option.map_eq_some_iff.mpr ⟨_, hcollected, rfl⟩, ?_⟩
    obtain ⟨hgather, -⟩ := Subtree.collectAll_spec
      (fun _ hm b hb _ _ => Subtree.collect_eq_some injOn_id children_subset hm hb) hdomain
      Subtree.Memo.sound_empty hcollected
    refine forall₂_zipWith_of_forall₂ hgather fun item hitem files ⟨m, hm⟩ => ?_
    exact ⟨rfl, rfl, exists_below hitem hm⟩

/-! ### The sweeps -/

/-- The libraries, of some that are walked, that do not fail themselves. -/
def answered (walks : List LibraryWalk) : List String :=
  (walks.filter (!·.failed)).map (·.library)

variable (normalize pass) in
/-- The database takes the statements of every sweep some libraries come to. -/
def SweepsFit : MediaItems → List LibraryWalk → Prop
  | _, [] => True
  | t, walk :: walks =>
    (pass.full ∧ walk.failed = false →
      Bindable pass.bindLimit (written normalize pass t walk) walk.library
        (walk.items.map (·.externalId))) ∧
      SweepsFit (walkLibrary normalize pass t walk) walks

theorem isSome_finishLibrary {walk : LibraryWalk} :
    (finishLibrary pass t walk).isSome ↔
      walk.failed = false ∧
        (pass.full → Bindable pass.bindLimit t walk.library (walk.items.map (·.externalId))) := by
  unfold finishLibrary forgetStale
  cases walk.failed <;> cases pass.full <;> simp

theorem length_walked_le (normalize : String → String) (pass : Pass) (t : MediaItems)
    (walks : List LibraryWalk) :
    (walked normalize pass t walks).length ≤ (answered walks).length := by
  induction walks generalizing t with
  | nil => exact Nat.le_refl 0
  | cons walk walks ih =>
    have hrest := ih (walkLibrary normalize pass t walk)
    rw [walked]
    cases hfailed : walk.failed with
    | true =>
      have hnone : ¬ (finishLibrary pass (written normalize pass t walk) walk).isSome :=
        fun h => by simpa [hfailed] using (isSome_finishLibrary.mp h).1
      rw [if_neg hnone]
      simpa [answered, hfailed] using hrest
    | false =>
      have hlength : (answered (walk :: walks)).length = (answered walks).length + 1 := by
        simp [answered, hfailed]
      rw [hlength]
      split
      · exact Nat.succ_le_succ hrest
      · exact Nat.le_succ_of_le hrest

/-- **Every library that answers is walked to its end exactly when the database takes the
statements of every sweep.** -/
theorem walked_eq_iff {walks : List LibraryWalk} :
    walked normalize pass t walks = answered walks ↔ SweepsFit normalize pass t walks := by
  induction walks generalizing t with
  | nil => simp [walked, answered, SweepsFit]
  | cons walk walks ih =>
    rw [walked, SweepsFit, ← ih]
    cases hfailed : walk.failed with
    | true =>
      have hnone : ¬ (finishLibrary pass (written normalize pass t walk) walk).isSome :=
        fun h => by simpa [hfailed] using (isSome_finishLibrary.mp h).1
      have hanswered : answered (walk :: walks) = answered walks := by simp [answered, hfailed]
      rw [if_neg hnone, hanswered]
      simp
    | false =>
      have hanswered : answered (walk :: walks) = walk.library :: answered walks := by
        simp [answered, hfailed]
      rw [hanswered]
      split
      · next hends =>
        have hfits := (isSome_finishLibrary.mp hends).2
        simp only [List.cons.injEq, true_and, and_true]
        exact ⟨fun h => ⟨hfits, h⟩, fun h => h.2⟩
      · next hends =>
        -- One library fewer has been walked than has answered.
        have hlength := length_walked_le normalize pass (walkLibrary normalize pass t walk) walks
        constructor
        · intro heq
          rw [heq, List.length_cons] at hlength
          omega
        · rintro ⟨hfits, -⟩
          exact absurd (isSome_finishLibrary.mpr ⟨hfailed, fun hfull => hfits ⟨hfull, rfl⟩⟩) hends

/-! ### The pass -/

variable (normalize pass t) in
/-- A pass comes to its end: every library that answered is walked to its own, and counted right. -/
def PassEnds (stack : ℕ) : Prop :=
  walked normalize pass t pass.walks = answered pass.walks ∧
    ∃ fuel indexed, index normalize fuel pass t = some indexed ∧
      ∀ library ∈ answered pass.walks, ∃ found, recompute stack indexed library = some found ∧
        List.Forall₂ (Counted (indexed.ofLibrary library)) (indexed.ofLibrary library) found

/-- **An indexing pass ends, with every row given the files at or below it once, exactly when the
database takes the statements of its sweeps and the stack has room for the chains of rows of every
library it recounts.** -/
theorem passEnds_iff (normalize : String → String) (pass : Pass) (t : MediaItems) (stack : ℕ) :
    PassEnds normalize pass t stack ↔
      SweepsFit normalize pass t pass.walks ∧
        ∀ indexed, index normalize (PARENT_HOPS + 1) pass t = some indexed →
          ∀ library ∈ answered pass.walks, Shallow stack (indexed.ofLibrary library) := by
  refine and_congr walked_eq_iff ⟨?_, ?_⟩
  · rintro ⟨fuel, indexed, hindexed, hcounted⟩ indexed' hindexed' library hlibrary
    rw [index_unique hindexed' hindexed]
    exact exists_recompute_iff.mp (hcounted library hlibrary)
  · intro hshallow
    obtain ⟨indexed, hindexed⟩ := exists_index normalize pass t
    exact ⟨_, indexed, hindexed, fun library hlibrary =>
      exists_recompute_iff.mpr (hshallow indexed hindexed library hlibrary)⟩

/-- A full scan of a library that lists one film, which it says is its own parent. -/
def ownParentPass : Pass where
  serviceId := "service"
  full := true
  walks := [⟨"library", [bareItem "1" (some "1") .MOVIE none none], false⟩]
  getItem := fun _ => none
  bindLimit := 32766

/-- The scan of a server that lists an item as its own parent does not end, however deep the
stack. -/
theorem passEnds_ownParent : ¬ ∃ stack, PassEnds id ownParentPass .empty stack := by
  rintro ⟨stack, -, fuel, indexed, hindexed, hcounted⟩
  have hrows : (index id (PARENT_HOPS + 1) ownParentPass .empty).map
      (·.rows.map fun row => (row.id, row.libraryId, row.parentId))
        = some [(0, "library", some 0)] := by decide
  obtain ⟨indexed', hindexed', hrow⟩ := Option.map_eq_some_iff.mp hrows
  rw [index_unique hindexed hindexed'] at hcounted
  obtain ⟨row, hsingle, hkey⟩ := List.map_eq_singleton_iff.mp hrow
  simp only [Prod.mk.injEq] at hkey
  obtain ⟨hid, hlibrary, hparent⟩ := hkey
  have hmem : row ∈ indexed'.ofLibrary "library" :=
    MediaItems.mem_ofLibrary.mpr ⟨by simp [hsingle], hlibrary⟩
  have hself : Under (indexed'.ofLibrary "library") row row :=
    under_iff.mpr ⟨hmem, by rw [hparent, hid]⟩
  have honly : indexed'.ofLibrary "library" = [row] := by
    simp [MediaItems.ofLibrary, hsingle, hlibrary]
  have hshallow := exists_recompute_iff.mp (hcounted "library" (by decide)) [] row [] honly
  rw [Subtree.below_nil] at hshallow
  exact absurd (hshallow _ (descent_of_self hself stack)) (by omega)

end MediaCenterSync.ServiceManager
