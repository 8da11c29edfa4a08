import MediaCenterSync.ServiceManager.Correct.Items

/-!
# What the sweeps of a full scan take away

At the end of a library's walk its stale rows go, but for the ones something living hangs from.
The sweep finds those with the library's own rows in hand, climbing `PARENT_HOPS` rows from each
survivor and stopping at the first row somebody has already spared.

* `not_mem_stillDoomed`: where no survivor has more than `PARENT_HOPS` stale rows one above the
  other over it, everything a survivor of the library hangs from is spared;
* `walkLibraries_sound`: in a full scan whose sweeps each meet `SweepMeets`, nothing is left
  hanging from a row that went, and no row went that some library of the service lists.
-/

namespace MediaCenterSync.ServiceManager

/-! ### Sparing -/

/-- A row that something living hangs from, through stale rows of the library. -/
inductive Carried (items : List MediaItem) (stale : Finset ℕ) : ℕ → Prop
  | living {row : MediaItem} {id : ℕ} : row ∈ items → row.id ∉ stale → row.parentId = some id →
      Carried items stale id
  | above {row : MediaItem} {id : ℕ} : Carried items stale row.id → row ∈ items → row.id ∈ stale →
      row.parentId = some id → Carried items stale id

/-- Going up from a parent, a row that is not stale comes after at most so many stale ones. -/
def Within (byId : ℕ → Option MediaItem) (stale : Finset ℕ) : ℕ → Option ℕ → Prop
  | _, none => True
  | 0, some parentId => parentId ∉ stale
  | hops + 1, some parentId =>
    parentId ∈ stale → Within byId stale hops ((byId parentId).bind (·.parentId))

instance decidableWithin (byId : ℕ → Option MediaItem) (stale : Finset ℕ) :
    ∀ hops parentId, Decidable (Within byId stale hops parentId)
  | 0, none => .isTrue trivial
  | _ + 1, none => .isTrue trivial
  | 0, some parentId => inferInstanceAs (Decidable (parentId ∉ stale))
  | hops + 1, some parentId =>
    haveI := decidableWithin byId stale hops ((byId parentId).bind (·.parentId))
    inferInstanceAs (Decidable (parentId ∈ stale → _))

section Spare

variable {byId : ℕ → Option MediaItem} {stale doomed : Finset ℕ}

/-- What a spared row hangs from is spared too, but for the parent a climb is about to look at. -/
def ClosedBut (byId : ℕ → Option MediaItem) (stale doomed : Finset ℕ) (pending : Option ℕ) : Prop :=
  ∀ id ∈ stale, id ∉ doomed → ∀ parentId, (byId id).bind (·.parentId) = some parentId →
    parentId ∉ doomed ∨ pending = some parentId

theorem spare_subset (hops : ℕ) (parentId : Option ℕ) (doomed : Finset ℕ) :
    spare byId hops parentId doomed ⊆ doomed := by
  induction hops generalizing parentId doomed with
  | zero => rfl
  | succ hops ih =>
    cases parentId with
    | none => rfl
    | some id =>
      rw [spare]
      split_ifs with hid
      · exact (ih _ _).trans (Finset.erase_subset id doomed)
      · rfl

/-- A climb that comes to an end within its hops spares all it goes past. -/
theorem spare_closed {hops : ℕ} {parentId : Option ℕ} (hsub : doomed ⊆ stale)
    (hwithin : Within byId stale hops parentId) (hclosed : ClosedBut byId stale doomed parentId) :
    (∀ id, parentId = some id → id ∉ spare byId hops parentId doomed) ∧
      ClosedBut byId stale (spare byId hops parentId doomed) none := by
  induction hops generalizing parentId doomed with
  | zero =>
    rw [spare]
    have hparent : ∀ id, parentId = some id → id ∉ doomed := by
      rintro id rfl hid
      exact hwithin (hsub hid)
    refine ⟨hparent, fun id hid hnot above habove => ?_⟩
    rcases hclosed id hid hnot above habove with hspared | hpending
    · exact .inl hspared
    · exact .inl (hparent above hpending)
  | succ hops ih =>
    cases parentId with
    | none => exact ⟨nofun, fun id hid hnot above habove => hclosed id hid hnot above habove⟩
    | some id =>
      rw [spare]
      split_ifs with hid
      · have hnext : ClosedBut byId stale (doomed.erase id) ((byId id).bind (·.parentId)) := by
          intro other hother hnot above habove
          by_cases heq : other = id
          · exact .inr (heq ▸ habove)
          · have hgone : other ∉ doomed := fun hin => hnot (Finset.mem_erase.mpr ⟨heq, hin⟩)
            rcases hclosed other hother hgone above habove with hspared | hpending
            · exact .inl fun hin => hspared (Finset.mem_of_mem_erase hin)
            · rw [Option.some.inj hpending]
              exact .inl (Finset.notMem_erase above doomed)
        have hrec := ih ((Finset.erase_subset id doomed).trans hsub) (hwithin (hsub hid)) hnext
        refine ⟨fun above habove => ?_, hrec.2⟩
        rw [← Option.some.inj habove]
        exact fun hin => Finset.notMem_erase id doomed (spare_subset _ _ _ hin)
      · refine ⟨fun above habove => Option.some.inj habove ▸ hid, ?_⟩
        intro other hother hnot above habove
        rcases hclosed other hother hnot above habove with hspared | hpending
        · exact .inl hspared
        · exact .inl (Option.some.inj hpending ▸ hid)

end Spare

section Doomed

variable {items : List MediaItem} {stale : Finset ℕ}

/-- What has been looked at once the sweep has gone through some rows of the library. -/
structure Swept (items : List MediaItem) (stale : Finset ℕ) (seen : List MediaItem)
    (doomed : Finset ℕ) : Prop where
  subset : doomed ⊆ stale
  closed : ClosedBut (fun id => items.find? (·.id = id)) stale doomed none
  seen : ∀ row ∈ seen, row.id ∉ stale → ∀ id, row.parentId = some id → id ∉ doomed

/-- **Where every climb comes to its end, what a survivor hangs from is not doomed.** -/
theorem swept_stillDoomed (hids : items.Pairwise fun a b => a.id ≠ b.id)
    (hnear : ∀ row ∈ items, row.id ∉ stale →
      Within (fun id => items.find? (·.id = id)) stale PARENT_HOPS row.parentId) :
    Swept items stale items (stillDoomed items stale) := by
  -- The rows still to come, over what those before them have left.
  have hrun : ∀ (rest seen : List MediaItem) (doomed : Finset ℕ), (∀ row ∈ rest, row ∈ items) →
      Swept items stale seen doomed →
      Swept items stale (seen ++ rest)
        (rest.foldl (fun doomed row => if row.id ∈ doomed then doomed
          else spare (fun id => items.find? (·.id = id)) PARENT_HOPS row.parentId doomed)
          doomed) := by
    intro rest
    induction rest with
    | nil =>
      intro seen doomed _ hswept
      rwa [List.append_nil]
    | cons row rest ih =>
      intro seen doomed hrest hswept
      rw [List.foldl_cons, List.append_cons]
      refine ih _ _ (fun other hother => hrest other (by simp [hother])) ?_
      split_ifs with hdoomed
      · refine ⟨hswept.subset, hswept.closed, fun other hother hliving => ?_⟩
        rcases List.mem_append.mp hother with hold | hnew
        · exact hswept.seen other hold hliving
        · rw [List.mem_singleton.mp hnew] at hliving
          exact absurd (hswept.subset hdoomed) hliving
      · have hsub : spare (fun id => items.find? (·.id = id)) PARENT_HOPS row.parentId doomed
            ⊆ doomed :=
          spare_subset PARENT_HOPS row.parentId doomed
        by_cases hstale : row.id ∈ stale
        · -- A row spared before: what it hangs from was spared with it, and the climb ends at once.
          have hsame : spare (fun id => items.find? (·.id = id)) PARENT_HOPS row.parentId doomed
              = doomed := by
            cases hparent : row.parentId with
            | none => rfl
            | some id =>
              have habove : (items.find? (·.id = row.id)).bind (·.parentId) = some id := by
                rw [find?_id hids (hrest row (by simp)), Option.bind_some, hparent]
              rcases hswept.closed row.id hstale hdoomed id habove with hspared | hpending
              · exact if_neg hspared
              · exact absurd hpending nofun
          rw [hsame]
          refine ⟨hswept.subset, hswept.closed, fun other hother hliving => ?_⟩
          rcases List.mem_append.mp hother with hold | hnew
          · exact hswept.seen other hold hliving
          · rw [List.mem_singleton.mp hnew] at hliving
            exact absurd hstale hliving
        · have hclosed : ClosedBut (fun id => items.find? (·.id = id)) stale doomed row.parentId :=
            fun id hid hnot above habove => .inl <|
              (hswept.closed id hid hnot above habove).resolve_right nofun
          obtain ⟨hparent, hafter⟩ :=
            spare_closed hswept.subset (hnear row (hrest row (by simp)) hstale) hclosed
          refine ⟨hsub.trans hswept.subset, hafter, fun other hother hliving id hid => ?_⟩
          rcases List.mem_append.mp hother with hold | hnew
          · exact fun hin => hswept.seen other hold hliving id hid (hsub hin)
          · rw [List.mem_singleton.mp hnew] at hid
            exact hparent id hid
  exact hrun items [] stale (fun _ h => h)
    ⟨subset_rfl, fun _ hid hnot => absurd hid hnot, fun _ h => absurd h (by simp)⟩

/-- **Everything a survivor of the library hangs from is spared.** -/
theorem not_mem_stillDoomed (hids : items.Pairwise fun a b => a.id ≠ b.id)
    (hnear : ∀ row ∈ items, row.id ∉ stale →
      Within (fun id => items.find? (·.id = id)) stale PARENT_HOPS row.parentId)
    {id : ℕ} (hcarried : Carried items stale id) : id ∉ stillDoomed items stale := by
  have hswept := swept_stillDoomed hids hnear
  induction hcarried with
  | living hrow hliving hparent => exact hswept.seen _ hrow hliving _ hparent
  | @above row id _ hrow hstale hparent ih =>
    have habove : (items.find? (·.id = row.id)).bind (·.parentId) = some id := by
      rw [find?_id hids hrow, Option.bind_some, hparent]
    exact (hswept.closed row.id hstale ih id habove).resolve_right nofun

end Doomed

/-! ### The sweep of one library -/

variable {normalize : String → String} {pass : Pass} {t : MediaItems} {walk : LibraryWalk}

def staleIds (t : MediaItems) (walk : LibraryWalk) : Finset ℕ :=
  ((findStale t walk.library (walk.items.map (·.externalId))).map (·.id)).toFinset

/-- The rows the sweep of a library removes. -/
def gone (t : MediaItems) (walk : LibraryWalk) : List MediaItem :=
  withoutLivingChildren t walk.library (findStale t walk.library (walk.items.map (·.externalId)))

theorem mem_findStale {libraryId : String} {seen : List String} {row : MediaItem} :
    row ∈ findStale t libraryId seen ↔
      (row ∈ t.rows ∧ row.libraryId = libraryId) ∧ row.synthetic = false ∧
        row.externalId ∉ seen := by
  simp [findStale, MediaItems.mem_ofLibrary]

theorem mem_staleIds {row : MediaItem} (hrow : row ∈ t.rows) :
    row.id ∈ staleIds t walk ↔
      row ∈ findStale t walk.library (walk.items.map (·.externalId)) := by
  simp only [staleIds, List.mem_toFinset, List.mem_map]
  constructor
  · rintro ⟨stale, hstale, hid⟩
    rwa [← MediaItems.eq_of_id (mem_findStale.mp hstale).1.1 hrow hid]
  · exact fun hstale => ⟨row, hstale, rfl⟩

theorem mem_gone {row : MediaItem} :
    row ∈ gone t walk ↔
      row ∈ findStale t walk.library (walk.items.map (·.externalId)) ∧
        row.id ∈ stillDoomed (t.ofLibrary walk.library) (staleIds t walk) := by
  simp [gone, withoutLivingChildren, staleIds]

def swept (t : MediaItems) (walk : LibraryWalk) : MediaItems := t.remove ((gone t walk).map (·.id))

theorem mem_swept {row : MediaItem} :
    row ∈ (swept t walk).rows ↔ row ∈ t.rows ∧ ∀ other ∈ gone t walk, other.id ≠ row.id := by
  rw [swept, MediaItems.mem_remove]
  simp

variable (pass t walk) in
/-- What makes a sweep safe, read off the rows it finds: a stale row nothing living hangs from is
listed nowhere else, no survivor of the library has more than `PARENT_HOPS` stale rows over it, and
what the rows of another library hang from, a survivor of this one hangs from as well. -/
structure SweepMeets : Prop where
  unlisted : ∀ row ∈ findStale t walk.library (walk.items.map (·.externalId)),
    row.serviceId = pass.serviceId →
      ¬ Carried (t.ofLibrary walk.library) (staleIds t walk) row.id →
      ∀ other ∈ pass.walks, row.externalId ∉ other.items.map (·.externalId)
  near : ∀ row ∈ t.ofLibrary walk.library, row.id ∉ staleIds t walk →
    Within (fun id => (t.ofLibrary walk.library).find? (·.id = id)) (staleIds t walk) PARENT_HOPS
      row.parentId
  carried : ∀ row ∈ t.rows, row.serviceId = pass.serviceId → row.libraryId ≠ walk.library →
    ∀ id, row.parentId = some id → id ∈ staleIds t walk →
      Carried (t.ofLibrary walk.library) (staleIds t walk) id

/-- Nothing living in the library hangs from what a sweep that meets its conditions removes. -/
theorem SweepMeets.not_carried (hmeets : SweepMeets pass t walk) {other : MediaItem}
    (hother : other ∈ gone t walk) :
    ¬ Carried (t.ofLibrary walk.library) (staleIds t walk) other.id := fun hcarried =>
  not_mem_stillDoomed (t.ids.filter _) hmeets.near hcarried (mem_gone.mp hother).2

/-- **A sweep that meets its conditions leaves nothing hanging from a row it removes.** -/
theorem SweepMeets.not_dangling (hmeets : SweepMeets pass t walk) {row other : MediaItem}
    (hrow : row ∈ (swept t walk).rows) (hservice : row.serviceId = pass.serviceId)
    (hother : other ∈ gone t walk) : row.parentId ≠ some other.id := by
  intro hparent
  obtain ⟨hmem, hstays⟩ := mem_swept.mp hrow
  obtain ⟨hstale, hdoomed⟩ := mem_gone.mp hother
  have hids : (t.ofLibrary walk.library).Pairwise fun a b => a.id ≠ b.id := t.ids.filter _
  have hid : other.id ∈ staleIds t walk := (mem_staleIds (mem_findStale.mp hstale).1.1).mpr hstale
  by_cases hlibrary : row.libraryId = walk.library
  · have hin : row ∈ t.ofLibrary walk.library := MediaItems.mem_ofLibrary.mpr ⟨hmem, hlibrary⟩
    by_cases hrowStale : row.id ∈ staleIds t walk
    · -- A stale row that survives was spared, and so was its parent.
      have hspared : row.id ∉ stillDoomed (t.ofLibrary walk.library) (staleIds t walk) :=
        fun hin' => hstays row (mem_gone.mpr ⟨(mem_staleIds hmem).mp hrowStale, hin'⟩) rfl
      have habove : ((t.ofLibrary walk.library).find? (·.id = row.id)).bind (·.parentId)
          = some other.id := by
        rw [find?_id hids hin, Option.bind_some, hparent]
      exact ((swept_stillDoomed hids hmeets.near).closed row.id hrowStale hspared other.id
        habove).resolve_right nofun hdoomed
    · exact hmeets.not_carried hother (.living hin hrowStale hparent)
  · exact hmeets.not_carried hother
      (hmeets.carried row hmem hservice hlibrary other.id hparent hid)

/-! ### The sweeps of a pass -/

variable (pass t walk) in
/-- The walk of a library comes to a sweep, whose statements the database takes. -/
def Sweeps : Prop :=
  (pass.full ∧ walk.failed = false) ∧
    Bindable pass.bindLimit t walk.library (walk.items.map (·.externalId))

instance : Decidable (Sweeps pass t walk) := inferInstanceAs (Decidable (_ ∧ _))

theorem walkLibrary_eq :
    walkLibrary normalize pass t walk
      = if Sweeps pass (written normalize pass t walk) walk then
          swept (written normalize pass t walk) walk
        else written normalize pass t walk := by
  unfold walkLibrary finishLibrary forgetStale
  by_cases hends : walk.failed = false
  · by_cases hfull : pass.full
    · by_cases hbinds : Bindable pass.bindLimit (written normalize pass t walk) walk.library
          (walk.items.map (·.externalId))
      · simp [Sweeps, hends, hfull, hbinds, swept, gone]
      · simp [Sweeps, hends, hfull, hbinds]
    · simp [Sweeps, hends, hfull]
  · simp [Sweeps, hends]

variable (normalize pass) in
/-- The rows the sweeps of some libraries remove, one library after another. -/
def removed : MediaItems → List LibraryWalk → List MediaItem
  | _, [] => []
  | t, walk :: walks =>
    (if Sweeps pass (written normalize pass t walk) walk then
        gone (written normalize pass t walk) walk
      else [])
      ++ removed (walkLibrary normalize pass t walk) walks

theorem exists_written {row : MediaItem} (hrow : row ∈ t.rows) :
    ∃ after ∈ (written normalize pass t walk).rows, after.id = row.id := by
  have hpersist : ∀ (t : MediaItems) (item : NormalisedMediaItem), ∀ row ∈ t.rows,
      ∃ after ∈ (persist normalize pass.serviceId walk.library t item).rows,
        after.id = row.id := by
    intro t item row hrow
    by_cases hkey : row.serviceId = pass.serviceId ∧ row.externalId = item.externalId
    · refine ⟨_, mem_persist.mpr (.inl rfl), ?_⟩
      unfold persisted
      rw [id_rewriteRow, MediaItems.findByExternalId_eq_some.mpr ⟨hrow, hkey⟩, Option.getD_some]
    · exact ⟨row, mem_persist.mpr (.inr ⟨hrow, hkey⟩), rfl⟩
  unfold written
  generalize walk.items = items
  induction items generalizing t row with
  | nil => exact ⟨row, hrow, rfl⟩
  | cons item items ih =>
    obtain ⟨between, hbetween, hid⟩ := hpersist t item row hrow
    obtain ⟨after, hafter, hid'⟩ := ih hbetween
    exact ⟨after, hafter, hid'.trans hid⟩

/-- **A row the walk of some libraries ends without is one their sweeps removed.** -/
theorem exists_removed {walks : List LibraryWalk} {row : MediaItem} (hrow : row ∈ t.rows)
    (hgone : ∀ after ∈ (walks.foldl (walkLibrary normalize pass) t).rows, after.id ≠ row.id) :
    ∃ other ∈ removed normalize pass t walks, other.id = row.id := by
  induction walks generalizing t row with
  | nil => exact absurd rfl (hgone row hrow)
  | cons walk walks ih =>
    obtain ⟨between, hbetween, hid⟩ :
        ∃ between ∈ (written normalize pass t walk).rows, between.id = row.id :=
      exists_written hrow
    by_cases hstays : between ∈ (walkLibrary normalize pass t walk).rows
    · obtain ⟨other, hother, hother'⟩ := ih hstays fun after hafter heq =>
        hgone after hafter (heq.trans hid)
      exact ⟨other, List.mem_append_right _ hother, hother'.trans hid⟩
    · rw [walkLibrary_eq] at hstays
      split_ifs at hstays with hsweeps
      · have hin : ∃ other ∈ gone (written normalize pass t walk) walk, other.id = between.id := by
          by_contra hnone
          push Not at hnone
          exact hstays (mem_swept.mpr ⟨hbetween, hnone⟩)
        obtain ⟨other, hother, hother'⟩ := hin
        refine ⟨other, List.mem_append_left _ ?_, hother'.trans hid⟩
        rwa [if_pos hsweeps]
      · exact absurd hbetween hstays

variable (normalize pass) in
/-- Every sweep of some libraries meets its conditions where it starts. -/
def SweepsMeet : MediaItems → List LibraryWalk → Prop
  | _, [] => True
  | t, walk :: walks =>
    (Sweeps pass (written normalize pass t walk) walk →
        SweepMeets pass (written normalize pass t walk) walk) ∧
      SweepsMeet (walkLibrary normalize pass t walk) walks

/-- A row that is gone, for good, and that no row of the service hangs from. -/
structure Unnamed (serviceId : String) (id : ℕ) (t : MediaItems) : Prop where
  lt : id < t.next
  absent : ∀ row ∈ t.rows, row.id ≠ id
  unnamed : ∀ row ∈ t.rows, row.serviceId = serviceId → row.parentId ≠ some id

/-- Writing an item hangs it from a row there is, or leaves it where it was. -/
theorem Unnamed.persist {serviceId libraryId : String} {id : ℕ} (h : Unnamed serviceId id t)
    (item : NormalisedMediaItem) :
    Unnamed serviceId id (persist normalize serviceId libraryId t item) := by
  have hid : (persisted normalize serviceId libraryId t item).id ≠ id := by
    unfold persisted
    rw [id_rewriteRow]
    cases hfind : t.findByExternalId serviceId item.externalId with
    | none => exact h.lt.ne'
    | some row => exact h.absent row (MediaItems.findByExternalId_eq_some.mp hfind).1
  have hparent : (persisted normalize serviceId libraryId t item).parentId ≠ some id := by
    unfold persisted
    rw [parentId_rewriteRow]
    cases hfound : parentOf t serviceId item with
    | some parent =>
      obtain ⟨name, -, hname⟩ := Option.bind_eq_some_iff.mp hfound
      intro heq
      exact h.absent parent (MediaItems.findByExternalId_eq_some.mp hname).1 (Option.some.inj heq)
    | none =>
      cases hfind : t.findByExternalId serviceId item.externalId with
      | none => exact nofun
      | some row =>
        obtain ⟨hrow, hservice, -⟩ := MediaItems.findByExternalId_eq_some.mp hfind
        exact h.unnamed row hrow hservice
  refine ⟨?_, fun row hrow => ?_, fun row hrow hservice => ?_⟩
  · unfold ServiceManager.persist
    split
    · exact h.lt
    · exact h.lt.trans (Nat.lt_succ_self _)
  · rcases mem_persist.mp hrow with rfl | ⟨hold, -⟩
    · exact hid
    · exact h.absent row hold
  · rcases mem_persist.mp hrow with rfl | ⟨hold, -⟩
    · exact hparent
    · exact h.unnamed row hold hservice

theorem Unnamed.written {id : ℕ} (h : Unnamed pass.serviceId id t) :
    Unnamed pass.serviceId id (written normalize pass t walk) := by
  unfold ServiceManager.written
  induction walk.items generalizing t with
  | nil => exact h
  | cons item items ih => exact ih (h.persist item)

theorem Unnamed.walkLibrary {id : ℕ} (h : Unnamed pass.serviceId id t) :
    Unnamed pass.serviceId id (walkLibrary normalize pass t walk) := by
  rw [walkLibrary_eq]
  split
  · exact ⟨h.written.lt, fun row hrow => h.written.absent row (mem_swept.mp hrow).1,
      fun row hrow => h.written.unnamed row (mem_swept.mp hrow).1⟩
  · exact h.written

theorem Unnamed.walkLibraries {id : ℕ} {walks : List LibraryWalk}
    (h : Unnamed pass.serviceId id t) :
    Unnamed pass.serviceId id
      (walks.foldl (ServiceManager.walkLibrary normalize pass) t) := by
  induction walks generalizing t with
  | nil => exact h
  | cons walk walks ih => exact ih h.walkLibrary

/-- What a sweep that meets its conditions removes is gone, and nothing hangs from it. -/
theorem SweepMeets.unnamed (hmeets : SweepMeets pass t walk) {other : MediaItem}
    (hother : other ∈ gone t walk) :
    Unnamed pass.serviceId other.id (swept t walk) where
  lt := t.id_lt other (mem_findStale.mp (mem_gone.mp hother).1).1.1
  absent := fun _ hrow heq => (mem_swept.mp hrow).2 other hother heq.symm
  unnamed := fun _ hrow hservice => hmeets.not_dangling hrow hservice hother

variable (normalize pass t) in
/-- Nothing of the service is left hanging from a row the sweeps removed, and no row went that a
library of the service lists. -/
def SweepsClean : Prop :=
  ∀ other ∈ removed normalize pass t pass.walks,
    (∀ row ∈ (walkLibraries normalize pass t).rows, row.serviceId = pass.serviceId →
      row.parentId ≠ some other.id) ∧
    (other.serviceId = pass.serviceId →
      ∀ walk ∈ pass.walks, other.externalId ∉ walk.items.map (·.externalId))

/-- **In a full scan whose sweeps each meet their conditions, no surviving row hangs from one that
was removed, and every row that was removed is listed by no library.** -/
theorem walkLibraries_sound (normalize : String → String) (pass : Pass) (t : MediaItems)
    (hmeets : SweepsMeet normalize pass t pass.walks) : SweepsClean normalize pass t := by
  have hrun : ∀ (walks : List LibraryWalk) (t : MediaItems), SweepsMeet normalize pass t walks →
      ∀ other ∈ removed normalize pass t walks,
        Unnamed pass.serviceId other.id (walks.foldl (walkLibrary normalize pass) t) ∧
          (other.serviceId = pass.serviceId →
            ∀ walk ∈ pass.walks, other.externalId ∉ walk.items.map (·.externalId)) := by
    intro walks
    induction walks with
    | nil => exact fun _ _ other hother => absurd hother (by simp [removed])
    | cons walk walks ih =>
      intro t hmeets other hother
      rcases List.mem_append.mp hother with hnow | hlater
      · by_cases hsweeps : Sweeps pass (written normalize pass t walk) walk
        · rw [if_pos hsweeps] at hnow
          have hsweep := hmeets.1 hsweeps
          refine ⟨?_, fun hservice => hsweep.unlisted other (mem_gone.mp hnow).1 hservice
            (hsweep.not_carried hnow)⟩
          rw [List.foldl_cons]
          refine Unnamed.walkLibraries ?_
          rw [walkLibrary_eq, if_pos hsweeps]
          exact hsweep.unnamed hnow
        · rw [if_neg hsweeps] at hnow
          exact absurd hnow (by simp)
      · exact ih _ hmeets.2 other hlater
  intro other hother
  obtain ⟨hunnamed, hunlisted⟩ := hrun pass.walks t hmeets other hother
  exact ⟨hunnamed.unnamed, hunlisted⟩

def filmsPass (items : List NormalisedMediaItem) : Pass where
  serviceId := "service"
  full := true
  walks := [⟨"films", items, false⟩]
  getItem := fun _ => none
  bindLimit := 32766

/-- What is left of a library of two films to scan it again, when it lists one of them. -/
def twoFilms : MediaItems :=
  walkLibraries id
    (filmsPass [bareItem "1" none .MOVIE none none, bareItem "2" none .MOVIE none none]) .empty

def oneFilm : Pass := filmsPass [bareItem "1" none .MOVIE none none]

def oneFilmWalk : LibraryWalk := ⟨"films", [bareItem "1" none .MOVIE none none], false⟩

/-- The second film, which is not listed. -/
theorem exists_removed_twoFilms :
    ∃ other ∈ removed id oneFilm twoFilms [oneFilmWalk], other.id = 1 := by
  have hrow : ∃ row ∈ twoFilms.rows, row.id = 1 ∧
      ∀ after ∈ ([oneFilmWalk].foldl (walkLibrary id oneFilm) twoFilms).rows,
        after.id ≠ row.id := by
    decide
  obtain ⟨row, hrow, hid, hgone⟩ := hrow
  exact hid ▸ exists_removed hrow hgone

def listedShow (seasons : List ℕ) : List NormalisedMediaItem :=
  bareItem "show" none .SERIES none none ::
    (seasons.map fun n => bareItem s!"season {n}" (some "show") .SEASON (some n) none) ++
      seasons.map fun n => bareItem s!"episode {n}" (some s!"season {n}") .EPISODE (some n) (some 1)

def twoSeasons : MediaItems :=
  walkLibraries id (filmsPass (listedShow [1, 2])) .empty

/-- The scan after the service stopped listing the second season and its episode. -/
def oneSeason : Pass := filmsPass (listedShow [1])

def oneSeasonWalk : LibraryWalk := ⟨"films", listedShow [1], false⟩

theorem walkLibraries_sound_oneSeason :
    twoSeasons.rows.map (fun row => (row.id, row.parentId)) =
        [(0, none), (1, some 0), (2, some 0), (3, some 1), (4, some 2)] ∧
      (removed id oneSeason twoSeasons oneSeason.walks).map (·.id) = [2, 4] ∧
      SweepsClean id oneSeason twoSeasons := by
  have hlisted : ∀ row ∈ findStale (written id oneSeason twoSeasons oneSeasonWalk) "films"
      ["show", "season 1", "episode 1"],
      ∀ other ∈ oneSeason.walks, row.externalId ∉ other.items.map (·.externalId) := by decide
  have hlibrary : ∀ row ∈ (written id oneSeason twoSeasons oneSeasonWalk).rows,
      row.libraryId = "films" := by decide
  have hmeets : SweepMeets oneSeason (written id oneSeason twoSeasons oneSeasonWalk)
      oneSeasonWalk :=
    { unlisted := fun row hrow _ _ => hlisted row hrow
      near := by decide
      carried := fun row hrow _ hother => absurd (hlibrary row hrow) hother }
  exact ⟨by decide, by decide,
    walkLibraries_sound id oneSeason twoSeasons ⟨fun _ => hmeets, trivial⟩⟩

/-- A show with a season in each of two libraries, filed in the first of them. -/
def twoLibrariesPass (first second : List NormalisedMediaItem) : Pass where
  serviceId := "service"
  full := true
  walks := [⟨"first", first, false⟩, ⟨"second", second, false⟩]
  getItem := fun name =>
    if name = "show" then some (bareItem "show" none .SERIES none none) else none
  bindLimit := 32766

def splitShow : MediaItems :=
  (index id (PARENT_HOPS + 1)
    (twoLibrariesPass [bareItem "season 1" (some "show") .SEASON (some 1) none]
      [bareItem "season 2" (some "show") .SEASON (some 2) none]) .empty).getD .empty

/-- The first season goes, and the show with it, from under the season the other library lists. -/
theorem sweepsClean_splitShow :
    ¬ SweepsClean id
      (twoLibrariesPass [] [bareItem "season 2" (some "show") .SEASON (some 2) none])
      splitShow := by
  unfold SweepsClean
  decide

end MediaCenterSync.ServiceManager
