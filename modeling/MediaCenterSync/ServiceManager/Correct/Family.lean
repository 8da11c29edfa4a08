import MediaCenterSync.ServiceManager.Correct.Refile
import MediaCenterSync.ServiceManager.Correct.Sweep

/-!
# Rows of one service hang together

No step of a pass hangs a row from a row of another service, or from an identifier that has not
been given out: `Family.step` says what a step must keep to for that, and the steps of a pass are
read against it one by one, up to `Family.index`.
-/

namespace MediaCenterSync.ServiceManager

variable {normalize : String → String} {serviceId libraryId : String} {t : MediaItems}
  {item : NormalisedMediaItem} {pass : Pass}

/-- A step that gives rows no parent but one they had, or one of their service, keeps every row
under its own service. -/
theorem Family.step {t' : MediaItems} (h : Family t) (hnext : t.next ≤ t'.next)
    (hids : ∀ row ∈ t'.rows, (∃ old ∈ t.rows, old.id = row.id ∧ old.serviceId = row.serviceId) ∨
      t.next ≤ row.id)
    (hparents : ∀ row ∈ t'.rows, ∀ id, row.parentId = some id →
      (∃ old ∈ t.rows, old.serviceId = row.serviceId ∧ old.parentId = some id) ∨
        ∃ parent ∈ t.rows, parent.serviceId = row.serviceId ∧ parent.id = id) : Family t' where
  same := by
    intro row hrow parent hparent hid
    have hold : ∃ old ∈ t.rows, old.id = parent.id ∧ old.serviceId = parent.serviceId := by
      refine (hids parent hparent).resolve_right fun hfresh => ?_
      rcases hparents row hrow parent.id hid with ⟨old, hin, -, hold⟩ | ⟨known, hin, -, hknown⟩
      · exact absurd (h.given old hin parent.id hold) (by omega)
      · exact absurd (hknown ▸ t.id_lt known hin) (by omega)
    obtain ⟨oldParent, hparentIn, hparentId, hservice⟩ := hold
    rw [← hservice]
    rcases hparents row hrow parent.id hid with
      ⟨old, hin, hsame, hold⟩ | ⟨known, hin, hsame, hknown⟩
    · rw [← hsame]
      exact h.same old hin oldParent hparentIn (hparentId ▸ hold)
    · rw [MediaItems.eq_of_id hparentIn hin (hparentId.trans hknown.symm), hsame]
  given := by
    intro row hrow id hid
    rcases hparents row hrow id hid with ⟨old, hin, -, hold⟩ | ⟨known, hin, -, rfl⟩
    · exact (h.given old hin id hold).trans_le hnext
    · exact (t.id_lt known hin).trans_le hnext

theorem Family.sub {t' : MediaItems} (h : Family t) (hnext : t.next ≤ t'.next)
    (hsub : ∀ row ∈ t'.rows, ∃ old ∈ t.rows, old.id = row.id ∧ old.serviceId = row.serviceId ∧
      old.parentId = row.parentId) : Family t' := by
  refine h.step hnext (fun row hrow => ?_) fun row hrow id hid => ?_
  · obtain ⟨old, hold, hidOld, hservice, -⟩ := hsub row hrow
    exact .inl ⟨old, hold, hidOld, hservice⟩
  · obtain ⟨old, hold, -, hservice, hparent⟩ := hsub row hrow
    exact .inl ⟨old, hold, hservice, hparent.trans hid⟩

theorem next_persist : t.next ≤ (persist normalize serviceId libraryId t item).next := by
  unfold persist
  split
  · exact le_rfl
  · exact Nat.le_succ _

theorem Family.persist (h : Family t) :
    Family (persist normalize serviceId libraryId t item) := by
  refine h.step next_persist (fun row hrow => ?_) fun row hrow id hid => ?_
  · rcases mem_persist.mp hrow with rfl | ⟨hold, -⟩
    · rw [serviceId_persisted]
      unfold persisted
      rw [id_rewriteRow]
      cases hfind : t.findByExternalId serviceId item.externalId with
      | none => exact .inr le_rfl
      | some old =>
        obtain ⟨hin, hservice, -⟩ := MediaItems.findByExternalId_eq_some.mp hfind
        exact .inl ⟨old, hin, rfl, hservice⟩
    · exact .inl ⟨row, hold, rfl, rfl⟩
  · rcases mem_persist.mp hrow with rfl | ⟨hold, -⟩
    · rw [serviceId_persisted]
      unfold persisted at hid
      rw [parentId_rewriteRow] at hid
      cases hparent : parentOf t serviceId item with
      | some parent =>
        obtain ⟨name, -, hname⟩ := Option.bind_eq_some_iff.mp hparent
        obtain ⟨hin, hservice, -⟩ := MediaItems.findByExternalId_eq_some.mp hname
        rw [hparent] at hid
        exact .inr ⟨parent, hin, hservice, Option.some.inj hid⟩
      | none =>
        rw [hparent] at hid
        cases hfind : t.findByExternalId serviceId item.externalId with
        | none =>
          rw [hfind] at hid
          exact nomatch hid
        | some old =>
          obtain ⟨hin, hservice, -⟩ := MediaItems.findByExternalId_eq_some.mp hfind
          rw [hfind] at hid
          exact .inl ⟨old, hin, hservice, hid⟩
    · exact .inl ⟨row, hold, rfl, hid⟩

theorem Family.walkLibraries (h : Family t) : Family (walkLibraries normalize pass t) := by
  have hwrite : ∀ (items : List NormalisedMediaItem) (library : String) {t : MediaItems},
      Family t →
        Family (items.foldl (ServiceManager.persist normalize pass.serviceId library) t) := by
    intro items library
    induction items with
    | nil => exact fun ht => ht
    | cons item items ih => exact fun ht => ih ht.persist
  unfold ServiceManager.walkLibraries
  generalize pass.walks = walks
  induction walks generalizing t with
  | nil => exact h
  | cons walk walks ih =>
    refine ih ?_
    rw [walkLibrary_eq]
    split
    · exact (hwrite walk.items walk.library h).sub le_rfl fun row hrow =>
        ⟨row, (mem_swept.mp hrow).1, rfl, rfl, rfl⟩
    · exact hwrite walk.items walk.library h

theorem Family.linkKnownParents (h : Family t) : Family (linkKnownParents t serviceId) := by
  refine h.step le_rfl (fun row hrow => ?_) fun row hrow id hid => ?_
  · obtain ⟨old, hold, rfl⟩ := MediaItems.mem_update.mp hrow
    refine .inl ⟨old, hold, ?_⟩
    split <;> exact ⟨rfl, rfl⟩
  · obtain ⟨old, hold, rfl⟩ := MediaItems.mem_update.mp hrow
    cases hknown : knownParent t serviceId old with
    | none =>
      simp only [hknown] at hid ⊢
      exact .inl ⟨old, hold, rfl, hid⟩
    | some parent =>
      simp only [hknown] at hid ⊢
      unfold knownParent at hknown
      split_ifs at hknown with hunlinked
      obtain ⟨name, -, hname⟩ := Option.bind_eq_some_iff.mp hknown
      obtain ⟨hin, hservice, -⟩ := MediaItems.findByExternalId_eq_some.mp hname
      exact .inr ⟨parent, hin, hservice.trans hunlinked.1.symm, Option.some.inj hid⟩

theorem Family.reconcileParents {fuel hop : ℕ} {asked : List String} {linked : MediaItems}
    (h : Family t) (hlinked : reconcileParents normalize pass fuel hop asked t = some linked) :
    Family linked := by
  have hfetch : ∀ (missing : List (String × String)) (fetched : MediaItems × ℕ),
      Family fetched.1 → Family (missing.foldl (fetchParent normalize pass) fetched).1 := by
    intro missing
    induction missing with
    | nil => exact fun _ ht => ht
    | cons entry missing ih =>
      intro fetched ht
      refine ih _ ?_
      unfold fetchParent
      split_ifs with hlibrary
      · cases pass.getItem entry.1 with
        | none => exact ht
        | some parent => exact ht.persist
      · exact ht
  induction fuel generalizing hop asked t with
  | zero => simp [ServiceManager.reconcileParents] at hlinked
  | succ fuel ih =>
    rw [ServiceManager.reconcileParents] at hlinked
    have hlink : Family (ServiceManager.linkKnownParents t pass.serviceId) := h.linkKnownParents
    dsimp only at hlinked
    split_ifs at hlinked with hlast hmissing hfetched
    · exact Option.some.inj hlinked ▸ hlink
    · exact Option.some.inj hlinked ▸ hlink
    · exact Option.some.inj hlinked ▸ hfetch _ (_, 0) hlink
    · exact ih (hfetch _ (_, 0) hlink) hlinked

theorem next_refileService : (refileService t serviceId).next = t.next := by
  have hsettle : ∀ (ids : List ℕ) (t : MediaItems), (ids.foldl settle t).next = t.next := by
    intro ids
    induction ids with
    | nil => exact fun _ => rfl
    | cons id ids ih =>
      intro t
      rw [List.foldl_cons, ih]
      unfold settle
      split
      · rfl
      · split_ifs <;> rfl
  have hmove : ∀ (moved : List (MediaItem × ℕ)) (t : MediaItems),
      (moved.foldl moveTo t).next = t.next := by
    intro moved
    induction moved with
    | nil => exact fun _ => rfl
    | cons move moved ih =>
      intro t
      rw [List.foldl_cons, ih]
      rfl
  rw [refileService, hsettle, hmove]

theorem Family.refileService (h : Family t) : Family (refileService t serviceId) := by
  have hkeys : ∀ row : MediaItem, (refiledRow t serviceId row).serviceId = row.serviceId := by
    intro row
    obtain ⟨parentId, hrow⟩ := refiledRow_eq t serviceId row
    rw [hrow]
  refine h.step next_refileService.ge (fun row hrow => ?_) fun row hrow id hid => ?_
  · obtain ⟨old, hold, heq⟩ := mem_refileService hrow
    rw [heq]
    exact .inl ⟨old, hold, (id_refiledRow old).symm, (hkeys old).symm⟩
  · obtain ⟨old, hold, heq⟩ := mem_refileService hrow
    have hservice : row.serviceId = old.serviceId :=
      (congrArg (·.serviceId) heq).trans (hkeys old)
    replace hid : (refiledRow t serviceId old).parentId = some id :=
      (congrArg (·.parentId) heq).symm.trans hid
    by_cases hplaced : old ∈ findPlacements t serviceId
    · rw [refiledRow_of_target hplaced] at hid
      cases htarget : target (findPlacements t serviceId) old with
      | none =>
        rw [htarget] at hid
        exact .inl ⟨old, hold, hservice.symm, hid⟩
      | some season =>
        rw [htarget] at hid
        obtain ⟨found, hfound, hfoundId⟩ := exists_of_target htarget
        obtain ⟨hin, hsame, -⟩ := mem_findPlacements.mp hfound
        refine .inr ⟨found, hin, ?_, hfoundId.trans (Option.some.inj hid)⟩
        rw [hsame, hservice, (mem_findPlacements.mp hplaced).2.1]
    · have hstays : refiledRow t serviceId old = old := by
        refine moveRow_of_ne fun move hmove hsame => hplaced ?_
        have hmoved := (mem_moves.mp hmove).1
        rwa [MediaItems.eq_of_id (mem_findPlacements.mp hmoved).1 hold hsame] at hmoved
      rw [hstays] at hid
      exact .inl ⟨old, hold, hservice.symm, hid⟩

theorem Family.index {fuel : ℕ} {indexed : MediaItems} (h : Family t)
    (hindex : index normalize fuel pass t = some indexed) : Family indexed := by
  unfold ServiceManager.index at hindex
  dsimp only at hindex
  split_ifs at hindex with hsilent
  · exact Option.some.inj hindex ▸ h.walkLibraries
  · obtain ⟨linked, hlinked, rfl⟩ := Option.map_eq_some_iff.mp hindex
    exact (h.walkLibraries.reconcileParents hlinked).refileService

theorem family_of_roots (h : ∀ row ∈ t.rows, row.parentId = none) : Family t where
  same := fun row hrow _ _ hid => absurd ((h row hrow).symm.trans hid) (by simp)
  given := fun row hrow _ hid => absurd ((h row hrow).symm.trans hid) (by simp)

end MediaCenterSync.ServiceManager
