import Mathlib.Tactic.SplitIfs
import MediaCenterSync.Lib.LabelledRun
import MediaCenterSync.PeerManager.Manager
import MediaCenterSync.Share.Visibility

/-!
# Nobody becomes a friend without a person

A row whose link is agreed was settled by a person here, or an introduction was let in for it; and
where no person settled it, it is no friend and as far away as the introduction put it
(`Manager.Vouched`).  **Every run keeps this** (`vouched_of_run`): an introduction is judged by the
key of the friend who gave it, no handshake hands a key over, and so nobody is introduced
(`introducedAt_eq_none`).

The invariant reads a row only (`Manager.Known`): what a call writes is one row, and the other rows
only need that the record of what was done has grown.
-/

namespace MediaCenterSync.PeerManager

open Peers
open LabelledRun (Run Free)
open Quality (trim)

/-! ### What a save leaves -/

namespace Tables

variable {t t' : Tables} {peer : Peer}

/-- The rows after a save: the row that was saved, but for its key, and the rows of the other
peers. -/
theorem mem_of_save (h : t.save peer = .ok t') {row : Peer} (hrow : row ∈ t'.peers) :
    row ∈ t.peers ∧ row.id ≠ peer.id ∨ ∃ key, row = { peer with publicKey := key } := by
  unfold save at h
  split at h
  · cases h
    obtain ⟨old, hold, rfl⟩ := List.mem_map.mp hrow
    by_cases hid : old.id = peer.id
    · rw [if_pos hid]
      exact .inr ⟨_, rfl⟩
    · rw [if_neg hid]
      exact .inl ⟨hold, hid⟩
  · next hnew =>
    split at h
    · exact nomatch h
    · cases h
      rcases List.mem_append.mp hrow with hold | hlast
      · refine .inl ⟨hold, fun hid => hnew ?_⟩
        exact List.any_eq_true.mpr ⟨row, hold, decide_eq_true hid⟩
      · exact .inr ⟨none, List.mem_singleton.mp hlast⟩

theorem exists_mem_save (h : t.save peer = .ok t') :
    ∃ key, { peer with publicKey := key } ∈ t'.peers := by
  unfold save at h
  split at h
  · next hany =>
    cases h
    obtain ⟨old, hold, hid⟩ := List.any_eq_true.mp hany
    refine ⟨old.publicKey, List.mem_map.mpr ⟨old, hold, ?_⟩⟩
    rw [if_pos (of_decide_eq_true hid)]
  · split at h
    · exact nomatch h
    · cases h
      exact ⟨none, List.mem_append_right _ (List.mem_singleton.mpr rfl)⟩

theorem nodup_of_save (h : t.save peer = .ok t') (ht : (t.peers.map (·.id)).Nodup) :
    (t'.peers.map (·.id)).Nodup := by
  unfold save at h
  split at h
  · cases h
    have hids : (t.peers.map fun row =>
        if row.id = peer.id then { peer with publicKey := row.publicKey } else row).map (·.id) =
          t.peers.map (·.id) := by
      rw [List.map_map]
      refine List.map_congr_left fun row _ => ?_
      rw [Function.comp_apply]
      split
      · next hid => exact hid.symm
      · rfl
    exact hids ▸ ht
  · next hnew =>
    split at h
    · exact nomatch h
    · cases h
      refine Share.nodup_map_concat ht fun hmem => hnew ?_
      obtain ⟨row, hrow, hid⟩ := List.mem_map.mp hmem
      exact List.any_eq_true.mpr ⟨row, hrow, decide_eq_true hid⟩

def Keyless (t : Tables) : Prop := ∀ row ∈ t.peers, row.publicKey = none

theorem Keyless.save (ht : t.Keyless) (h : t.save peer = .ok t') : t'.Keyless := by
  unfold Tables.save at h
  split at h
  · cases h
    intro row hrow
    obtain ⟨old, hold, rfl⟩ := List.mem_map.mp hrow
    split
    · exact ht old hold
    · exact ht old hold
  · split at h
    · exact nomatch h
    · cases h
      exact List.forall_mem_append.mpr ⟨ht, List.forall_mem_singleton.mpr rfl⟩

theorem mem_of_findByFingerprint {fingerprint : String}
    (h : t.findByFingerprint fingerprint = some peer) : peer ∈ t.peers :=
  List.mem_of_find?_eq_some h

theorem mem_of_findOne {id : String} (h : t.findOne id = some peer) : peer ∈ t.peers :=
  List.mem_of_find?_eq_some h

theorem map_ok {α β : Type} {result : Except Failure α} {f : α → β} {b : β}
    (h : result.map f = .ok b) : ∃ a, result = .ok a ∧ f a = b := by
  cases result with
  | error failure => exact nomatch h
  | ok a => exact ⟨a, rfl, Except.ok.inj h⟩

/-- What `requested` may write: nothing, the row of a request of ours as it is settled, a row as it
was read, or a new request of theirs. -/
theorem requested_cases {id fingerprint name : String} {address : Option String}
    (h : t.requested id fingerprint name address = .ok t') :
    t' = t ∨ ∃ row, t.save row = .ok t' ∧
      ((∃ asked ∈ t.peers, asked.direction = some .OUTGOING ∧ row = settledRow asked) ∨
        row ∈ t.peers ∨ row = requestedRow id fingerprint name address none) := by
  unfold requested at h
  split at h
  · exact .inl (Except.ok.inj h).symm
  · dsimp only at h
    split at h
    · next asked hasked =>
      obtain ⟨⟨tables, row⟩, hsettle, rfl⟩ := map_ok h
      obtain ⟨tables, hsave, hpair⟩ := map_ok hsettle
      obtain ⟨rfl, rfl⟩ := Prod.mk.inj hpair
      obtain ⟨hfind, hdir⟩ := Option.filter_eq_some_iff.mp hasked
      exact .inr ⟨_, hsave,
        .inl ⟨asked, mem_of_findByFingerprint hfind, of_decide_eq_true hdir, rfl⟩⟩
    · cases hfind : t.findByFingerprint fingerprint with
      | none =>
        rw [hfind] at h
        exact .inr ⟨_, h, .inr (.inr rfl)⟩
      | some existing =>
        rw [hfind] at h
        exact .inr ⟨_, h, .inr (.inl (mem_of_findByFingerprint hfind))⟩

variable {w : World}

/-- Where nobody's key is known, there is nothing to check an introduction against. -/
theorem Keyless.introduction (ht : t.Keyless) (credential : PeerCredential) (token : Token)
    (now : ℤ) : t.introduction w credential token now = none := by
  have hkey : ∀ id, t.publicKeyOf id = none := by
    intro id
    unfold publicKeyOf
    cases hfind : t.findOne id with
    | none => rfl
    | some row => exact ht row (mem_of_findOne hfind)
  simp only [Tables.introduction, hkey, World.distance]
  repeat' split
  all_goals simp_all

/-- What `admit` may write then is what `requested` does. -/
theorem admit_cases {id : String} {credential : PeerCredential} {now : ℤ}
    {admission : Option PeerAdmission} (ht : t.Keyless)
    (h : t.admitCredential w id credential now = .ok (t', admission)) :
    t' = t ∨ t.requested id credential.fingerprint "" credential.address = .ok t' := by
  have hknown : ∀ {result}, t.admitKnown id credential = .ok result →
      t.requested id credential.fingerprint "" credential.address = .ok result.1 := by
    intro result hr
    obtain ⟨tables, hreq, rfl⟩ := map_ok hr
    exact hreq
  unfold admitCredential at h
  split at h
  · exact .inl (Prod.mk.inj (Except.ok.inj h)).1.symm
  · split at h
    · exact .inr (hknown h)
    · -- The token is not let in, and its bearer is one of those who ask.
      rw [admitIntroduced, ht.introduction] at h
      exact .inr (hknown h)

end Tables

namespace Manager

/-! ### What a row has to answer for -/

/-- How a row came by its link: a person settled it, or an introduction was let in for it.  A
friend, and whoever is at distance one, was settled by a person; nobody else is a friend, or nearer
than the introduction put them. -/
structure Vouched (s : Manager) (peer : Peer) : Prop where
  origin : peer.id ∈ s.chosen ∨ ∃ depth, (peer.id, depth) ∈ s.introduced
  friend : peer.trust = .FRIEND ∨ peer.depth = 1 → peer.id ∈ s.chosen
  introduced : ∀ depth, (peer.id, depth) ∈ s.introduced → peer.id ∉ s.chosen →
    peer.trust = .FRIEND_OF_FRIEND ∧ depth ≤ peer.depth

/-- A link of ours is open to it, or will be. -/
def Engaged (s : Manager) (id : String) : Prop := id ∈ s.timers ∨ id ∈ s.dials ∨ id ∈ s.reached

structure Known (s : Manager) (peer : Peer) : Prop where
  id_mem : peer.id ∈ s.ids
  asked : peer.direction = some .OUTGOING → peer.id ∈ s.asked
  depth : 1 ≤ peer.depth
  vouched : peer.isSettled ∨ s.Engaged peer.id → s.Vouched peer

structure Inv (s : Manager) : Prop where
  keyless : s.tables.Keyless
  unique : (s.tables.peers.map (·.id)).Nodup
  rows : ∀ peer ∈ s.tables.peers, s.Known peer
  engaged : ∀ id, s.Engaged id → id ∈ s.ids
  introduced : ∀ admitted ∈ s.introduced, admitted.1 ∈ s.ids

variable {w : World} {s s' : Manager} {t : Tables} {peer : Peer}

theorem Vouched.of_chosen (h : peer.id ∈ s.chosen) : s.Vouched peer where
  origin := .inl h
  friend _ := h
  introduced _ _ hnot := absurd h hnot

/-- What was done so far has grown, and what is said of introductions and links is about others. -/
structure Grown (s s' : Manager) (peer : Peer) : Prop where
  ids : ∀ id ∈ s.ids, id ∈ s'.ids
  asked : ∀ id ∈ s.asked, id ∈ s'.asked
  chosen : ∀ id ∈ s.chosen, id ∈ s'.chosen
  introduced : ∀ depth, (peer.id, depth) ∈ s'.introduced ↔ (peer.id, depth) ∈ s.introduced
  engaged : s'.Engaged peer.id → peer.isSettled ∨ s.Engaged peer.id

theorem Vouched.grown (h : s.Vouched peer) (hg : Grown s s' peer) : s'.Vouched peer where
  origin := h.origin.imp (hg.chosen _) fun ⟨depth, hd⟩ => ⟨depth, (hg.introduced depth).mpr hd⟩
  friend hf := hg.chosen _ (h.friend hf)
  introduced depth hd hnot :=
    h.introduced depth ((hg.introduced depth).mp hd) fun hc => hnot (hg.chosen _ hc)

theorem Known.grown (h : s.Known peer) (hg : Grown s s' peer) : s'.Known peer where
  id_mem := hg.ids _ h.id_mem
  asked hd := hg.asked _ (h.asked hd)
  depth := h.depth
  vouched he := (h.vouched (he.elim .inl hg.engaged)).grown hg

/-- A row that is only what another one was, but for the columns nothing is said about. -/
theorem Known.congr {row : Peer} (h : s.Known peer) (hid : row.id = peer.id)
    (hdir : row.direction = peer.direction) (htrust : row.trust = peer.trust)
    (hdepth : row.depth = peer.depth)
    (hsettled : row.isSettled → peer.isSettled ∨ s.Engaged peer.id) :
    s.Known row where
  id_mem := hid ▸ h.id_mem
  asked hd := hid ▸ h.asked (hdir ▸ hd)
  depth := hdepth ▸ h.depth
  vouched he := by
    have hv := h.vouched (he.elim hsettled fun he => .inr (hid ▸ he))
    constructor
    · rw [hid]
      exact hv.origin
    · rw [hid, htrust, hdepth]
      exact hv.friend
    · rw [hid, htrust, hdepth]
      exact hv.introduced

/-! ### One event -/

theorem Inv.kept (h : s.Inv) (hrows : s'.tables.peers.Sublist s.tables.peers)
    (hgrown : ∀ row ∈ s.tables.peers, Grown s s' row)
    (hengaged : ∀ id, s'.Engaged id → id ∈ s'.ids)
    (hintroduced : ∀ admitted ∈ s'.introduced, admitted.1 ∈ s'.ids) : s'.Inv where
  keyless row hrow := h.keyless row (hrows.subset hrow)
  unique := h.unique.sublist (hrows.map _)
  rows row hrow := (h.rows row (hrows.subset hrow)).grown (hgrown row (hrows.subset hrow))
  engaged := hengaged
  introduced := hintroduced

/-- A row that is written, while the others are left as they were. -/
theorem Inv.saved (h : s.Inv) (hsave : s.tables.save peer = .ok t)
    (ht : s'.tables.peers = t.peers) (hpeer : s'.Known peer)
    (hgrown : ∀ row ∈ s.tables.peers, row.id ≠ peer.id → Grown s s' row)
    (hengaged : ∀ id, s'.Engaged id → id ∈ s'.ids)
    (hintroduced : ∀ admitted ∈ s'.introduced, admitted.1 ∈ s'.ids) : s'.Inv where
  keyless row hrow := h.keyless.save hsave row (ht ▸ hrow)
  unique := ht ▸ Tables.nodup_of_save hsave h.unique
  rows row hrow := by
    rcases Tables.mem_of_save hsave (ht ▸ hrow) with ⟨hold, hid⟩ | ⟨key, rfl⟩
    · exact (h.rows row hold).grown (hgrown row hold hid)
    · exact hpeer.congr rfl rfl rfl rfl .inl
  engaged := hengaged
  introduced := hintroduced

theorem Inv.edited (h : s.Inv) {f : Peer → Peer} (ht : s'.tables.peers = s.tables.peers.map f)
    (hid : ∀ row, (f row).id = row.id) (hkey : ∀ row, (f row).publicKey = row.publicKey)
    (hknown : ∀ row ∈ s.tables.peers, s.Known row → s'.Known (f row))
    (hengaged : ∀ id, s'.Engaged id → id ∈ s'.ids)
    (hintroduced : ∀ admitted ∈ s'.introduced, admitted.1 ∈ s'.ids) : s'.Inv where
  keyless row hrow := by
    rw [ht] at hrow
    obtain ⟨old, hold, rfl⟩ := List.mem_map.mp hrow
    exact (hkey old).trans (h.keyless old hold)
  unique := by
    have hids : s'.tables.peers.map (·.id) = s.tables.peers.map (·.id) := by
      rw [ht, List.map_map]
      exact List.map_congr_left fun row _ => hid row
    exact hids ▸ h.unique
  rows row hrow := by
    rw [ht] at hrow
    obtain ⟨old, hold, rfl⟩ := List.mem_map.mp hrow
    exact hknown old hold (h.rows old hold)
  engaged := hengaged
  introduced := hintroduced

theorem Inv.record (h : s.Inv) {saved : Tables} {ids asked chosen : List String}
    (hsave : s.tables.save peer = .ok saved) (ht : t.peers = saved.peers) (hids : s.ids ⊆ ids)
    (hasked : s.asked ⊆ asked) (hchosen : s.chosen ⊆ chosen)
    (hpeer : Known { s with tables := t, ids := ids, asked := asked, chosen := chosen } peer) :
    Inv { s with tables := t, ids := ids, asked := asked, chosen := chosen } := by
  refine h.saved hsave ht hpeer (fun row _ _ => ?_) (fun id he => hids (h.engaged id he))
    fun admitted ha => hids (h.introduced admitted ha)
  exact ⟨fun _ hi => hids hi, fun _ ha => hasked ha, fun _ hc => hchosen hc, fun _ => Iff.rfl, .inr⟩

theorem Inv.accept (h : s.Inv) {id : String} {parsed : ParsedInvite} {name : Option String}
    {now : ℤ}
    (haccept : s.tables.accept w id parsed name now = .ok (t, peer)) :
    Inv { s with tables := t, ids := id :: s.ids, chosen := peer.id :: s.chosen } := by
  unfold Tables.accept at haccept
  split at haccept
  · exact nomatch haccept
  · next fingerprint _ =>
    split at haccept
    · exact nomatch haccept
    · dsimp only at haccept
      obtain ⟨saved, hsave, hpair⟩ := Tables.map_ok haccept
      obtain ⟨rfl, rfl⟩ := Prod.mk.inj hpair
      have hburn : ∀ peerId, (saved.burn w parsed peerId now).peers = saved.peers := fun _ => rfl
      apply h.record hsave (hburn _) (List.subset_cons_self ..) (List.Subset.refl _)
        (List.subset_cons_self ..)
      cases hfind : s.tables.findByFingerprint fingerprint with
      | none => exact ⟨List.mem_cons_self, nofun, le_refl 1, fun _ => .of_chosen List.mem_cons_self⟩
      | some existing =>
        have hold := h.rows _ (Tables.mem_of_findByFingerprint hfind)
        exact ⟨List.mem_cons_of_mem _ hold.id_mem, hold.asked, hold.depth,
          fun _ => .of_chosen List.mem_cons_self⟩

/-- `_settle`, of a row that is recorded as chosen -/
theorem Inv.settle (h : s.Inv) {ids chosen : List String} (hrow : peer ∈ s.tables.peers)
    (hsave : s.tables.save (settledRow peer) = .ok t) (hids : s.ids ⊆ ids)
    (hchosen : s.chosen ⊆ chosen)
    (hid : peer.id ∈ chosen) : Inv { s with tables := t, ids := ids, chosen := chosen } := by
  apply h.record hsave rfl hids (List.Subset.refl _) hchosen
  exact ⟨hids (h.rows _ hrow).id_mem, nofun, le_refl 1, fun _ => .of_chosen hid⟩

theorem Inv.add (h : s.Inv) {id : String} (hid : id ∉ s.ids) {request : AddPeerRequest}
    (hadd : s.tables.add id request = .ok (t, peer)) {s' : Manager}
    (hs' : s' = if peer.direction = some .OUTGOING then
        { s with tables := t, ids := id :: s.ids, asked := peer.id :: s.asked }
      else { s with tables := t, ids := id :: s.ids, chosen := peer.id :: s.chosen }) : s'.Inv := by
  unfold Tables.add at hadd
  dsimp only at hadd
  split at hadd
  · exact nomatch hadd
  · split at hadd
    · exact nomatch hadd
    · split at hadd
      · next asking hasking =>
        -- Their request is answered, and the row is no request any more.
        obtain ⟨saved, hsave, hpair⟩ := Tables.map_ok hadd
        obtain ⟨rfl, rfl⟩ := Prod.mk.inj hpair
        have hmem := Tables.mem_of_findByFingerprint (Option.filter_eq_some_iff.mp hasking).1
        rw [hs', if_neg nofun]
        exact h.settle hmem hsave (List.subset_cons_self ..) (List.subset_cons_self ..)
          List.mem_cons_self
      · obtain ⟨saved, hsave, hpair⟩ := Tables.map_ok hadd
        obtain ⟨rfl, rfl⟩ := Prod.mk.inj hpair
        have hout : (addedRow id (trim request.fingerprint) request
            (s.tables.findByFingerprint (trim request.fingerprint))).direction =
              some .OUTGOING := by
          cases s.tables.findByFingerprint (trim request.fingerprint) <;> rfl
        rw [hs', if_pos hout]
        apply h.record hsave rfl (List.subset_cons_self ..) (List.subset_cons_self ..)
          (List.Subset.refl _)
        cases hfind : s.tables.findByFingerprint (trim request.fingerprint) with
        | none =>
          refine ⟨List.mem_cons_self, fun _ => List.mem_cons_self, le_refl 1, fun he => ?_⟩
          rcases he with hsettled | he
          · exact nomatch hsettled
          · exact absurd (h.engaged id he) hid
        | some existing =>
          have hold := h.rows _ (Tables.mem_of_findByFingerprint hfind)
          refine ⟨List.mem_cons_of_mem _ hold.id_mem, fun _ => List.mem_cons_self, hold.depth,
            fun he => ?_⟩
          -- The row is not settled any more, but a link may still be on its way.
          have hv := hold.vouched (.inr (he.resolve_left nofun))
          exact ⟨hv.origin, hv.friend, hv.introduced⟩

theorem Inv.approve (h : s.Inv) {id : String} (happrove : s.tables.approve id = .ok (t, peer)) :
    Inv { s with tables := t, chosen := peer.id :: s.chosen } := by
  unfold Tables.approve at happrove
  split at happrove
  · exact nomatch happrove
  · next found hfind =>
    split at happrove
    · exact nomatch happrove
    · obtain ⟨saved, hsave, hpair⟩ := Tables.map_ok happrove
      obtain ⟨rfl, rfl⟩ := Prod.mk.inj hpair
      exact h.settle (Tables.mem_of_findOne hfind) hsave (List.Subset.refl _)
        (List.subset_cons_self ..) List.mem_cons_self

theorem mem_answered {asked row : Peer} (hasked : asked ∈ s.tables.peers)
    (hout : asked.direction = some .OUTGOING) (hsave : s.tables.save row = .ok t)
    (hid : row.id = asked.id) (hsettled : row.isSettled) (hnone : row.direction = none) :
    asked.id ∈ answered s.tables t := by
  obtain ⟨key, hmem⟩ := Tables.exists_mem_save hsave
  refine List.mem_map.mpr ⟨asked, List.mem_filter.mpr ⟨hasked, ?_⟩, rfl⟩
  rw [decide_eq_true_eq]
  exact ⟨hout, List.any_eq_true.mpr ⟨_, hmem, decide_eq_true ⟨hid, hsettled, hnone⟩⟩⟩

theorem Inv.requested (h : s.Inv) {id fingerprint name : String} {address : Option String}
    (hid : id ∉ s.ids) (hrequested : s.tables.requested id fingerprint name address = .ok t) :
    Inv { s with
      tables := t
      ids := id :: s.ids
      chosen := (answered s.tables t).filter (· ∈ s.asked) ++ s.chosen } := by
  have hchosen : s.chosen ⊆ (answered s.tables t).filter (· ∈ s.asked) ++ s.chosen :=
    List.subset_append_right _ _
  rcases Tables.requested_cases hrequested with
    rfl | ⟨row, hsave, ⟨asked, hasked, hout, rfl⟩ | hrow | rfl⟩
  · exact h.kept (List.Sublist.refl _)
      (fun row _ => ⟨fun _ => List.mem_cons_of_mem _, fun _ ha => ha, fun _ hc => hchosen hc,
        fun _ => Iff.rfl, .inr⟩)
      (fun id he => List.mem_cons_of_mem _ (h.engaged id he))
      fun admitted ha => List.mem_cons_of_mem _ (h.introduced admitted ha)
  · apply h.settle hasked hsave (List.subset_cons_self ..) hchosen
    apply List.mem_append_left
    have hanswered := mem_answered hasked hout hsave rfl rfl rfl
    exact List.mem_filter.mpr ⟨hanswered, decide_eq_true ((h.rows _ hasked).asked hout)⟩
  · apply h.record hsave rfl (List.subset_cons_self ..) (List.Subset.refl _) hchosen
    exact (h.rows row hrow).grown ⟨fun _ => List.mem_cons_of_mem _, fun _ ha => ha,
      fun _ hc => hchosen hc, fun _ => Iff.rfl, .inr⟩
  · apply h.record hsave rfl (List.subset_cons_self ..) (List.Subset.refl _) hchosen
    -- A new row is neither settled nor is there a link to it.
    refine ⟨List.mem_cons_self, nofun, le_refl 1, fun he => ?_⟩
    rcases he with hsettled | he
    · exact nomatch hsettled
    · exact absurd (h.engaged id he) hid

theorem introducedAt_eq_none (h : s.Inv) (credential : PeerCredential) (now : ℤ) :
    introducedAt w s.tables credential now = none := by
  unfold introducedAt
  split
  · cases s.tables.tokenOf credential with
    | none => rfl
    | some token => rw [Option.bind_some, h.keyless.introduction, Option.map_none]
  · rfl

/-- `admit` -/
theorem Inv.admitCredential (h : s.Inv) {id : String} {credential : PeerCredential} {now : ℤ}
    {admission : Option PeerAdmission} (hid : id ∉ s.ids)
    (hcall : s.tables.admitCredential w id credential now = .ok (t, admission)) :
    Inv { s with
      tables := t
      ids := id :: s.ids
      chosen := (answered s.tables t).filter (· ∈ s.asked) ++ s.chosen
      introduced := letIn admission (introducedAt w s.tables credential now) ++ s.introduced } := by
  have hletIn : letIn admission none = [] := by cases admission <;> rfl
  rw [introducedAt_eq_none h, hletIn, List.nil_append]
  rcases Tables.admit_cases h.keyless hcall with rfl | hrequested
  · exact h.kept (List.Sublist.refl _)
      (fun row _ => ⟨fun _ => List.mem_cons_of_mem _, fun _ ha => ha,
        fun _ => List.mem_append_right _, fun _ => Iff.rfl, .inr⟩)
      (fun id he => List.mem_cons_of_mem _ (h.engaged id he))
      fun admitted ha => List.mem_cons_of_mem _ (h.introduced admitted ha)
  · exact h.requested hid hrequested

/-- Nothing is recorded, and no link is looked after that was not before. -/
theorem Grown.links (tables : Tables) {timers dials reached : List String} (row : Peer)
    (hengaged : ∀ id, id ∈ timers ∨ id ∈ dials ∨ id ∈ reached → s.Engaged id) :
    Grown s { s with tables := tables, timers := timers, dials := dials, reached := reached } row :=
  ⟨fun _ hi => hi, fun _ ha => ha, fun _ hc => hc, fun _ => Iff.rfl, fun he => .inr (hengaged _ he)⟩

theorem Inv.links (h : s.Inv) {timers dials reached : List String}
    (hrows : t.peers.Sublist s.tables.peers)
    (hengaged : ∀ id, id ∈ timers ∨ id ∈ dials ∨ id ∈ reached → s.Engaged id) :
    Inv { s with tables := t, timers := timers, dials := dials, reached := reached } :=
  h.kept hrows (fun row _ => .links t row hengaged) (fun id he => h.engaged id (hengaged id he))
    h.introduced

theorem Inv.after (h : s.Inv) {result : Except Failure Tables}
    (hresult : ∀ t, result = .ok t → t.peers.Sublist s.tables.peers) : (s.after result).Inv := by
  cases result with
  | error failure => exact h
  | ok t =>
      exact h.links (hresult t rfl) fun id he => he.imp_left fun ht => (List.mem_filter.mp ht).1

theorem sublist_of_remove {id : String} {tables : Tables} (h : tables.remove id = .ok t) :
    t.peers.Sublist tables.peers := by
  unfold Tables.remove at h
  split at h
  · exact nomatch h
  · cases h
    exact List.filter_sublist

theorem sublist_of_ban {id : String} {tables : Tables} (h : tables.ban id = .ok t) :
    t.peers.Sublist tables.peers := by
  unfold Tables.ban at h
  split at h
  · exact nomatch h
  · have hremove := sublist_of_remove h
    exact hremove

theorem sublist_of_banFingerprint {fingerprint : String} {tables : Tables}
    (h : tables.banFingerprint fingerprint = .ok t) : t.peers.Sublist tables.peers := by
  unfold Tables.banFingerprint at h
  dsimp only at h
  split at h
  · exact nomatch h
  · split at h
    · exact sublist_of_ban h
    · cases h
      exact List.Sublist.refl _

theorem sublist_of_unban {fingerprint : String} {tables : Tables}
    (h : tables.unban fingerprint = .ok t) : t.peers.Sublist tables.peers := by
  unfold Tables.unban at h
  split at h
  · cases h
    exact List.Sublist.refl _
  · exact nomatch h

theorem sublist_of_forget {id : String} {linked : Bool} {tables : Tables}
    (h : tables.forgetIfDiscovered id linked = some t) : t.peers.Sublist tables.peers := by
  unfold Tables.forgetIfDiscovered at h
  split at h
  · exact nomatch h
  · split at h
    · cases h
      exact List.filter_sublist
    · exact nomatch h

/-- The status of a row whose link is ours is written, and the link is kept track of. -/
theorem Inv.setStatus (h : s.Inv) {id : String} {status : PeerStatus} {address : Option String}
    {timers dials reached : List String} (hid : s.Engaged id)
    (hengaged : ∀ peerId, peerId ∈ timers ∨ peerId ∈ dials ∨ peerId ∈ reached → s.Engaged peerId) :
    Inv { s with
      tables := s.tables.setStatus id status address
      timers := timers
      dials := dials
      reached := reached } := by
  refine h.edited rfl (fun row => ?_) (fun row => ?_) (fun row _ hrow => ?_)
    (fun id he => h.engaged id (hengaged id he)) h.introduced
  · split <;> rfl
  · split <;> rfl
  · have hgrown := hrow.grown (.links (s.tables.setStatus id status address) row hengaged)
    split
    · next hsame =>
      have hv := (hrow.vouched (.inr (hsame ▸ hid))).grown
        (.links (s.tables.setStatus id status address) row hengaged)
      exact ⟨hgrown.id_mem, hgrown.asked, hgrown.depth,
        fun _ => ⟨hv.origin, hv.friend, hv.introduced⟩⟩
    · exact hgrown

theorem Inv.recordHandshake (h : s.Inv) (id : String) :
    Inv { s with tables := s.tables.recordHandshake id none } := by
  refine h.edited rfl (fun row => ?_) (fun row => ?_) (fun row _ hrow => ?_) h.engaged h.introduced
  · split <;> rfl
  · split <;> rfl
  · have hgrown := hrow.grown (.links (s.tables.recordHandshake id none) row fun _ he => he)
    split
    · exact hgrown.congr rfl rfl rfl rfl .inl
    · exact hgrown

/-- After a restart the peers that are dialled are those that are settled. -/
theorem Inv.restart (h : s.Inv) (autoConnect : Bool) :
    Inv { s with
      tables := s.tables.sweepDiscovered
      timers := if autoConnect then s.tables.sweepDiscovered.findLinked.map (·.id) else []
      dials := []
      reached := [] } := by
  have hlinked : ∀ id,
      id ∈ (if autoConnect then s.tables.sweepDiscovered.findLinked.map (·.id) else []) →
      ∃ row ∈ s.tables.peers, row.isSettled ∧ row.id = id := by
    intro id hid
    split at hid
    · obtain ⟨row, hrow, rfl⟩ := List.mem_map.mp hid
      obtain ⟨hmem, hsettled⟩ := List.mem_filter.mp hrow
      exact ⟨row, (List.mem_filter.mp hmem).1, hsettled, rfl⟩
    · exact nomatch hid
  refine h.kept List.filter_sublist (fun row hrow => ?_) (fun id he => ?_) h.introduced
  · refine ⟨fun _ hi => hi, fun _ ha => ha, fun _ hc => hc, fun _ => Iff.rfl, fun he => .inl ?_⟩
    obtain ⟨other, hother, hsettled, hid⟩ := hlinked _ (he.resolve_right nofun)
    exact List.inj_on_of_nodup_map h.unique hother hrow hid ▸ hsettled
  · obtain ⟨row, hrow, -, rfl⟩ := hlinked _ (he.resolve_right nofun)
    exact (h.rows row hrow).id_mem

theorem Inv.lost (h : s.Inv) {peerId : String} {linked : Bool}
    (hstep : step w s (.lost peerId linked) = some s') : s'.Inv := by
  simp only [step] at hstep
  split at hstep
  · next hreached =>
    split at hstep
    · next hforget =>
      refine Option.some.inj hstep ▸ h.after fun t ht => ?_
      exact sublist_of_forget (hforget.trans (congrArg some (Except.ok.inj ht)))
    · -- The timer that is armed is that of the link that was there.
      refine Option.some.inj hstep ▸ h.setStatus (.inr (.inr hreached)) fun id he => ?_
      rcases he with ht | he
      · rcases List.mem_cons.mp ht with rfl | ht
        · exact .inr (.inr hreached)
        · exact .inl ht
      · exact .inr he
  · exact nomatch hstep

/-- A timer goes off: its peer is dialled, or not looked after any more. -/
theorem Inv.timer (h : s.Inv) {peerId : String} (hstep : step w s (.timer peerId) = some s') :
    s'.Inv := by
  simp only [step] at hstep
  split at hstep
  · next htimer =>
    have hengaged : ∀ id, id ∈ s.timers.filter (· ≠ peerId) → s.Engaged id :=
      fun id hid => .inl (List.mem_filter.mp hid).1
    have hgone : Inv { s with timers := s.timers.filter (· ≠ peerId) } :=
      h.links (List.Sublist.refl _) fun id he => he.elim (hengaged id) .inr
    split at hstep
    · exact Option.some.inj hstep ▸ hgone
    · split at hstep
      · exact Option.some.inj hstep ▸ hgone
      · refine Option.some.inj hstep ▸ h.links (List.Sublist.refl _) fun id he => ?_
        rcases he with ht | hd | hr
        · exact hengaged id ht
        · rcases List.mem_cons.mp hd with rfl | hd
          · exact .inl htimer
          · exact .inr (.inl hd)
        · exact .inr (.inr hr)
  · exact nomatch hstep

/-- A dial ends.  Whatever came of it, what is looked after then was looked after before. -/
theorem Inv.dialled (h : s.Inv) {peerId : String} {outcome : DialOutcome}
    (hstep : step w s (.dialled peerId outcome) = some s') : s'.Inv := by
  simp only [step] at hstep
  split at hstep
  · next hdial =>
    have hself : s.Engaged peerId := .inr (.inl hdial)
    have herase : ∀ id, id ∈ s.dials.erase peerId → s.Engaged id :=
      fun id hid => .inr (.inl (List.mem_of_mem_erase hid))
    have hretry :
        ∀ id, id ∈ { s with dials := s.dials.erase peerId }.retry peerId → s.Engaged id := by
      intro id hid
      unfold retry at hid
      split at hid
      · exact .inl hid
      · rcases List.mem_cons.mp hid with rfl | hid
        · exact hself
        · exact .inl hid
    cases outcome with
    | LINKED address =>
      refine Option.some.inj hstep ▸ h.setStatus hself fun id he => ?_
      rcases he with ht | hd | hr
      · exact hretry id ht
      · exact herase id hd
      · rcases List.mem_cons.mp hr with rfl | hr
        · exact hself
        · exact .inr (.inr hr)
    | UNREACHABLE =>
      refine Option.some.inj hstep ▸ h.setStatus hself fun id he => ?_
      rcases he with ht | hd | hr
      · rcases List.mem_cons.mp ht with rfl | ht
        · exact hself
        · exact .inl ht
      · exact herase id hd
      · exact .inr (.inr hr)
    | REFUSED =>
      refine Option.some.inj hstep ▸ h.setStatus hself fun id he => ?_
      exact he.elim (hretry id) fun he => he.elim (herase id) fun hr => .inr (.inr hr)
  · exact nomatch hstep

/-- **One event.** -/
theorem inv_step {event : Event} (h : s.Inv) (hstep : step w s event = some s') : s'.Inv := by
  cases event with
  | accept id parsed name now =>
    simp only [step] at hstep
    split at hstep
    · exact nomatch hstep
    · split at hstep
      · cases hstep
        exact h
      · next haccept =>
        cases hstep
        exact h.accept haccept
  | add id request =>
    simp only [step] at hstep
    split at hstep
    · exact nomatch hstep
    · next hid =>
      split at hstep
      · cases hstep
        exact h
      · next hadd =>
        refine h.add hid hadd ?_
        split at hstep
        · next hout => rw [if_pos hout, Option.some.inj hstep]
        · next hout => rw [if_neg hout, Option.some.inj hstep]
  | approve id =>
    simp only [step] at hstep
    split at hstep
    · cases hstep
      exact h
    · next happrove =>
      cases hstep
      exact h.approve happrove
  -- What takes rows away says nothing new of those that are left.
  | remove id => exact Option.some.inj hstep ▸ h.after fun _ => sublist_of_remove
  | ban id => exact Option.some.inj hstep ▸ h.after fun _ => sublist_of_ban
  | banFingerprint fingerprint =>
    exact Option.some.inj hstep ▸ h.after fun _ => sublist_of_banFingerprint
  | unban fingerprint => exact Option.some.inj hstep ▸ h.after fun _ => sublist_of_unban
  | settings settings =>
    cases hstep
    exact h.links (List.Sublist.refl _) fun _ he => he
  | requested id fingerprint name address =>
    simp only [step] at hstep
    split at hstep
    · exact nomatch hstep
    · next hid =>
      split at hstep
      · cases hstep
        exact h
      · next hrequested =>
        cases hstep
        exact h.requested hid hrequested
  | admitCredential id credential now =>
    simp only [step] at hstep
    split at hstep
    · exact nomatch hstep
    · next hid =>
      split at hstep
      · cases hstep
        exact h
      · next hcall =>
        cases hstep
        exact h.admitCredential hid hcall
  | greet peerId protocol =>
    cases hstep
    unfold Tables.greet
    split
    · exact h.recordHandshake peerId
    · exact h
  | handshake peerId => exact Option.some.inj hstep ▸ h.recordHandshake peerId
  | lost peerId linked => exact h.lost hstep
  | released peerId linked =>
    simp only [step] at hstep
    split at hstep
    · next hforget =>
      refine Option.some.inj hstep ▸ h.after fun t ht => ?_
      exact sublist_of_forget (hforget.trans (congrArg some (Except.ok.inj ht)))
    · cases hstep
      exact h
  | restart autoConnect => exact Option.some.inj hstep ▸ h.restart autoConnect
  | timer peerId => exact h.timer hstep
  | dialled peerId outcome => exact h.dialled hstep

theorem inv_boot (settings : Settings) : (boot settings).Inv where
  keyless _ hrow := absurd hrow List.not_mem_nil
  unique := List.nodup_nil
  rows _ hrow := absurd hrow List.not_mem_nil
  engaged _ he := absurd he (by simp [Engaged, boot])
  introduced _ ha := absurd ha List.not_mem_nil

/-- **Nobody becomes a friend without a person**, in any run: whoever is settled was settled by a
person or introduced; a friend, and whoever is at distance one, was settled by a person; and whoever
was only ever introduced is a friend of a friend, no nearer than the introduction put them. -/
theorem vouched_of_run {settings : Settings} {events : List Event}
    (h : Run (step w) Free (boot settings) events s) :
    ∀ peer ∈ s.tables.peers, peer.isSettled → s.Vouched peer := by
  have hinv := h.invariant (fun _ _ _ hi _ hstep => inv_step hi hstep) (inv_boot settings)
  exact fun peer hpeer hsettled => (hinv.rows peer hpeer).vouched (.inl hsettled)

end Manager

/-! ### A stranger with a token -/

/-- Our own gateway, a friend's and a stranger's: a signature is the key before what it signs. -/
def village : World where
  fingerprint := "ours"
  publicKey := "our key"
  hash secret := "#" ++ secret
  fingerprintOf key := [("her key", "her"), ("his key", "his")].lookup key
  issued challenge := [("her:0", 0), ("his:0", 0)].lookup challenge
  verify key payload signature := signature = key ++ payload
  parse payload :=
    if payload = "two hops" then
      some {
        v := INTRODUCTION_VERSION
        introducer := "her"
        subject := "his"
        holder := "ours"
        depth := 2
        issuedAt := 0
        expiresAt := INTRODUCTION_TTL_MS }
    else none

def homeSettings : Settings := ⟨.FRIENDS, 3, true, false⟩

def invitation : ParsedInvite := ⟨"code", some "her", some "https://her", some "secret", some 10⟩

def introduced : PeerCredential where
  fingerprint := "his"
  publicKey := "his key"
  challenge := "his:0"
  signature := "his keyhis:0"
  introduction := some ⟨"two hops", some "her keytwo hops"⟩
  address := none

/-- A friend is made, and she shakes hands.  A stranger asks, and shows a token of hers. -/
def asking : List Manager.Event :=
  [.accept "1" invitation none 0, .handshake "1", .requested "2" "his" "" none,
    .admitCredential "3" introduced 0]

/-- The token lets nobody in, and a person does. -/
theorem vouched_of_run_approved :
    (LabelledRun.exec (Manager.step village) Free (.boot homeSettings) asking).any (fun s =>
      s.tables.peers.any fun peer => peer.fingerprint = "his" ∧ !peer.isSettled) ∧
    ∃ s, LabelledRun.exec (Manager.step village) Free (.boot homeSettings)
        (asking ++ [.approve "2"]) = some s ∧
      ∃ peer ∈ s.tables.peers, peer.fingerprint = "his" ∧ peer.trust = .FRIEND ∧
        s.Vouched peer := by
  refine ⟨by decide +kernel, ?_⟩
  have happroved : (LabelledRun.exec (Manager.step village) Free (.boot homeSettings)
      (asking ++ [.approve "2"])).any (fun s => s.tables.peers.any fun peer =>
        peer.fingerprint = "his" ∧ peer.trust = .FRIEND ∧ peer.isSettled) = true := by
    decide +kernel
  obtain ⟨s, hexec, hend⟩ := (Option.any_eq_true _ _).mp happroved
  obtain ⟨peer, hpeer, hhis⟩ := List.any_eq_true.mp hend
  obtain ⟨hfingerprint, htrust, hsettled⟩ := of_decide_eq_true hhis
  exact ⟨s, hexec, peer, hpeer, hfingerprint, htrust,
    Manager.vouched_of_run (.ofExec hexec) peer hpeer hsettled⟩

end MediaCenterSync.PeerManager
