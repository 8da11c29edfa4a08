import MediaCenterSync.Lib.LabelledRun
import MediaCenterSync.PeerExchange.Correct.Hidden

/-!
# A friend's library, and who is shown it

The switch of a service never reaches the libraries of a service that stands for a peer
(`not_mem_sharing`).  A stored policy is not asked whose library it is about: what a peer is shown
of such a library is what the policy alone says (`visible_iff_of_backed`), and nothing of it is kept
back otherwise (`keptBack_iff`).  So a friend's library stays here as long as no edit writes a
policy that shows it to somebody (`keptBack_of_run`).
-/

namespace MediaCenterSync.Share

open Peers LabelledRun

namespace Shares

variable {g : Shares} {library : Library} {peer : Peer}

/-- The library is that of a service that stands for a peer. -/
def Backed (g : Shares) (library : Library) : Prop :=
  ∃ service ∈ g.services, service.id = library.serviceId ∧ service.peerId ≠ none

/-- The peer may read nothing; or no policy is stored for the library, or the one that is denies the
peer, or does not allow it and is private or for friends the peer is not one of. -/
def Withheld (g : Shares) (peer : Peer) (library : Library) : Prop :=
  peer.readingForbidden ∨ ∀ policy ∈ g.findByLibrary library.id,
    peer.id ∈ policy.deniedPeerIds ∨ peer.id ∉ policy.allowedPeerIds ∧
      (policy.visibility = .PRIVATE ∨ policy.visibility = .FRIENDS ∧ peer.trust ≠ .FRIEND)

instance (g : Shares) (peer : Peer) (library : Library) : Decidable (g.Withheld peer library) :=
  inferInstanceAs (Decidable (_ ∨ _))

theorem not_mem_sharing (h : g.Backed library) : library.serviceId ∉ g.sharing := by
  obtain ⟨service, hservice, hid, hpeer⟩ := h
  intro hshared
  obtain ⟨other, hother, hsame⟩ := List.mem_map.mp hshared
  obtain ⟨hmem, hown⟩ := List.mem_filter.mp hother
  obtain rfl := List.inj_on_of_nodup_map g.serviceIds hmem hservice (hsame.trans hid.symm)
  exact hpeer (of_decide_eq_true hown).2

/-- A library is among the visible when its own policy, as resolved, shows it. -/
theorem mem_visiblePolicies (hlibrary : library ∈ g.libraries) :
    library.id ∈ (g.visiblePolicies peer).map (·.libraryId) ↔
      peer.readingForbidden = false ∧ isVisible (g.resolve library) peer := by
  unfold visiblePolicies
  cases hforbidden : peer.readingForbidden with
  | true => simp
  | false =>
    simp only [Bool.false_eq_true, if_false, List.mem_map, List.mem_filter, true_and]
    constructor
    · rintro ⟨_, ⟨⟨other, hother, rfl⟩, hvisible⟩, hid⟩
      obtain rfl := List.inj_on_of_nodup_map g.libraryIds hother hlibrary hid
      exact hvisible
    · exact fun hvisible => ⟨_, ⟨⟨library, hlibrary, rfl⟩, hvisible⟩, rfl⟩

theorem visible_iff_of_backed (hlibrary : library ∈ g.libraries) (hbacked : g.Backed library) :
    library.id ∈ (g.visiblePolicies peer).map (·.libraryId) ↔ ¬ g.Withheld peer library := by
  rw [mem_visiblePolicies hlibrary]
  unfold Withheld isVisible resolve effectiveVisibility
  have hswitch := not_mem_sharing hbacked
  cases hstored : g.findByLibrary library.id with
  | none => simp [hswitch]
  | some policy =>
    simp only [Option.map_some, Option.getD_some, Option.mem_some, forall_eq']
    by_cases hdenied : peer.id ∈ policy.deniedPeerIds
    · simp [hdenied]
    · by_cases hallowed : peer.id ∈ policy.allowedPeerIds
      · simp [hdenied, hallowed]
      · cases policy.visibility <;> simp [hdenied, hallowed]

/-! ### Over the edits -/

/-- What is written over a table is its rows and the one that was written. -/
theorem mem_overwrite {Row : Type*} {key : Row → String} {rows : List Row} {saved row : Row}
    (h : row ∈ overwrite key rows saved) : row = saved ∨ row ∈ rows := by
  obtain ⟨other, hother, hrow⟩ := List.mem_map.mp h
  split at hrow
  · exact .inl hrow.symm
  · exact .inr (hrow ▸ hother)

theorem mem_save {saved policy : SharePolicy} (h : policy ∈ (g.save saved).policies) :
    policy = saved ∨ policy ∈ g.policies := by
  unfold save at h
  split at h
  · exact mem_overwrite h
  · exact (List.mem_append.mp h).symm.imp_left List.mem_singleton.mp

theorem save_libraries (saved : SharePolicy) : (g.save saved).libraries = g.libraries := by
  unfold save
  split <;> rfl

theorem save_services (saved : SharePolicy) : (g.save saved).services = g.services := by
  unfold save
  split <;> rfl

/-- Every policy of a friend's library is private, and allows nobody it does not deny. -/
def Closed (g : Shares) : Prop :=
  ∀ policy ∈ g.policies, ∀ library ∈ g.libraries, library.id = policy.libraryId →
    g.Backed library → policy.visibility = .PRIVATE ∧ policy.allowedPeerIds ⊆ policy.deniedPeerIds

/-- A policy that is written for a friend's library leaves it private, and allows nobody it does not
deny. -/
def Withholds (g : Shares) : Edit → Prop
  | .put libraryId patch => ∀ library ∈ g.libraries, library.id = libraryId → g.Backed library →
      (patch.visibility = none ∨ patch.visibility = some .PRIVATE) ∧
      patch.allowedPeerIds.getD (((g.findByLibrary libraryId).map (·.allowedPeerIds)).getD []) ⊆
        patch.deniedPeerIds.getD (((g.findByLibrary libraryId).map (·.deniedPeerIds)).getD [])
  | _ => True

theorem mem_of_findByLibrary {libraryId : String} {policy : SharePolicy}
    (h : g.findByLibrary libraryId = some policy) :
    policy ∈ g.policies ∧ policy.libraryId = libraryId :=
  ⟨List.mem_of_find?_eq_some h, of_decide_eq_true (List.find?_some h :)⟩

theorem Closed.withheld (h : g.Closed) (hlibrary : library ∈ g.libraries)
    (hbacked : g.Backed library) : g.Withheld peer library := by
  refine .inr fun policy hpolicy => ?_
  obtain ⟨hmem, hid⟩ := mem_of_findByLibrary hpolicy
  obtain ⟨hprivate, hallowed⟩ := h policy hmem library hlibrary hid.symm hbacked
  by_cases hdenied : peer.id ∈ policy.deniedPeerIds
  · exact .inl hdenied
  · exact .inr ⟨fun hallow => hdenied (hallowed hallow), .inl hprivate⟩

/-- What `put` leaves of a closed library is closed where the patch is. -/
theorem Closed.patched (h : g.Closed) (hlibrary : library ∈ g.libraries)
    (hbacked : g.Backed library) {patch : UpdateSharePolicyRequest}
    (hpatch : g.Withholds (.put library.id patch)) :
    (g.patched library patch).visibility = .PRIVATE ∧
      (g.patched library patch).allowedPeerIds ⊆ (g.patched library patch).deniedPeerIds := by
  obtain ⟨hvisibility, hallowed⟩ := hpatch library hlibrary rfl hbacked
  unfold Shares.patched
  cases hstored : g.findByLibrary library.id with
  | none =>
    rw [hstored] at hallowed
    refine ⟨?_, hallowed⟩
    have hseed :
        effectiveVisibility none (library.serviceId ∈ g.sharing) g.settings = .PRIVATE := by
      unfold effectiveVisibility
      simp [not_mem_sharing hbacked]
    obtain hnone | hprivate := hvisibility
    · rw [hnone]
      exact hseed
    · rw [hprivate]
      rfl
  | some policy =>
    rw [hstored] at hallowed
    refine ⟨?_, hallowed⟩
    obtain ⟨hmem, hid⟩ := mem_of_findByLibrary hstored
    obtain hnone | hprivate := hvisibility
    · rw [hnone]
      exact (h policy hmem library hlibrary hid.symm hbacked).1
    · rw [hprivate]
      rfl

theorem Closed.of_subset {g' : Shares} (h : g.Closed) (hpolicies : g'.policies ⊆ g.policies)
    (hlibraries : ∀ policy ∈ g'.policies, ∀ library ∈ g'.libraries, library.id = policy.libraryId →
      g'.Backed library → ∃ before ∈ g.libraries, before.id = library.id ∧ g.Backed before) :
    g'.Closed := by
  intro policy hpolicy library hlibrary hid hbacked
  obtain ⟨before, hbefore, hsame, hbacked'⟩ :=
    hlibraries policy hpolicy library hlibrary hid hbacked
  exact h policy (hpolicies hpolicy) before hbefore (hsame.trans hid) hbacked'

/-- No edit opens a friend's library but a policy that shows it. -/
theorem Closed.edit {g' : Shares} {edit : Edit} (h : g.Closed) (hedit : g.Withholds edit)
    (hstep : g.edit edit = some g') : g'.Closed := by
  cases edit with
  | put libraryId patch =>
    change (g.put libraryId patch).toOption = some g' at hstep
    unfold put at hstep
    cases hfound : g.libraries.find? (·.id = libraryId) with
    | none => rw [hfound] at hstep; cases hstep
    | some library =>
      rw [hfound] at hstep
      cases hstep
      have hlibrary := List.mem_of_find?_eq_some hfound
      obtain rfl : library.id = libraryId := of_decide_eq_true (List.find?_some hfound :)
      intro policy hpolicy other hother hid hbacked
      unfold Backed at hbacked
      rw [save_services] at hbacked
      rw [save_libraries] at hother
      obtain rfl | hold := mem_save hpolicy
      · obtain rfl := List.inj_on_of_nodup_map g.libraryIds hother hlibrary hid
        exact h.patched hlibrary hbacked hedit
      · exact h policy hold other hother hid hbacked
  | remove libraryId =>
    cases hstep
    exact h.of_subset (fun _ => List.mem_of_mem_filter) fun _ _ library hlibrary _ hbacked =>
      ⟨library, hlibrary, rfl, hbacked⟩
  | configure settings =>
    cases hstep
    exact h
  | register service =>
    obtain ⟨⟨hservice, hlibraries⟩, hsome⟩ := Option.dite_none_right_eq_some.mp hstep
    cases hsome
    refine h.of_subset (List.Subset.refl _) fun _ _ library hlibrary _ hbacked => ?_
    -- nothing refers to the service yet
    obtain ⟨other, hother, hid, hpeer⟩ := hbacked
    obtain hold | hnew := List.mem_append.mp hother
    · exact ⟨library, hlibrary, rfl, other, hold, hid, hpeer⟩
    · obtain rfl := List.mem_singleton.mp hnew
      exact absurd (List.mem_map.mpr ⟨library, hlibrary, hid.symm⟩) hlibraries
  | update service =>
    obtain ⟨⟨hpeer, hrows⟩, hsome⟩ := Option.ite_none_right_eq_some.mp hstep
    cases hsome
    refine h.of_subset (List.Subset.refl _) fun _ _ library hlibrary _ hbacked => ?_
    obtain ⟨other, hother, hid, hbacking⟩ := hbacked
    obtain rfl | hold := mem_overwrite hother
    · exact absurd hpeer hbacking
    · exact ⟨library, hlibrary, rfl, other, hold, hid, hbacking⟩
  | unregister serviceId =>
    cases hstep
    refine h.of_subset (List.Subset.refl _) fun _ _ library hlibrary _ hbacked => ?_
    obtain ⟨other, hother, hid, hpeer⟩ := hbacked
    exact ⟨library, List.mem_of_mem_filter hlibrary, rfl, other, List.mem_of_mem_filter hother, hid,
      hpeer⟩
  | adopt library =>
    change (if hknown : _ then _ else _) = some g' at hstep
    split at hstep
    · next hknown =>
      obtain ⟨hservice, hsome⟩ := Option.ite_none_right_eq_some.mp hstep
      cases hsome
      refine h.of_subset (List.Subset.refl _) fun _ _ other hother _ hbacked => ?_
      obtain rfl | hold := mem_overwrite hother
      · -- the row it is written over is of the same service
        obtain ⟨before, hbefore, hid⟩ := List.mem_map.mp hknown
        refine ⟨before, hbefore, hid, ?_⟩
        unfold Backed
        rw [hservice before hbefore hid]
        exact hbacked
      · exact ⟨other, hold, rfl, hbacked⟩
    · obtain ⟨hfresh, hsome⟩ := Option.ite_none_right_eq_some.mp hstep
      cases hsome
      refine h.of_subset (List.Subset.refl _) fun policy hpolicy other hother hid hbacked => ?_
      obtain hold | hnew := List.mem_append.mp hother
      · exact ⟨other, hold, rfl, hbacked⟩
      · -- no policy names it yet
        obtain rfl := List.mem_singleton.mp hnew
        exact absurd (List.mem_map.mpr ⟨policy, hpolicy, hid.symm⟩) hfresh
  | abandon libraryId =>
    cases hstep
    exact h.of_subset (List.Subset.refl _) fun _ _ library hlibrary _ hbacked =>
      ⟨library, List.mem_of_mem_filter hlibrary, rfl, hbacked⟩

theorem closed_of_run {g₀ : Shares} {edits : List Edit} (h : Run edit Withholds g₀ edits g)
    (h₀ : g₀.policies = []) : g.Closed := by
  have hstart : g₀.Closed := by
    intro policy hpolicy
    rw [h₀] at hpolicy
    cases hpolicy
  exact h.invariant (fun _ _ _ hclosed hedit hstep => hclosed.edit hedit hstep) hstart

end Shares

end MediaCenterSync.Share

namespace MediaCenterSync.PeerExchange

open Peers Share LabelledRun

namespace Gateway

variable {w : World} {g : Gateway} {library : Library} {peer : Peer}

/-- The peer is not granted the library, and no item of it is listed, described or streamed. -/
structure KeptBack (w : World) (g : Gateway) (peer : Peer) (library : Library) : Prop where
  granted : library.id ∉ (g.shares.visiblePolicies peer).map (·.libraryId)
  listed : ∀ item ∈ g.items, item.libraryId = library.id → ∀ since page libraryId entries,
    g.catalogue w peer.id since page libraryId = .ok entries → ∀ e ∈ entries, e.externalId ≠ item.id
  described : ∀ item ∈ g.items, item.libraryId = library.id →
    ∀ e, g.describe peer.id item.id ≠ .ok e
  streamed : ∀ item ∈ g.items, item.libraryId = library.id → ∀ range bytes,
    g.content w peer.id item.id range ≠ .ok bytes

theorem visible_eq_error (hpeer : g.requirePeer peer.id = .ok peer)
    (hhidden : library.id ∉ (g.shares.visiblePolicies peer).map (·.libraryId)) {item : MediaItem}
    (hitem : item ∈ g.items) (hlibrary : item.libraryId = library.id) :
    g.visible peer.id item.id = .error (.key .MEDIA_NOT_FOUND) := by
  rw [visible_eq, hpeer]
  have hnone : (g.itemsOf (g.shares.visiblePolicies peer)).find? (·.id = item.id) = none := by
    refine List.find?_eq_none.mpr fun other hother hid => hhidden ?_
    obtain ⟨hmem, hgranted⟩ := List.mem_filter.mp hother
    obtain rfl := List.inj_on_of_nodup_map g.itemIds hmem hitem (of_decide_eq_true hid)
    exact hlibrary ▸ of_decide_eq_true hgranted
  dsimp only [bind, Except.bind]
  rw [hnone]

theorem mem_catalogue {since libraryId : Option String} {page : ℚ} {entries : List CatalogueEntry}
    (hpeer : g.requirePeer peer.id = .ok peer)
    (h : g.catalogue w peer.id since page libraryId = .ok entries) {e : CatalogueEntry}
    (he : e ∈ entries) : ∃ item ∈ g.items, e.externalId = item.id ∧
      item.libraryId ∈ (g.shares.visiblePolicies peer).map (·.libraryId) := by
  unfold catalogue at h
  rw [hpeer] at h
  cases h
  obtain ⟨item, hitem, rfl⟩ := List.mem_map.mp he
  have hpage := List.mem_of_mem_drop (List.mem_of_mem_take (List.mem_of_mem_filter hitem))
  obtain ⟨hmem, hwanted⟩ := List.mem_filter.mp ((List.mem_insertionSort _).mp hpage)
  obtain ⟨policy, hpolicy, hid⟩ := List.mem_map.mp (of_decide_eq_true hwanted)
  exact ⟨item, hmem, rfl, List.mem_map.mpr ⟨policy, List.mem_of_mem_filter hpolicy, hid⟩⟩

/-- A friend's library is kept back from a peer exactly where the peer may read nothing, or no
stored policy shows it the library. -/
theorem keptBack_iff (hpeer : g.peers.find? (·.id = peer.id) = some peer)
    (hlibrary : library ∈ g.shares.libraries) (hbacked : g.shares.Backed library) :
    KeptBack w g peer library ↔ g.shares.Withheld peer library := by
  have hrequire := requirePeer_eq_ok.mpr hpeer
  have hiff : library.id ∈ (g.shares.visiblePolicies peer).map (·.libraryId) ↔
      ¬ g.shares.Withheld peer library := Shares.visible_iff_of_backed hlibrary hbacked
  constructor
  · intro h
    by_contra hshown
    exact h.granted (hiff.mpr hshown)
  · intro hwithheld
    have hhidden : library.id ∉ (g.shares.visiblePolicies peer).map (·.libraryId) :=
      fun hmem => hiff.mp hmem hwithheld
    refine ⟨hhidden, ?_, ?_, ?_⟩
    · intro item hitem hof since page libraryId entries hentries e he hid
      obtain ⟨other, hother, hother', hgranted⟩ := mem_catalogue hrequire hentries he
      obtain rfl := List.inj_on_of_nodup_map g.itemIds hother hitem (hother'.symm.trans hid)
      exact hhidden (hof ▸ hgranted)
    · intro item hitem hof e he
      unfold describe at he
      rw [visible_eq_error hrequire hhidden hitem hof] at he
      cases he
    · intro item hitem hof range bytes hbytes
      unfold content at hbytes
      rw [visible_eq_error hrequire hhidden hitem hof] at hbytes
      cases hbytes

/-- **A friend's library is never shared onward** as long as every policy that is written for one
leaves it private and allows nobody it does not deny: whatever else is edited, and whoever asks. -/
theorem keptBack_of_run {g₀ : Shares} {edits : List Edit}
    (hrun : Run Shares.edit Shares.Withholds g₀ edits g.shares) (h₀ : g₀.policies = [])
    (hpeer : g.peers.find? (·.id = peer.id) = some peer) (hlibrary : library ∈ g.shares.libraries)
    (hbacked : g.shares.Backed library) : KeptBack w g peer library :=
  (keptBack_iff hpeer hlibrary hbacked).mpr
    ((Shares.closed_of_run hrun h₀).withheld hlibrary hbacked)

end Gateway

/-! ### A library of a friend's -/

def theirs : Library :=
  ⟨"theirs", "their-service", "1", [], none, "Films", none, .MOVIES, 1⟩

def theirShares : Shares :=
  { libraries := [theirs]
    services := [⟨"their-service", "peer", "peer://friend", none, none, none, some "friend", true⟩]
    policies := []
    settings := ⟨.FRIENDS_OF_FRIENDS, 3, false, false⟩
    libraryIds := by decide
    serviceIds := by decide
    policyIds := by decide }

def onward (patch : UpdateSharePolicyRequest) : Gateway :=
  { peers := [friend]
    items := []
    shares := theirShares.save (theirShares.patched theirs patch)
    itemIds := by decide }

/-- A cap on their films does not share them. -/
theorem keptBack_of_run_rateLimit :
    Gateway.KeptBack quiet (onward { rateLimit := some 1000 }) friend theirs := by
  have hrun : Run Shares.edit Shares.Withholds theirShares
      [.put "theirs" { rateLimit := some 1000 }]
      (onward { rateLimit := some 1000 }).shares :=
    .cons (fun _ _ _ _ => ⟨.inl rfl, List.Subset.refl _⟩) rfl (.nil _)
  exact Gateway.keptBack_of_run hrun rfl rfl (by decide) ⟨_, List.mem_cons_self, rfl, by decide⟩

/-- A visibility given to their films does. -/
theorem not_keptBack_of_run : ¬ ∀ (w : World) (g : Gateway) (peer : Peer) (library : Library)
    (g₀ : Shares) (edits : List Edit), Run Shares.edit Free g₀ edits g.shares → g₀.policies = [] →
    g.peers.find? (·.id = peer.id) = some peer → library ∈ g.shares.libraries →
    g.shares.Backed library → Gateway.KeptBack w g peer library := by
  intro h
  have hkept := h quiet (onward { visibility := some .FRIENDS }) friend theirs theirShares
    [.put "theirs" { visibility := some .FRIENDS }] (.cons trivial rfl (.nil _)) rfl rfl (by decide)
    ⟨_, List.mem_cons_self, rfl, by decide⟩
  exact hkept.granted (by decide +kernel)

end MediaCenterSync.PeerExchange
