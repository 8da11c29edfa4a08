import MediaCenterSync.PeerExchange.Manager

/-!
# What is hidden cannot be felt

Every answer to a peer is made from the items of the libraries the peer is granted and from nothing
else of the items: the catalogue and the holders filter by these libraries (`itemsOf`), and the
lookup of one item fails in the same way for a hidden item as for a missing one (`visible_eq`).  So
two gateways that agree on the granted items answer alike (`call_congr`, `stream_congr`).
-/

namespace MediaCenterSync.PeerExchange

open Peers Share

/-- Where an identifier names one row, looking it up among some of the rows is looking it up and
asking whether it is one of them. -/
theorem find?_filter_of_nodup {α : Type*} {key : α → String} {rows : List α}
    (h : (rows.map key).Nodup) (p : α → Bool) (id : String) :
    (rows.filter p).find? (key · = id) = (rows.find? (key · = id)).filter p := by
  induction rows with
  | nil => rfl
  | cons row rows ih =>
    obtain ⟨hrow, hrows⟩ := List.nodup_cons.mp h
    by_cases hid : key row = id
    · cases hp : p row with
      | true => simp [Option.filter, hp, hid]
      | false =>
        have hnone : rows.find? (key · = id) = none := by
          refine List.find?_eq_none.mpr fun other hother hsame => hrow ?_
          rw [hid, ← of_decide_eq_true hsame]
          exact List.mem_map_of_mem hother
        rw [List.filter_cons_of_neg (by simp [hp]), ih hrows, hnone]
        simp [Option.filter, hp, hid]
    · cases hp : p row with
      | true => simp [hp, hid, ih hrows]
      | false => simp [hp, hid, ih hrows]

namespace Gateway

def granted (g : Gateway) (peerId : String) : List MediaItem :=
  match g.peers.find? (·.id = peerId) with
  | none => []
  | some peer => g.itemsOf (g.shares.visiblePolicies peer)

/-- The two agree on everything except the items the peer is not granted. -/
structure AgreeFor (peerId : String) (g g' : Gateway) : Prop where
  peers : g.peers = g'.peers
  shares : g.shares = g'.shares
  items : g.granted peerId = g'.granted peerId

variable {w : World} {g g' : Gateway} {peerId : String}

theorem requirePeer_eq_ok {peer : Peer} :
    g.requirePeer peerId = .ok peer ↔ g.peers.find? (·.id = peerId) = some peer := by
  unfold requirePeer
  cases g.peers.find? (·.id = peerId) with
  | none => simp
  | some found => simp

/-- An item that may be seen is one of the granted; a hidden one is as good as missing. -/
theorem visible_eq (itemId : String) : g.visible peerId itemId = (do
    let peer ← g.requirePeer peerId
    let policies := g.shares.visiblePolicies peer
    match (g.itemsOf policies).find? (·.id = itemId) with
    | none => .error (.key .MEDIA_NOT_FOUND)
    | some item =>
      match policies.find? (·.libraryId = item.libraryId) with
      | none => .error (.key .MEDIA_NOT_FOUND)
      | some policy => .ok (item, policy)) := by
  unfold visible
  cases hpeer : g.requirePeer peerId with
  | error failure => rfl
  | ok peer =>
    change (match g.items.find? (·.id = itemId) with
      | none => _
      | some item => _) = _
    dsimp only [bind, Except.bind]
    unfold itemsOf
    rw [find?_filter_of_nodup g.itemIds]
    cases g.items.find? (·.id = itemId) with
    | none => rfl
    | some item =>
      by_cases hgranted : item.libraryId ∈ (g.shares.visiblePolicies peer).map (·.libraryId)
      · have hsome : (some item).filter (fun item => decide (item.libraryId ∈
            (g.shares.visiblePolicies peer).map (·.libraryId))) = some item :=
          Option.filter_some_pos (decide_eq_true hgranted)
        exact hsome.symm ▸ rfl
      · rw [Option.filter_some, if_neg (by simpa using hgranted)]
        have hnone :
            (g.shares.visiblePolicies peer).find? (·.libraryId = item.libraryId) = none := by
          refine List.find?_eq_none.mpr fun policy hpolicy hsame => hgranted ?_
          rw [← of_decide_eq_true hsame]
          exact List.mem_map_of_mem hpolicy
        dsimp only
        rw [hnone]

theorem granted_of_requirePeer {peer : Peer} (h : g.requirePeer peerId = .ok peer) :
    g.granted peerId = g.itemsOf (g.shares.visiblePolicies peer) := by
  unfold granted
  rw [requirePeer_eq_ok.mp h]

namespace AgreeFor

theorem requirePeer (h : AgreeFor peerId g g') : g'.requirePeer peerId = g.requirePeer peerId := by
  unfold Gateway.requirePeer
  rw [h.peers]

theorem itemsOf (h : AgreeFor peerId g g') {peer : Peer} (hpeer : g.requirePeer peerId = .ok peer) :
    g'.itemsOf (g'.shares.visiblePolicies peer) = g.itemsOf (g.shares.visiblePolicies peer) := by
  rw [← granted_of_requirePeer hpeer, ← granted_of_requirePeer (h.requirePeer.trans hpeer), h.items]

theorem visible (h : AgreeFor peerId g g') (itemId : String) :
    g'.visible peerId itemId = g.visible peerId itemId := by
  rw [visible_eq, visible_eq, h.requirePeer]
  cases hpeer : g.requirePeer peerId with
  | error failure => rfl
  | ok peer =>
    dsimp only [bind, Except.bind]
    rw [h.itemsOf hpeer, h.shares]

theorem holders (h : AgreeFor peerId g g') (contentId : String) (budget : ℚ) :
    g'.holders w peerId contentId budget = g.holders w peerId contentId budget := by
  have hannounce :
      g'.announce w peerId contentId budget = g.announce w peerId contentId budget := by
    unfold announce friendsFor findLinked reach
    rw [h.requirePeer, h.shares, h.peers]
  unfold Gateway.holders
  rw [h.requirePeer, hannounce]
  cases hpeer : g.requirePeer peerId with
  | error failure => rfl
  | ok peer =>
    dsimp only [bind, Except.bind]
    rw [h.itemsOf hpeer]

theorem catalogue (h : AgreeFor peerId g g') (since : Option String) (page : ℚ)
    (libraryId : Option String) :
    g'.catalogue w peerId since page libraryId = g.catalogue w peerId since page libraryId := by
  unfold Gateway.catalogue
  rw [h.requirePeer]
  cases hpeer : g.requirePeer peerId with
  | error failure => rfl
  | ok peer =>
    -- what is asked for is some of what is granted
    have hwanted : ∀ (g : Gateway) (wanted : CataloguePolicy → Bool),
        g.itemsOf ((g.shares.visiblePolicies peer).filter wanted) =
          (g.itemsOf (g.shares.visiblePolicies peer)).filter fun item =>
            item.libraryId ∈ ((g.shares.visiblePolicies peer).filter wanted).map (·.libraryId) := by
      intro g wanted
      unfold Gateway.itemsOf
      rw [List.filter_filter]
      refine List.filter_congr fun item _ => ?_
      rw [Bool.eq_iff_iff]
      simp only [List.mem_map, List.mem_filter, decide_eq_true_eq, Bool.and_eq_true]
      tauto
    dsimp only [bind, Except.bind]
    unfold pageOf
    rw [hwanted, hwanted, h.itemsOf hpeer, h.shares]

theorem findService (h : AgreeFor peerId g g') (id : String) :
    g'.findService id = g.findService id := by
  unfold Gateway.findService
  rw [h.shares]

theorem introduce (h : AgreeFor peerId g g') (holderId fingerprint : Option String) :
    g'.introduce w peerId holderId fingerprint = g.introduce w peerId holderId fingerprint := by
  unfold Gateway.introduce findHolder
  rw [h.requirePeer, h.peers, h.shares]

end AgreeFor

/-- **What is hidden cannot be felt**: two gateways that differ only in items the peer is not
granted give that peer the same answers, to every method with any parameters. -/
theorem answers_congr (h : AgreeFor peerId g g') (method : String) (params : Params) :
    g'.call w peerId method params = g.call w peerId method params ∧
      g'.stream w peerId method params = g.stream w peerId method params := by
  constructor
  · unfold call
    split
    · rw [h.catalogue]
    · unfold Gateway.libraries
      rw [h.requirePeer, h.shares]
    · rw [h.holders]
    · rw [h.introduce]
    · unfold describe
      rw [h.visible]
    · unfold revalidate
      simp only [h.visible, h.findService]
    · rfl
    · rfl
  · unfold stream content
    simp only [h.visible, h.findService]

end Gateway

/-! ### A gateway with one shared library and one that is private -/

def friend : Peer := { Peer.create "friend" "Friend" "f1" with status := .LINKED }

def film (id libraryId : String) : MediaItem :=
  { id := id, libraryId := libraryId, serviceId := "jellyfin", externalId := "ext-" ++ id
    kind := .MOVIE, title := "Sintel", year := some 2010, seasonNumber := none,
    episodeNumber := none
    episodeNumberEnd := none, parentId := none, externalIds := [], file := none, quality := none
    updatedAt := 0 }

/-- Two libraries of a server that is shared with friends; the second is kept private. -/
def homeShares : Shares :=
  { libraries := [⟨"films", "jellyfin", "1", [], none, "Films", none, .MOVIES, 1⟩,
      ⟨"home", "jellyfin", "2", [], none, "Home", none, .OTHER, 1⟩]
    services := [⟨"jellyfin", "jellyfin", "http://jellyfin", none, none, none, none, true⟩]
    policies := [⟨"home", .PRIVATE, [], [], 0⟩]
    settings := ⟨.FRIENDS, 3, false, false⟩
    libraryIds := by decide
    serviceIds := by decide
    policyIds := by decide }

def home (items : List MediaItem) (h : (items.map (·.id)).Nodup) : Gateway :=
  { peers := [friend], items := items, shares := homeShares, itemIds := h }

/-- Nobody is linked and no media server answers. -/
def quiet : World :=
  { parseDate := fun _ => none, isLinked := fun _ => false, askHolders := fun _ _ _ => none
    getItem := fun _ _ => none, openStream := fun _ _ _ _ => .error (.handler "offline")
    issue := fun _ _ _ => ("", 0) }

/-- The film of the private library, asked for by its identifier. -/
theorem answers_congr_privateFilm :
    (home [film "a" "films", film "b" "home"] (by decide)).call quiet "friend" "media.describe"
        [("externalId", .string "b")] =
      (home [film "a" "films"] (by decide)).call quiet "friend" "media.describe"
        [("externalId", .string "b")] ∧
    (home [film "a" "films", film "b" "home"] (by decide)).stream quiet "friend" "media.describe"
        [("externalId", .string "b")] =
      (home [film "a" "films"] (by decide)).stream quiet "friend" "media.describe"
        [("externalId", .string "b")] :=
  Gateway.answers_congr ⟨rfl, rfl, by decide +kernel⟩ _ _

end MediaCenterSync.PeerExchange
