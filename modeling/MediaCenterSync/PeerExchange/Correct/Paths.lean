import MediaCenterSync.PeerExchange.Correct.Hidden

/-!
# What a peer learns of paths

`Gateway.masked` is a gateway with its paths and the identifiers of its media servers taken out.
Every method but `media.revalidate` answers the same from the masked gateway as from the gateway
itself (`call_masked`), so nothing of what is masked is in its answers.  `media.revalidate` passes
on the file a media server has, path included: two gateways that differ in what is masked answer
alike exactly where it reaches no file, or two of the same path (`call_eq_iff`).
-/

namespace MediaCenterSync.PeerExchange

open Matching (MediaFileInfo)
open Peers Share

/-! ### What is masked -/

def maskedFile (file : MediaFileInfo) : MediaFileInfo := { file with path := "" }

/-- `provider` is the identifier the media server uses internally. -/
def MediaItem.masked (item : MediaItem) : MediaItem :=
  { item with
    externalId := ""
    externalIds := item.externalIds.filter (·.1 ≠ "provider")
    file := item.file.map maskedFile }

def maskedLibrary (library : Library) : Library :=
  { library with
    externalId := ""
    paths := []
    localPath := none }

def maskedShares (shares : Shares) : Shares :=
  { shares with
    libraries := shares.libraries.map maskedLibrary
    libraryIds := by
      rw [List.map_map]
      exact shares.libraryIds }

def Gateway.masked (g : Gateway) : Gateway :=
  { peers := g.peers
    items := g.items.map MediaItem.masked
    shares := maskedShares g.shares
    itemIds := by
      rw [List.map_map]
      exact g.itemIds }

/-- What lies outside two gateways is the same, up to the paths of the files the media servers
have. -/
structure SameBehind (w : World) (g : Gateway) (w' : World) (g' : Gateway) : Prop where
  parseDate : w.parseDate = w'.parseDate
  isLinked : w.isLinked = w'.isLinked
  askHolders : w.askHolders = w'.askHolders
  issue : w.issue = w'.issue
  getItem : ∀ item ∈ g.items, ∀ item' ∈ g'.items, item.id = item'.id → ∀ service,
    (w.getItem service item.externalId).map (Option.map maskedFile) =
      (w'.getItem service item'.externalId).map (Option.map maskedFile)

/-! ### What a masked gateway answers -/

theorem entry_masked (item : MediaItem) : entry item.masked = entry item := by
  have hids : (entry item.masked).externalIds = (entry item).externalIds := by
    unfold entry MediaItem.masked
    dsimp only
    rw [List.filterMap_filter]
    refine List.filterMap_congr fun pair _ => ?_
    obtain ⟨key, value⟩ := pair
    by_cases hkey : key = "provider"
    · cases value <;> simp [hkey]
    · simp [hkey]
  have hcontent : (entry item.masked).contentId = (entry item).contentId := by
    unfold entry MediaItem.masked
    cases item.file <;> rfl
  have hsize : (entry item.masked).size = (entry item).size := by
    unfold entry MediaItem.masked
    cases item.file <;> rfl
  calc entry item.masked
    _ = { entry item with
          externalIds := (entry item.masked).externalIds
          contentId := (entry item.masked).contentId
          size := (entry item.masked).size } := rfl
    _ = entry item := by rw [hids, hcontent, hsize]

theorem visiblePolicies_masked (shares : Shares) (peer : Peer) :
    (maskedShares shares).visiblePolicies peer = shares.visiblePolicies peer := by
  unfold Shares.visiblePolicies maskedShares
  dsimp only
  rw [List.map_map]
  rfl

namespace Gateway

variable {w w' : World} {g g' : Gateway} (peerId : String)

theorem itemsOf_masked (policies : List CataloguePolicy) :
    g.masked.itemsOf policies = (g.itemsOf policies).map MediaItem.masked := by
  unfold itemsOf masked
  rw [List.filter_map]
  rfl

theorem pageOf_masked (policies : List CataloguePolicy) (page : ℕ) :
    g.masked.pageOf policies page = (g.pageOf policies page).map MediaItem.masked := by
  unfold pageOf
  -- neither the stamp nor the identifier is masked
  have hsort : ∀ items : List MediaItem,
      (items.insertionSort fun left right =>
        toLex (left.updatedAt, left.id) ≤ toLex (right.updatedAt, right.id)).map MediaItem.masked =
      (items.map MediaItem.masked).insertionSort fun left right =>
        toLex (left.updatedAt, left.id) ≤ toLex (right.updatedAt, right.id) :=
    fun items => List.map_insertionSort _ _ _ _ fun _ _ _ _ => Iff.rfl
  rw [itemsOf_masked, ← hsort, List.map_take, List.map_drop]

theorem catalogue_masked (since : Option String) (page : ℚ) (libraryId : Option String) :
    g.masked.catalogue w peerId since page libraryId =
      g.catalogue w peerId since page libraryId := by
  unfold catalogue
  change (g.requirePeer peerId >>= _) = _
  cases g.requirePeer peerId with
  | error failure => rfl
  | ok peer =>
    dsimp only [bind, Except.bind]
    rw [show g.masked.shares = maskedShares g.shares from rfl, visiblePolicies_masked,
      pageOf_masked, List.filter_map, List.map_map]
    congr 1
    exact List.map_congr_left fun item _ => entry_masked item

theorem libraries_masked : g.masked.libraries peerId = g.libraries peerId := by
  unfold libraries
  change (g.requirePeer peerId >>= _) = _
  cases g.requirePeer peerId with
  | error failure => rfl
  | ok peer =>
    dsimp only [bind, Except.bind]
    rw [show g.masked.shares = maskedShares g.shares from rfl, visiblePolicies_masked]
    unfold maskedShares
    rw [List.filter_map, List.map_map]
    rfl

theorem announce_masked (contentId : String) (budget : ℚ) :
    g.masked.announce w peerId contentId budget = g.announce w peerId contentId budget := by
  unfold announce
  change (g.requirePeer peerId >>= _) = _
  cases g.requirePeer peerId with
  | error failure => rfl
  | ok peer =>
    dsimp only [bind, Except.bind]
    rw [show g.masked.shares = maskedShares g.shares from rfl, visiblePolicies_masked]
    rfl

theorem holders_masked (contentId : String) (budget : ℚ) :
    g.masked.holders w peerId contentId budget = g.holders w peerId contentId budget := by
  unfold holders
  rw [announce_masked]
  by_cases hcontent : contentId = ""
  · rw [if_pos hcontent, if_pos hcontent]
  · rw [if_neg hcontent, if_neg hcontent]
    change (g.requirePeer peerId >>= _) = _
    cases g.requirePeer peerId with
    | error failure => rfl
    | ok peer =>
      dsimp only [bind, Except.bind]
      cases g.announce w peerId contentId budget with
      | error failure => rfl
      | ok answer =>
        dsimp only
        rw [show g.masked.shares = maskedShares g.shares from rfl, visiblePolicies_masked,
          itemsOf_masked, List.filterMap_map]
        congr 2
        refine List.filterMap_congr fun item _ => ?_
        rw [Function.comp_apply]
        unfold MediaItem.masked
        cases item.file <;> rfl

theorem visible_masked (itemId : String) :
    g.masked.visible peerId itemId =
      (g.visible peerId itemId).map fun found => (found.1.masked, found.2) := by
  unfold visible
  change (g.requirePeer peerId >>= _) = _
  cases g.requirePeer peerId with
  | error failure => rfl
  | ok peer =>
    dsimp only [bind, Except.bind]
    unfold masked
    dsimp only
    have hid : ((fun item : MediaItem => decide (item.id = itemId)) ∘ MediaItem.masked) =
        fun item => decide (item.id = itemId) := rfl
    rw [List.find?_map, visiblePolicies_masked, hid]
    cases g.items.find? (·.id = itemId) with
    | none => rfl
    | some item =>
      have hlibrary : (MediaItem.masked item).libraryId = item.libraryId := rfl
      dsimp only [Option.map_some]
      rw [hlibrary]
      cases (g.shares.visiblePolicies peer).find? (·.libraryId = item.libraryId) <;> rfl

theorem describe_masked (itemId : String) :
    g.masked.describe peerId itemId = g.describe peerId itemId := by
  unfold describe
  rw [visible_masked]
  cases g.visible peerId itemId with
  | error failure => rfl
  | ok found => exact congrArg Except.ok (entry_masked found.1)

/-- **No method but `media.revalidate` reads what is masked.** -/
theorem call_masked {method : String} (h : method ≠ "media.revalidate") (params : Params) :
    g.masked.call w peerId method params = g.call w peerId method params := by
  unfold call
  split
  · rw [catalogue_masked]
  · rw [libraries_masked]
  · rw [holders_masked]
  · rfl
  · rw [describe_masked]
  · exact absurd rfl h
  · rfl
  · rfl

theorem call_congr_world {home : Gateway} (hw : SameBehind w g w' g') {method : String}
    (h : method ≠ "media.revalidate") (params : Params) :
    home.call w peerId method params = home.call w' peerId method params := by
  unfold call
  split
  · unfold catalogue since
    rw [hw.parseDate]
  · rfl
  · unfold holders announce
    rw [hw.isLinked, hw.askHolders]
  · unfold introduce
    rw [hw.issue]
  · rfl
  · exact absurd rfl h
  · rfl
  · rfl

/-! ### What `media.revalidate` passes on -/

/-- The media server's file for the item, where the caller may see the item and the server has
one. -/
def Reaches (w : World) (g : Gateway) (peerId itemId : String) (file : MediaFileInfo) : Prop :=
  ∃ found service, g.visible peerId itemId = .ok found ∧
    g.findService found.1.serviceId = .ok service ∧
    w.getItem service found.1.externalId = some (some file)

theorem mem_of_visible {peerId itemId : String} {found : MediaItem × CataloguePolicy}
    (h : g.visible peerId itemId = .ok found) : found.1 ∈ g.items := by
  unfold visible at h
  cases hpeer : g.requirePeer peerId with
  | error failure => rw [hpeer] at h; cases h
  | ok peer =>
    rw [hpeer] at h
    dsimp only [bind, Except.bind] at h
    split at h
    · cases h
    · next item hitem =>
      split at h
      · cases h
      · cases h
        exact List.mem_of_find?_eq_some hitem

theorem maskedFile_inj {file file' : MediaFileInfo} (h : maskedFile file = maskedFile file')
    (hpath : file.path = file'.path) : file = file' := by
  calc file
    _ = { maskedFile file with path := file.path } := rfl
    _ = { maskedFile file' with path := file'.path } := by rw [h, hpath]
    _ = file' := rfl

/-- The answers are equal exactly where the files are not reached in both, or have one path. -/
theorem revalidate_eq_iff (hg : g.masked = g'.masked) (hw : SameBehind w g w' g')
    (itemId : String) :
    g.revalidate w peerId itemId = g'.revalidate w' peerId itemId ↔
      ∀ file file', Reaches w g peerId itemId file → Reaches w' g' peerId itemId file' →
        file.path = file'.path := by
  have hvisible := (visible_masked (g := g) peerId itemId).symm.trans
    ((congrArg (·.visible peerId itemId) hg).trans (visible_masked peerId itemId))
  have hservices : g.shares.services = g'.shares.services := congrArg (·.shares.services) hg
  have hfind : ∀ id, g.findService id = g'.findService id := by
    intro id
    unfold findService
    rw [hservices]
  constructor
  · rintro h file file' ⟨found, service, hfound, hservice, hfile⟩
      ⟨found', service', hfound', hservice', hfile'⟩
    unfold revalidate at h
    rw [hfound, hfound'] at h
    dsimp only [bind, Except.bind] at h
    rw [hservice, hservice'] at h
    dsimp only at h
    rw [hfile, hfile'] at h
    injection h with h
    injection h with _ h
    rw [Option.some.inj h]
  · intro h
    unfold revalidate
    cases hfound : g.visible peerId itemId with
    | error failure =>
      rw [hfound] at hvisible
      cases hfound' : g'.visible peerId itemId with
      | error failure' =>
        rw [hfound'] at hvisible
        exact congrArg Except.error (Except.error.inj hvisible)
      | ok found' => rw [hfound'] at hvisible; cases hvisible
    | ok found =>
      rw [hfound] at hvisible
      cases hfound' : g'.visible peerId itemId with
      | error failure' => rw [hfound'] at hvisible; cases hvisible
      | ok found' =>
        rw [hfound'] at hvisible
        have hitem : found.1.masked = found'.1.masked := congrArg Prod.fst (Except.ok.inj hvisible)
        have hid : found.1.id = found'.1.id := congrArg (·.id) hitem
        have hserviceId : found.1.serviceId = found'.1.serviceId := congrArg (·.serviceId) hitem
        dsimp only [bind, Except.bind]
        rw [← hserviceId, ← hfind]
        cases hservice : g.findService found.1.serviceId with
        | error failure => rfl
        | ok service =>
          dsimp only
          -- the two media servers answer the same, up to the path
          have hanswer :=
            hw.getItem _ (mem_of_visible hfound) _ (mem_of_visible hfound') hid service
          cases hfile : w.getItem service found.1.externalId with
          | none =>
            cases hfile' : w'.getItem service found'.1.externalId with
            | none => rfl
            | some answer => rw [hfile, hfile'] at hanswer; cases hanswer
          | some answer =>
            cases hfile' : w'.getItem service found'.1.externalId with
            | none => rw [hfile, hfile'] at hanswer; cases hanswer
            | some answer' =>
              rw [hfile, hfile'] at hanswer
              have hmasked : answer.map maskedFile = answer'.map maskedFile :=
                Option.some.inj hanswer
              have hsame : answer = answer' := by
                cases answer with
                | none =>
                  cases answer' with
                  | none => rfl
                  | some file' => cases hmasked
                | some file =>
                  cases answer' with
                  | none => cases hmasked
                  | some file' =>
                    have hpath := h file file' ⟨found, service, hfound, hservice, hfile⟩
                      ⟨found', service, hfound', by rw [← hserviceId, ← hfind, hservice], hfile'⟩
                    rw [maskedFile_inj (Option.some.inj hmasked) hpath]
              dsimp only
              rw [hid, hsame]

/-- **A peer never learns a path** of two gateways that differ in nothing but what is masked, except
through `media.revalidate`: the answers are the same exactly where the method is another, or does
not reach a file in both, or the two files have the same path. -/
theorem call_eq_iff (hg : g.masked = g'.masked) (hw : SameBehind w g w' g') (method : String)
    (params : Params) :
    g.call w peerId method params = g'.call w' peerId method params ↔
      (method = "media.revalidate" → ∀ file file', Reaches w g peerId params.itemId file →
        Reaches w' g' peerId params.itemId file' → file.path = file'.path) := by
  by_cases hmethod : method = "media.revalidate"
  · subst hmethod
    simp only [true_implies]
    rw [← revalidate_eq_iff peerId hg hw]
    change (_ <$> g.revalidate w peerId params.itemId) =
      (_ <$> g'.revalidate w' peerId params.itemId) ↔ _
    constructor
    · intro h
      cases hleft : g.revalidate w peerId params.itemId with
      | error failure =>
        cases hright : g'.revalidate w' peerId params.itemId with
        | error failure' => rw [hleft, hright] at h; exact congrArg _ (Except.error.inj h)
        | ok answer' => rw [hleft, hright] at h; cases h
      | ok answer =>
        cases hright : g'.revalidate w' peerId params.itemId with
        | error failure' => rw [hleft, hright] at h; cases h
        | ok answer' =>
          rw [hleft, hright] at h
          obtain ⟨hid, hfile⟩ := Answer.revalidation.inj (Except.ok.inj h)
          rw [Prod.ext hid hfile]
    · intro h
      rw [h]
  · refine iff_of_true ?_ fun h => absurd h hmethod
    calc g.call w peerId method params
      _ = g.masked.call w peerId method params := (call_masked peerId hmethod params).symm
      _ = g'.masked.call w peerId method params := by rw [hg]
      _ = g'.call w peerId method params := call_masked peerId hmethod params
      _ = g'.call w' peerId method params := call_congr_world peerId hw hmethod params

end Gateway

/-! ### The same film on two disks -/

def fileAt (path : String) : MediaFileInfo :=
  { size := some 700, videoCodec := none, width := none, height := none, bitrate := none
    path := path, durationMs := none, contentId := none, checksum := none }

def homeAt (path : String) : Gateway :=
  home [{ film "a" "films" with file := some (fileAt path) }] (List.nodup_singleton _)

def serving (path : String) : World :=
  { quiet with getItem := fun _ _ => some (some (fileAt path)) }

theorem homeAt_masked (path path' : String) : (homeAt path).masked = (homeAt path').masked := rfl

theorem sameBehind_serving (path path' : String) :
    SameBehind (serving path) (homeAt path) (serving path') (homeAt path') :=
  ⟨rfl, rfl, rfl, rfl, fun _ _ _ _ _ _ => rfl⟩

/-- Described, the film is the same on either disk. -/
theorem call_eq_iff_describe :
    (homeAt "/srv/films/a.mkv").call (serving "/srv/films/a.mkv") "friend" "media.describe"
        [("externalId", .string "a")] =
      (homeAt "/home/ann/a.mkv").call (serving "/home/ann/a.mkv") "friend" "media.describe"
        [("externalId", .string "a")] :=
  (Gateway.call_eq_iff "friend" (homeAt_masked _ _) (sameBehind_serving _ _) "media.describe"
    [("externalId", .string "a")]).mpr fun h => absurd h (by decide)

/-- Revalidated, it is not: the answer carries the path. -/
theorem not_call_eq : ¬ ∀ (g g' : Gateway) (w w' : World), g.masked = g'.masked →
    SameBehind w g w' g' → ∀ peerId method params,
      g.call w peerId method params = g'.call w' peerId method params := by
  intro h
  have hsame := h _ _ _ _ (homeAt_masked "/srv/films/a.mkv" "/home/ann/a.mkv")
    (sameBehind_serving _ _) "friend" "media.revalidate" [("externalId", .string "a")]
  exact absurd hsame (by decide +kernel)

end MediaCenterSync.PeerExchange
