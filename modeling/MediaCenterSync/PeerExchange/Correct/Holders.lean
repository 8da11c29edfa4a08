import MediaCenterSync.Lib.Best
import MediaCenterSync.PeerExchange.Catalogue

/-!
# A friend's own limit

A friend is asked within their own limit, and what they answer is let in within the ceiling.  The
holders found are bounded by the limits of the friends they came through, once each and with nothing
left out, exactly when the two agree on what was answered (`boundedByFriends_iff`).
-/

namespace MediaCenterSync.PeerExchange

open Peers

/-! ### Answers -/

/-- A copy, wherever it was heard of. -/
def ContentHolder.source (holder : ContentHolder) : String × String × String :=
  (holder.peerId, holder.serviceId, holder.externalId)

/-- What `findHolders` keeps one of. -/
def ContentHolder.key (holder : ContentHolder) : String :=
  holder.peerId ++ ":" ++ holder.serviceId ++ ":" ++ holder.externalId

def ContentHolder.through (holder : ContentHolder) : String :=
  holder.viaPeerId.getD holder.peerId

section

variable (isLinked : String → Bool) (ask : String → ℤ → Option (List HolderAnswer))
  (peers : List CataloguePeer) (maxDepth : ℤ)

def answersOf : List (CataloguePeer × ContentHolder) :=
  (searchRequests isLinked maxDepth peers).flatMap fun (peer, budget) =>
    ((ask peer.id budget).getD []).map fun answer => (peer, attributed peer answer)

/-- An answer within the limit of the friend it came through. -/
def Admissible (f : CataloguePeer) (holder : ContentHolder) : Prop :=
  (f, holder) ∈ answersOf isLinked ask peers maxDepth ∧ holder.depth ≤ limitFor maxDepth f

def letIn : List (CataloguePeer × ContentHolder) :=
  (answersOf isLinked ask peers maxDepth).filter (·.2.depth ≤ maxDepth)

/-- **A friend's own limit bounds what comes through that friend.** -/
structure BoundedByFriends (holders : List ContentHolder) : Prop where
  /-- Each came through a friend, and is within that friend's limit. -/
  admissible : ∀ holder ∈ holders, ∃ f, Admissible isLinked ask peers maxDepth f holder
  within : ∀ holder ∈ holders, ∀ f ∈ peers, holder.through = f.id →
    holder.depth ≤ limitFor maxDepth f
  direct : ∀ holder ∈ holders, holder.depth = 1 →
    holder.viaPeerId = none ∧ ∃ f ∈ peers, f.trust = .FRIEND ∧ holder.peerId = f.id
  once : (holders.map (·.source)).Nodup
  least : ∀ holder ∈ holders, ∀ f other, Admissible isLinked ask peers maxDepth f other →
    other.source = holder.source → holder.depth ≤ other.depth
  complete : ∀ f other, Admissible isLinked ask peers maxDepth f other →
    ∃ holder ∈ holders, holder.source = other.source

/-- The limits and the ceiling agree on what was answered. -/
structure Agree : Prop where
  /-- What is let in over the limit of its friend is not the nearest of its key. -/
  beaten : ∀ f holder, Best.Leads (fun a : CataloguePeer × ContentHolder => a.2.key) (·.2.depth)
    (letIn isLinked ask peers maxDepth) (f, holder) → holder.depth ≤ limitFor maxDepth f
  /-- What is admissible over the ceiling is also answered within it. -/
  near : ∀ f holder, Admissible isLinked ask peers maxDepth f holder → maxDepth < holder.depth →
    ∃ g other, Admissible isLinked ask peers maxDepth g other ∧ other.depth ≤ maxDepth ∧
      other.source = holder.source
  /-- Two copies are told apart by their keys. -/
  apart : ∀ f holder g other, Admissible isLinked ask peers maxDepth f holder →
    Admissible isLinked ask peers maxDepth g other → holder.depth ≤ maxDepth →
    other.depth ≤ maxDepth → holder.key = other.key → holder.source = other.source

variable {isLinked ask peers maxDepth} {f : CataloguePeer} {holder other : ContentHolder}

/-! ### What an answer says -/

theorem key_eq_of_source (h : holder.source = other.source) : holder.key = other.key := by
  obtain ⟨hpeer, hservice, hexternal⟩ : holder.peerId = other.peerId ∧
      holder.serviceId = other.serviceId ∧ holder.externalId = other.externalId := by
    simpa only [ContentHolder.source, Prod.mk.injEq] using h
  rw [ContentHolder.key, ContentHolder.key, hpeer, hservice, hexternal]

theorem mem_answersOf_iff : (f, holder) ∈ answersOf isLinked ask peers maxDepth ↔
    (f ∈ peers ∧ f.trust = .FRIEND ∧ isLinked f.id = true) ∧
      ∃ answer ∈ (ask f.id (limitFor maxDepth f - 1)).getD [], holder = attributed f answer := by
  simp only [answersOf, searchRequests, List.mem_flatMap, List.mem_map, List.mem_filter,
    decide_eq_true_eq, Prod.exists, Prod.mk.injEq]
  constructor
  · rintro ⟨_, _, ⟨peer, ⟨⟨hpeer, htrust⟩, hlinked⟩, rfl, rfl⟩, answer, hanswer, rfl, rfl⟩
    exact ⟨⟨hpeer, htrust, hlinked⟩, answer, hanswer, rfl⟩
  · rintro ⟨⟨hpeer, htrust, hlinked⟩, answer, hanswer, rfl⟩
    exact ⟨_, _, ⟨f, ⟨⟨hpeer, htrust⟩, hlinked⟩, rfl, rfl⟩, answer, hanswer, rfl, rfl⟩

theorem through_attributed (via : CataloguePeer) (answer : HolderAnswer) :
    (attributed via answer).through = via.id := by
  unfold attributed ContentHolder.through
  dsimp only
  split <;> rfl

theorem direct_attributed {via : CataloguePeer} {answer : HolderAnswer}
    (h : (attributed via answer).depth = 1) :
    (attributed via answer).viaPeerId = none ∧ (attributed via answer).peerId = via.id := by
  unfold attributed at h ⊢
  dsimp only at h ⊢
  split at h
  · next hself => simp [hself]
  · have hfar := le_max_left 1 ((answer.depth.map trunc).getD 1)
    omega

theorem mem_letIn_iff : (f, holder) ∈ letIn isLinked ask peers maxDepth ↔
    (f, holder) ∈ answersOf isLinked ask peers maxDepth ∧ holder.depth ≤ maxDepth := by
  simp only [letIn, List.mem_filter, decide_eq_true_eq]

theorem exists_leads_of_letIn (h : (f, holder) ∈ letIn isLinked ask peers maxDepth) :
    ∃ b, Best.Leads (fun a : CataloguePeer × ContentHolder => a.2.key) (·.2.depth)
      (letIn isLinked ask peers maxDepth) b ∧ b.2.key = holder.key :=
  @Best.exists_leads (CataloguePeer × ContentHolder) _ _ _ (fun a => a.2.key) (·.2.depth) _
    (f, holder) _ h

/-! ### What is found -/

theorem perm_findHolders : (findHolders isLinked ask peers maxDepth).Perm
    (Best.kept ContentHolder.key (·.depth)
      ((letIn isLinked ask peers maxDepth).map (·.2))) := by
  have hanswers : (searchRequests isLinked maxDepth peers).flatMap (fun (peer, budget) =>
      ((ask peer.id budget).getD []).map (attributed peer)) =
      (answersOf isLinked ask peers maxDepth).map (·.2) := by
    simp only [answersOf, List.map_flatMap, List.map_map, Function.comp_def]
  refine (List.perm_insertionSort ..).trans (List.Perm.of_eq ?_)
  rw [hanswers, List.filter_map]
  rfl

theorem mem_findHolders_iff : holder ∈ findHolders isLinked ask peers maxDepth ↔
    ∃ f, Best.Leads (fun a : CataloguePeer × ContentHolder => a.2.key) (·.2.depth)
      (letIn isLinked ask peers maxDepth) (f, holder) := by
  rw [perm_findHolders.mem_iff, Best.mem_kept, Best.leads_map_iff]
  constructor
  · rintro ⟨⟨f, holder⟩, hleads, rfl⟩
    exact ⟨f, hleads⟩
  · rintro ⟨f, hleads⟩
    exact ⟨_, hleads, rfl⟩

theorem nodup_keys : ((findHolders isLinked ask peers maxDepth).map (·.key)).Nodup :=
  (perm_findHolders.map _).nodup_iff.mpr (Best.nodup_kept _)

theorem nodup_sources : ((findHolders isLinked ask peers maxDepth).map (·.source)).Nodup := by
  refine List.pairwise_map.mpr ((List.pairwise_map.mp nodup_keys).imp fun hkey hsource => ?_)
  exact hkey (key_eq_of_source hsource)

/-! ### The law -/

/-- What leads is within the limit of the friend it came through. -/
theorem Agree.admissible (h : Agree isLinked ask peers maxDepth)
    (hleads : Best.Leads (fun a : CataloguePeer × ContentHolder => a.2.key) (·.2.depth)
      (letIn isLinked ask peers maxDepth) (f, holder)) :
    Admissible isLinked ask peers maxDepth f holder ∧ holder.depth ≤ maxDepth :=
  have hmem := mem_letIn_iff.mp hleads.mem
  ⟨⟨hmem.1, h.beaten f holder hleads⟩, hmem.2⟩

theorem Agree.bounded (h : Agree isLinked ask peers maxDepth) (hids : (peers.map (·.id)).Nodup) :
    BoundedByFriends isLinked ask peers maxDepth (findHolders isLinked ask peers maxDepth) where
  admissible holder hholder := by
    obtain ⟨f, hleads⟩ := mem_findHolders_iff.mp hholder
    exact ⟨f, (h.admissible hleads).1⟩
  within holder hholder f hf hthrough := by
    obtain ⟨g, hleads⟩ := mem_findHolders_iff.mp hholder
    obtain ⟨⟨hanswered, hlimit⟩, _⟩ := h.admissible hleads
    obtain ⟨⟨hg, _⟩, answer, _, rfl⟩ := mem_answersOf_iff.mp hanswered
    rw [through_attributed] at hthrough
    rwa [List.inj_on_of_nodup_map hids hf hg hthrough.symm]
  direct holder hholder hdepth := by
    obtain ⟨f, hleads⟩ := mem_findHolders_iff.mp hholder
    obtain ⟨⟨hf, htrust, _⟩, answer, _, rfl⟩ :=
      mem_answersOf_iff.mp (mem_letIn_iff.mp hleads.mem).1
    obtain ⟨hvia, hpeer⟩ := direct_attributed hdepth
    exact ⟨hvia, f, hf, htrust, hpeer⟩
  once := nodup_sources
  least holder hholder g other hother hsource := by
    obtain ⟨f, hleads⟩ := mem_findHolders_iff.mp hholder
    have hceiling := (mem_letIn_iff.mp hleads.mem).2
    by_cases hnear : other.depth ≤ maxDepth
    · have hletIn : (g, other) ∈ letIn isLinked ask peers maxDepth :=
        mem_letIn_iff.mpr ⟨hother.1, hnear⟩
      exact hleads.le hletIn (key_eq_of_source hsource)
    · exact le_of_lt (lt_of_le_of_lt hceiling (not_le.mp hnear))
  complete f other hother := by
    -- Some answer of its source is let in, and the nearest of its key is of its source.
    obtain ⟨g, near, hnear, hceiling, hsource⟩ : ∃ g near,
        Admissible isLinked ask peers maxDepth g near ∧ near.depth ≤ maxDepth ∧
          near.source = other.source := by
      by_cases hceiling : other.depth ≤ maxDepth
      · exact ⟨f, other, hother, hceiling, rfl⟩
      · exact h.near f other hother (not_le.mp hceiling)
    obtain ⟨⟨f', holder⟩, hleads, hkey⟩ :=
      exists_leads_of_letIn (mem_letIn_iff.mpr ⟨hnear.1, hceiling⟩)
    obtain ⟨hadmissible, hdepth⟩ := h.admissible hleads
    refine ⟨holder, mem_findHolders_iff.mpr ⟨f', hleads⟩, ?_⟩
    exact (h.apart f' holder g near hadmissible hnear hdepth hceiling hkey).trans hsource

/-- **A friend's own limit bounds what comes through that friend**, exactly when the limits and the
ceiling agree on what was answered. -/
theorem boundedByFriends_iff (hids : (peers.map (·.id)).Nodup) :
    BoundedByFriends isLinked ask peers maxDepth (findHolders isLinked ask peers maxDepth) ↔
      Agree isLinked ask peers maxDepth := by
  refine ⟨fun h => ⟨?_, ?_, ?_⟩, fun h => h.bounded hids⟩
  · intro f holder hleads
    obtain ⟨⟨hf, _⟩, answer, _, rfl⟩ := mem_answersOf_iff.mp (mem_letIn_iff.mp hleads.mem).1
    exact h.within _ (mem_findHolders_iff.mpr ⟨f, hleads⟩) f hf (through_attributed f answer)
  · intro f holder hholder _
    obtain ⟨other, hother, hsource⟩ := h.complete f holder hholder
    obtain ⟨g, hleads⟩ := mem_findHolders_iff.mp hother
    have hmem := mem_letIn_iff.mp hleads.mem
    obtain ⟨⟨hg, _⟩, answer, _, rfl⟩ := mem_answersOf_iff.mp hmem.1
    exact ⟨g, _, ⟨hmem.1, h.within _ hother g hg (through_attributed g answer)⟩, hmem.2, hsource⟩
  · intro f holder g other hholder hother _ _ hkey
    obtain ⟨first, hfirst, hsource⟩ := h.complete f holder hholder
    obtain ⟨second, hsecond, hsource'⟩ := h.complete g other hother
    -- One of each key is found.
    have hkeys : first.key = second.key :=
      (key_eq_of_source hsource).trans (hkey.trans (key_eq_of_source hsource').symm)
    rw [← hsource, ← hsource', List.inj_on_of_nodup_map nodup_keys hfirst hsecond hkeys]

/-- Two friends who hold the file, the second of them no further than that. -/
def twoFriends : List CataloguePeer :=
  [⟨"ann", "Ann", .FRIEND, none, none⟩, ⟨"bob", "Bob", .FRIEND, none, some 1⟩]

/-- The first friend also knows of the second one's copy, and of a stranger's. -/
def askFriends : String → ℤ → Option (List HolderAnswer)
  | "ann", 1 => some [⟨"", none, "service", "item", none, some 1⟩,
      ⟨"bob", none, "service", "item", none, some 1⟩,
      ⟨"stranger", none, "service", "item", none, some 1⟩]
  | "bob", 0 => some [⟨"", none, "service", "item", none, some 1⟩]
  | _, _ => none

/-- Each copy is found once, at its nearest. -/
theorem boundedByFriends_iff_twoFriends :
    (findHolders (fun _ => true) askFriends twoFriends 2).map
        (fun holder => (holder.peerId, holder.depth, holder.viaPeerId)) =
        [("ann", 1, none), ("bob", 1, none), ("stranger", 2, some "ann")] ∧
      BoundedByFriends (fun _ => true) askFriends twoFriends 2
        (findHolders (fun _ => true) askFriends twoFriends 2) := by
  have hwithin : ∀ a ∈ answersOf (fun _ => true) askFriends twoFriends 2,
      a.2.depth ≤ 2 ∧ a.2.depth ≤ limitFor 2 a.1 := by decide +kernel
  have happart : ∀ a ∈ answersOf (fun _ => true) askFriends twoFriends 2,
      ∀ b ∈ answersOf (fun _ => true) askFriends twoFriends 2,
        a.2.key = b.2.key → a.2.source = b.2.source := by decide +kernel
  have hagree : Agree (fun _ => true) askFriends twoFriends 2 :=
    { beaten := fun f holder hleads => (hwithin _ (mem_letIn_iff.mp hleads.mem).1).2
      near := fun f holder hholder hover => absurd (hwithin _ hholder.1).1 (not_le.mpr hover)
      apart := fun f holder g other hholder hother _ _ =>
        happart (f, holder) hholder.1 (g, other) hother.1 }
  exact ⟨by decide +kernel, (boundedByFriends_iff (by decide)).mpr hagree⟩

/-- A friend whose own limit is one hop answers a copy two hops away, and it is let in. -/
theorem not_boundedByFriends_shortLimit :
    ¬ ∀ (isLinked : String → Bool) (ask : String → ℤ → Option (List HolderAnswer))
      (peers : List CataloguePeer) (maxDepth : ℤ), 1 ≤ maxDepth → (peers.map (·.id)).Nodup →
      BoundedByFriends isLinked ask peers maxDepth (findHolders isLinked ask peers maxDepth) := by
  intro h
  have hbounded := h (fun _ => true)
    (fun _ _ => some [⟨"stranger", none, "service", "item", none, some 1⟩])
    [⟨"friend", "Friend", .FRIEND, none, some 1⟩] 3 (by decide) (by decide)
  have hfound : (⟨"stranger", "unknown", "service", "item", none, .FRIEND_OF_FRIEND, 2,
      some "friend"⟩ : ContentHolder) ∈ findHolders (fun _ => true)
        (fun _ _ => some [⟨"stranger", none, "service", "item", none, some 1⟩])
        [⟨"friend", "Friend", .FRIEND, none, some 1⟩] 3 := by decide +kernel
  have hle := hbounded.within _ hfound _ List.mem_cons_self rfl
  exact absurd hle (by decide)

end

end MediaCenterSync.PeerExchange
