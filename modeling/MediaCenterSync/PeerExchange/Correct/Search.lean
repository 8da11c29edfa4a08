import Mathlib.Tactic.SplitIfs
import MediaCenterSync.PeerExchange.Correct.Hidden

/-!
# When a search ends

A friend without an override of their own is sent one hop less than was left of the budget
(`limitFor`).  An override takes the place of what was left, so a friend is sent less than the
caller's budget exactly where their override is no more than that (`requests_lt_iff`).  Where this
is so at every gateway a search comes to, the budget is a measure of what is still to come: it
bounds every chain of requests (`chain_length_le`) and the depth of the search (`answer_isSome`).
-/

namespace MediaCenterSync.PeerExchange

open Peers Share Relation

/-! ### One gateway -/

namespace Gateway

variable {w : World} {g : Gateway} {peerId contentId : String} {budget : ℚ}

theorem reach_pos {friend : CataloguePeer} (h : friend ∈ g.asked w peerId contentId budget) :
    0 < g.reach budget := by
  unfold asked at h
  cases hpeer : g.requirePeer peerId with
  | error failure => rw [hpeer] at h; cases h
  | ok peer =>
    rw [hpeer] at h
    dsimp only at h
    split at h
    · cases h
    · next hasked => simp only [not_or, not_le] at hasked; exact hasked.2.2

/-- No friend that is asked has an override above what is left of the budget, or above the
ceiling. -/
def Lowers (w : World) (g : Gateway) (peerId contentId : String) (budget : ℚ) : Prop :=
  ∀ friend ∈ g.asked w peerId contentId budget, ∀ limit ∈ friend.maxDepth,
    limit ≤ trunc budget ∧ limit ≤ g.shares.settings.peerMaxDepth

theorem requests_lt_iff :
    (∀ request ∈ g.requests w peerId contentId budget,
      request.2 < trunc budget ∧ request.2 < g.shares.settings.peerMaxDepth) ↔
    g.Lowers w peerId contentId budget := by
  unfold requests Lowers
  simp only [List.forall_mem_map]
  refine forall₂_congr fun friend hfriend => ?_
  have hreach := reach_pos hfriend
  unfold limitFor
  cases hlimit : friend.maxDepth with
  | none =>
    simp only [Option.getD_none, Option.mem_def, reduceCtorEq, false_implies, implies_true,
      iff_true]
    unfold reach at hreach ⊢
    omega
  | some limit =>
    simp only [Option.getD_some, Option.mem_some, forall_eq']
    unfold reach at hreach
    omega

theorem requests_nonneg : ∀ request ∈ g.requests w peerId contentId budget, 0 ≤ request.2 := by
  unfold requests limitFor
  simp only [List.forall_mem_map]
  intro friend _
  omega

end Gateway

/-! ### A network of them -/

def Request.hops {Node : Type*} (r : Request Node) : ℤ := trunc r.budget

theorem trunc_intCast (n : ℤ) : trunc n = n := by
  unfold trunc
  split
  · exact Int.floor_intCast n
  · exact Int.ceil_intCast n

namespace Network

variable {Node : Type*} {net : Network Node} {r r' : Request Node}

/-- The gateway that answers has no override above what is left, or above its ceiling, among the
friends it asks. -/
def Lowers (net : Network Node) (r : Request Node) : Prop :=
  (net.gateway r.node).Lowers (net.world r.node) r.peerId r.contentId r.budget

/-- The search ends, each request being sent less than the one it is sent for and less than the
ceiling of the gateway that sends it. -/
structure Bounded (net : Network Node) (r : Request Node) : Prop where
  lower : ∀ r', ReflTransGen net.Sends r r' → ∀ r'', net.Sends r' r'' →
    r''.budget < r'.budget ∧ r''.hops < r'.hops ∧ r''.hops < net.ceiling r'
  chain : ∀ r', ReflTransGen net.Sends r r' → ∀ rs, List.IsChain net.Sends (r' :: rs) →
    rs.length ≤ r'.hops.toNat ∧ rs.length ≤ (net.ceiling r').toNat
  ends : ∃ fuel, (net.answer fuel r).isSome

theorem lowers_iff :
    net.Lowers r ↔ ∀ r', net.Sends r r' → r'.hops < r.hops ∧ r'.hops < net.ceiling r := by
  unfold Lowers Sends sent
  rw [← Gateway.requests_lt_iff]
  simp only [List.forall_mem_map]
  refine forall₂_congr fun request _ => ?_
  unfold forwarded Request.hops ceiling
  dsimp only
  rw [trunc_intCast]

theorem hops_nonneg (h : net.Sends r r') : 0 ≤ r'.hops := by
  obtain ⟨request, hrequest, rfl⟩ := List.mem_map.mp h
  unfold forwarded Request.hops
  dsimp only
  rw [trunc_intCast]
  exact Gateway.requests_nonneg request hrequest

theorem budget_eq_hops (h : net.Sends r r') : r'.budget = r'.hops := by
  obtain ⟨request, -, rfl⟩ := List.mem_map.mp h
  unfold forwarded Request.hops
  dsimp only
  rw [trunc_intCast]

theorem budget_lt (h : net.Sends r r') (hless : r'.hops < r.hops) : r'.budget < r.budget := by
  have hnonneg := hops_nonneg h
  have hfloor : (r.hops : ℚ) ≤ r.budget := by
    unfold Request.hops trunc at hless ⊢
    split
    · exact Int.floor_le r.budget
    · next hnegative =>
      have hceil : ⌈r.budget⌉ ≤ 0 := Int.ceil_le.mpr (le_of_lt (by simpa using hnegative))
      rw [if_neg hnegative] at hless
      exact absurd (hnonneg.trans_lt hless) (not_lt.mpr hceil)
  calc r'.budget
    _ = r'.hops := budget_eq_hops h
    _ < r.hops := by exact_mod_cast hless
    _ ≤ r.budget := hfloor

section

variable (hlowers : ∀ r', ReflTransGen net.Sends r r' → net.Lowers r')

include hlowers

/-- What is left of the budget bounds a chain of requests, and so does the ceiling of the gateway
the chain starts at. -/
theorem chain_length_le {rs : List (Request Node)} (h : List.IsChain net.Sends (r :: rs)) :
    rs.length ≤ r.hops.toNat ∧ rs.length ≤ (net.ceiling r).toNat := by
  induction rs generalizing r with
  | nil => exact ⟨Nat.zero_le _, Nat.zero_le _⟩
  | cons r' rs ih =>
    obtain ⟨hsends, hrest⟩ := List.isChain_cons_cons.mp h
    have hlater := ih (fun r'' hr'' => hlowers r'' (.head hsends hr'')) hrest
    obtain ⟨hless, hceiling⟩ := lowers_iff.mp (hlowers r .refl) r' hsends
    have hnonneg := hops_nonneg hsends
    rw [List.length_cons]
    omega

theorem answer_isSome {fuel : ℕ} (hfuel : r.hops.toNat < fuel) : (net.answer fuel r).isSome := by
  induction fuel generalizing r with
  | zero => exact absurd hfuel (Nat.not_lt_zero _)
  | succ fuel ih =>
    have hall : ((net.sent r).all fun r' => (net.answer fuel r').isSome) = true := by
      refine List.all_eq_true.mpr fun r' hr' => ih (fun r'' hr'' => hlowers r'' (.head hr' hr'')) ?_
      have hless := (lowers_iff.mp (hlowers r .refl) r' hr').1
      have hnonneg := hops_nonneg hr'
      omega
    unfold answer
    rw [if_pos hall]
    rfl

end

/-- **A search ends**, every request on the way lowering the budget, exactly where no gateway it
comes to asks a friend whose override is more than what is left of the budget, or more than its own
ceiling. -/
theorem bounded_iff : net.Bounded r ↔ ∀ r', ReflTransGen net.Sends r r' → net.Lowers r' := by
  constructor
  · exact fun h r' hr' => lowers_iff.mpr fun r'' hr'' => (h.lower r' hr' r'' hr'').2
  · intro h
    refine ⟨?_, ?_, ?_⟩
    · intro r' hr' r'' hr''
      have hless := lowers_iff.mp (h r' hr') r'' hr''
      exact ⟨budget_lt hr'' hless.1, hless⟩
    · exact fun r' hr' rs hchain => chain_length_le (fun r'' hr'' => h r'' (hr'.trans hr'')) hchain
    · exact ⟨r.hops.toNat + 1, answer_isSome h (Nat.lt_succ_self _)⟩

end Network

/-! ### Three gateways, each with an override for the next -/

/-- A friend of each of the three, with an override or none. -/
def neighbour (id : String) (maxDepth : Option ℤ) : Peer :=
  { Peer.create id id id with status := .LINKED, maxDepth := maxDepth }

/-- One of the three; its libraries are shared with friends, and its ceiling is three hops. -/
def corner : Gateway :=
  { peers := [neighbour "next" (some 3), neighbour "previous" none]
    items := []
    shares := homeShares
    itemIds := List.nodup_nil }

def triangle : Network (Fin 3) :=
  { gateway := fun _ => corner
    world := fun _ => { quiet with isLinked := fun _ => true }
    peerOf := fun node id => if id = "next" then node + 1 else node - 1
    callerOf := fun _ id => if id = "next" then "previous" else "next" }

theorem sends_triangle (node : Fin 3) :
    triangle.Sends ⟨node, "previous", "content", 2⟩ ⟨node + 1, "previous", "content", 2⟩ := by
  have hrequests : corner.requests { quiet with isLinked := fun _ => true } "previous" "content" 2 =
      [(⟨"next", "next", .FRIEND, none, some 3⟩, 2)] := by decide +kernel
  unfold Network.Sends Network.sent
  change _ ∈ (corner.requests { quiet with isLinked := fun _ => true } "previous" "content" 2).map _
  rw [hrequests]
  exact List.mem_singleton.mpr (by simp [Network.forwarded, triangle])

theorem answer_triangle (fuel : ℕ) (node : Fin 3) :
    triangle.answer fuel ⟨node, "previous", "content", 2⟩ = none := by
  induction fuel generalizing node with
  | zero => rfl
  | succ fuel ih =>
    unfold Network.answer
    refine if_neg fun hall => ?_
    have hsome := List.all_eq_true.mp hall _ (sends_triangle node)
    rw [ih] at hsome
    cases hsome

/-- A search among the three does not end. -/
theorem not_bounded : ¬ ∀ (Node : Type) (net : Network Node) (r : Request Node), net.Bounded r := by
  intro h
  obtain ⟨fuel, hfuel⟩ := (h (Fin 3) triangle ⟨0, "previous", "content", 2⟩).ends
  rw [answer_triangle] at hfuel
  cases hfuel

end MediaCenterSync.PeerExchange
