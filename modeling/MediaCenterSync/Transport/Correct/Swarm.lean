import MediaCenterSync.Lib.LabelledRun
import MediaCenterSync.Transport.Swarm

/-!
# Chunks and pieces

A session cuts the file into pieces and the engine cuts it into chunks, and a chunk is asked for
under its own number as if it were a piece.  A peer with the whole file serves every chunk, and a
peer that names pieces is asked for no byte outside them, exactly when the two cuts go together
(`Aligned`): `serves_iff`.
-/

namespace MediaCenterSync.Transport

open LabelledRun (Free Run)
open TransferEngine (ChunkPlan ExistingChunk PlannedChunk planChunks)

/-! ### A prepared session -/

section

variable (wire : SwarmWire) (session : SwarmSession)

/-- What a peer answered when the session was prepared. -/
def answerOf (holder : ContentHolder) : Option (List ℕ) :=
  wire.bitfield holder session.contentId session.pieceCount

/-- The pieces a peer goes by: those it named, or all of them. -/
def heldBy (holder : ContentHolder) : List ℕ :=
  (answerOf wire session holder).getD (List.range session.pieceCount)

end

variable {wire : SwarmWire} {source : TransferSourceRef} {session : SwarmSession}

theorem mem_setPeer {peers : List SwarmPeer} {peer one : SwarmPeer} (h : one ∈ setPeer peers peer) :
    one ∈ peers ∨ one = peer := by
  unfold setPeer at h
  split_ifs at h with hthere
  · obtain ⟨other, hother, rfl⟩ := List.mem_map.mp h
    split_ifs
    · exact .inr rfl
    · exact .inl hother
  · simpa using h

theorem ids_setPeer (peers : List SwarmPeer) (peer : SwarmPeer) :
    (setPeer peers peer).map (·.holder.peerId) =
      if peer.holder.peerId ∈ peers.map (·.holder.peerId) then peers.map (·.holder.peerId)
      else peers.map (·.holder.peerId) ++ [peer.holder.peerId] := by
  have hany : peers.any (·.holder.peerId = peer.holder.peerId) = true ↔
      peer.holder.peerId ∈ peers.map (·.holder.peerId) := by
    simp only [List.any_eq_true, decide_eq_true_eq, List.mem_map]
  unfold setPeer
  by_cases hthere : peer.holder.peerId ∈ peers.map (·.holder.peerId)
  · rw [if_pos (hany.mpr hthere), if_pos hthere, List.map_map]
    refine List.map_congr_left fun one _ => ?_
    rw [Function.comp_apply]
    split_ifs with hid
    · exact hid.symm
    · rfl
  · rw [if_neg (hany.not.mpr hthere), if_neg hthere, List.map_append, List.map_singleton]

/-- What a session begins with: distinct peers, each with what it answered. -/
structure Prepared (wire : SwarmWire) (session : SwarmSession) : Prop where
  nodup : (session.peers.map (·.holder.peerId)).Nodup
  fresh : ∀ peer ∈ session.peers,
    peer.inFlight = 0 ∧ peer.available = heldBy wire session peer.holder

theorem prepared_of_prepare (h : prepare wire source = .ok session) : Prepared wire session := by
  have hfold : ∀ (holders : List ContentHolder) (pieceCount : ℕ) (contentId : String)
      (peers : List SwarmPeer),
      let answers := fun holder => wire.bitfield holder contentId pieceCount
      (peers.map (·.holder.peerId)).Nodup ∧ (∀ peer ∈ peers, peer.inFlight = 0 ∧
        peer.available = (answers peer.holder).getD (List.range pieceCount)) →
      let all := holders.foldl (fun peers holder =>
        setPeer peers (freshPeer pieceCount holder (answers holder))) peers
      (all.map (·.holder.peerId)).Nodup ∧ ∀ peer ∈ all, peer.inFlight = 0 ∧
        peer.available = (answers peer.holder).getD (List.range pieceCount) := by
    intro holders pieceCount contentId
    induction holders with
    | nil => exact fun peers h => h
    | cons holder rest ih =>
      intro peers answers hpeers
      refine ih _ ⟨?_, ?_⟩
      · rw [ids_setPeer]
        split_ifs with hthere
        · exact hpeers.1
        · rw [List.nodup_append]
          refine ⟨hpeers.1, List.nodup_singleton _, fun a ha b hb => ?_⟩
          rintro rfl
          exact hthere (List.mem_singleton.mp hb ▸ ha)
      · intro peer hpeer
        rcases mem_setPeer hpeer with hpeer | rfl
        · exact hpeers.2 peer hpeer
        · exact ⟨rfl, rfl⟩
  unfold prepare at h
  split at h
  · cases h
  · next contentId _ =>
    dsimp only at h
    split_ifs at h
    cases h
    obtain ⟨hnodup, hfresh⟩ := hfold (source.holders.filter wire.usable) _ contentId []
      ⟨List.nodup_nil, fun peer hpeer => absurd hpeer List.not_mem_nil⟩
    exact ⟨hnodup, hfresh⟩

/-! ### What a session keeps -/

def AsksFor (plan : ChunkPlan) (request : PieceRequest) : Prop :=
  ∃ chunk ∈ plan.chunks, request.range = ⟨chunk.start, chunk.last⟩ ∧
    request.pieceIndex = chunk.index

def Fetches (plan : ChunkPlan) (_ : SwarmState) (event : SwarmEvent) : Prop :=
  ∀ range chunkIndex, event = .fetch range chunkIndex →
    ∃ chunk ∈ plan.chunks, event = fetchChunk chunk

/-- Peers of the session it began as, with what they answered. -/
def Known (wire : SwarmWire) (session : SwarmSession) (peers : List SwarmPeer) : Prop :=
  ∀ peer ∈ peers, peer.available = heldBy wire session peer.holder ∧
    ∃ first ∈ session.peers, first.holder = peer.holder

structure Kept (wire : SwarmWire) (session : SwarmSession) (plan : ChunkPlan) (state : SwarmState) :
    Prop where
  known : Known wire session state.session.peers
  /-- A peer is asked for the chunks it can be asked for. -/
  asked : ∀ request ∈ state.asked, AsksFor plan request ∧
    (heldBy wire session request.holder = [] ∨
      request.pieceIndex ∈ heldBy wire session request.holder) ∧
    ∃ first ∈ session.peers, first.holder = request.holder
  waiting : ∀ request ∈ state.waiting, request ∈ state.asked

variable {plan : ChunkPlan} {state next : SwarmState}

theorem mem_of_pick {pieceIndex : ℕ} {attempted : List String} {peer : SwarmPeer}
    (h : pick session pieceIndex attempted = some peer) :
    peer ∈ candidates session pieceIndex attempted :=
  (List.mem_insertionSort _).mp (List.mem_of_head? h)

theorem exists_pick {pieceIndex : ℕ} {attempted : List String} {peer : SwarmPeer}
    (h : peer ∈ candidates session pieceIndex attempted) :
    ∃ first, pick session pieceIndex attempted = some first := by
  have hsorted : peer ∈ (candidates session pieceIndex attempted).insertionSort (comesFirst · ·) :=
    (List.mem_insertionSort _).mpr h
  exact ⟨_, List.head?_eq_some_head (List.ne_nil_of_mem hsorted)⟩

theorem mem_update {peerId : String} {f : SwarmPeer → SwarmPeer} {peer : SwarmPeer} :
    peer ∈ (session.update peerId f).peers ↔ ∃ one ∈ session.peers,
      (if one.holder.peerId = peerId then f one else one) = peer :=
  List.mem_map

theorem forall_mem_update {P : SwarmPeer → Prop} {peerId : String} {f : SwarmPeer → SwarmPeer}
    (hf : ∀ peer, P peer → P (f peer)) (h : ∀ peer ∈ session.peers, P peer) :
    ∀ peer ∈ (session.update peerId f).peers, P peer := by
  intro peer hpeer
  obtain ⟨one, hone, rfl⟩ := mem_update.mp hpeer
  split_ifs
  · exact hf one (h one hone)
  · exact h one hone

theorem forall_mem_dropFailing {P : SwarmPeer → Prop} (peerId : String)
    (h : ∀ peer ∈ session.peers, P peer) : ∀ peer ∈ (session.dropFailing peerId).peers, P peer := by
  unfold SwarmSession.dropFailing
  split_ifs
  · exact fun peer hpeer => h peer (List.mem_of_mem_filter hpeer)
  · exact h

theorem Known.update {current : SwarmSession} (h : Known wire session current.peers)
    (peerId : String) {f : SwarmPeer → SwarmPeer}
    (hf : ∀ peer, (f peer).holder = peer.holder ∧ (f peer).available = peer.available) :
    Known wire session (current.update peerId f).peers :=
  forall_mem_update (fun peer hpeer => by rwa [(hf peer).1, (hf peer).2]) h

theorem Kept.ask (h : Kept wire session plan state) {chunk : PlannedChunk}
    (hchunk : chunk ∈ plan.chunks) (attempted : List String) :
    Kept wire session plan (ask state ⟨chunk.start, chunk.last⟩ chunk.index attempted) := by
  unfold Transport.ask
  cases hpick : pick state.session chunk.index attempted with
  | none => exact h
  | some peer =>
    obtain ⟨hpeer, hcan⟩ := List.mem_filter.mp (mem_of_pick hpick)
    obtain ⟨-, -, havailable⟩ := of_decide_eq_true hcan
    obtain ⟨hheld, hfirst⟩ := h.known peer hpeer
    rw [hheld] at havailable
    refine ⟨h.known.update _ fun _ => ⟨rfl, rfl⟩, ?_, ?_⟩
    · intro request hrequest
      rcases List.mem_append.mp hrequest with hrequest | hrequest
      · exact h.asked request hrequest
      · obtain rfl := List.mem_singleton.mp hrequest
        exact ⟨⟨chunk, hchunk, rfl, rfl⟩, havailable, hfirst⟩
    · intro request hrequest
      rcases List.mem_append.mp hrequest with hrequest | hrequest
      · exact List.mem_append_left _ (h.waiting request hrequest)
      · exact List.mem_append_right _ hrequest

/-- **What one event keeps.** -/
theorem Kept.step (h : Kept wire session plan state) {event : SwarmEvent}
    (hfetches : Fetches plan state event) (hstep : step state event = some next) :
    Kept wire session plan next := by
  cases event with
  | fetch range chunkIndex =>
    obtain ⟨chunk, hchunk, hevent⟩ := hfetches range chunkIndex rfl
    obtain ⟨rfl, rfl⟩ := SwarmEvent.fetch.inj hevent
    cases hstep
    exact h.ask hchunk []
  | opened index =>
    obtain ⟨request, -, hnext⟩ := Option.bind_eq_some_iff.mp hstep
    cases hnext
    exact ⟨h.known, h.asked, fun one hone => h.waiting one (List.mem_of_mem_eraseIdx hone)⟩
  | rejected index =>
    obtain ⟨request, hrequest, hnext⟩ := Option.bind_eq_some_iff.mp hstep
    cases hnext
    obtain ⟨⟨chunk, hchunk, hrange, hindex⟩, -, -⟩ :=
      h.asked request (h.waiting request (List.mem_of_getElem? hrequest))
    rw [hrange, hindex]
    let peerId := request.holder.peerId
    have hkept : Kept wire session plan
        { state with
          session := (state.session.fail peerId).dropFailing peerId
          waiting := state.waiting.eraseIdx index } :=
      ⟨forall_mem_dropFailing _ (h.known.update _ fun _ => ⟨rfl, rfl⟩), h.asked,
        fun one hone => h.waiting one (List.mem_of_mem_eraseIdx hone)⟩
    exact hkept.ask hchunk _
  | ended index elapsed =>
    obtain ⟨request, -, hnext⟩ := Option.bind_eq_some_iff.mp hstep
    cases hnext
    exact ⟨h.known.update _ fun _ => ⟨rfl, rfl⟩, h.asked, h.waiting⟩
  | broken index =>
    obtain ⟨request, -, hnext⟩ := Option.bind_eq_some_iff.mp hstep
    cases hnext
    exact ⟨h.known.update _ fun _ => ⟨rfl, rfl⟩, h.asked, h.waiting⟩

theorem kept_opening (h : Prepared wire session) : Kept wire session plan (opening session) :=
  ⟨fun peer hpeer => ⟨(h.fresh peer hpeer).2, peer, hpeer, rfl⟩,
    fun _ hrequest => absurd hrequest List.not_mem_nil,
    fun _ hrequest => absurd hrequest List.not_mem_nil⟩

theorem kept_of_run (h : Prepared wire session) {events : List SwarmEvent}
    (hrun : Run step (Fetches plan) (opening session) events state) :
    Kept wire session plan state :=
  hrun.invariant (fun _ _ _ hkept hfetches hstep => hkept.step hfetches hstep) (kept_opening h)

/-! ### Reaching a peer -/

theorem mem_update_of_ne {peerId : String} {f : SwarmPeer → SwarmPeer} {peer : SwarmPeer}
    (h : peer ∈ session.peers) (hne : peer.holder.peerId ≠ peerId) :
    peer ∈ (session.update peerId f).peers :=
  mem_update.mpr ⟨peer, h, if_neg hne⟩

theorem mem_dropFailing_of_ne {peerId : String} {peer : SwarmPeer} (h : peer ∈ session.peers)
    (hne : peer.holder.peerId ≠ peerId) : peer ∈ (session.dropFailing peerId).peers := by
  unfold SwarmSession.dropFailing
  split_ifs
  · exact List.mem_filter.mpr ⟨h, decide_eq_true hne⟩
  · exact h

theorem ids_update {peerId : String} {f : SwarmPeer → SwarmPeer}
    (hf : ∀ peer, (f peer).holder = peer.holder) :
    (session.update peerId f).peers.map (·.holder.peerId) =
      session.peers.map (·.holder.peerId) := by
  unfold SwarmSession.update
  rw [List.map_map]
  refine List.map_congr_left fun peer _ => ?_
  rw [Function.comp_apply]
  split_ifs
  · rw [hf]
  · rfl

theorem ids_dropFailing (peerId : String) :
    ((session.dropFailing peerId).peers.map (·.holder.peerId)).Sublist
      (session.peers.map (·.holder.peerId)) := by
  unfold SwarmSession.dropFailing
  split_ifs
  · exact List.filter_sublist.map _
  · exact List.Sublist.refl _

/-- The peers that were not tried yet. -/
def untried (session : SwarmSession) (attempted : List String) : List String :=
  (session.peers.map (·.holder.peerId)).filter (· ∉ attempted)

theorem length_untried_lt {current : SwarmSession} {attempted : List String} {peer : SwarmPeer}
    (hsub : (current.peers.map (·.holder.peerId)).Sublist
      (session.peers.map (·.holder.peerId)))
    (hpeer : peer ∈ session.peers) (hnew : peer.holder.peerId ∉ attempted) :
    (untried current (attempted ++ [peer.holder.peerId])).length <
      (untried session attempted).length := by
  have hsplit : (session.peers.map (·.holder.peerId)).filter
      (fun id => decide (id ∉ attempted ++ [peer.holder.peerId])) =
      (untried session attempted).filter (· ≠ peer.holder.peerId) := by
    unfold untried
    rw [List.filter_filter]
    refine List.filter_congr fun id _ => ?_
    simp [and_comm]
  have hthere : peer.holder.peerId ∈ untried session attempted :=
    List.mem_filter.mpr ⟨List.mem_map_of_mem hpeer, decide_eq_true hnew⟩
  calc (untried current (attempted ++ [peer.holder.peerId])).length
      ≤ ((untried session attempted).filter (· ≠ peer.holder.peerId)).length := by
        rw [← hsplit]
        exact (hsub.filter _).length_le
    _ < (untried session attempted).length :=
        List.length_filter_lt_length_iff_exists.mpr ⟨_, hthere, by simp⟩

def afterRejection (session : SwarmSession) (peerId : String) : SwarmSession :=
  let asked := session.update peerId fun peer => { peer with inFlight := peer.inFlight + 1 }
  (asked.fail peerId).dropFailing peerId

theorem ids_afterRejection (session : SwarmSession) (peerId : String) :
    ((afterRejection session peerId).peers.map (·.holder.peerId)).Sublist
      (session.peers.map (·.holder.peerId)) := by
  let asked := session.update peerId fun peer => { peer with inFlight := peer.inFlight + 1 }
  have hids : (asked.fail peerId).peers.map (·.holder.peerId) =
      session.peers.map (·.holder.peerId) :=
    calc (asked.fail peerId).peers.map (·.holder.peerId)
        = asked.peers.map (·.holder.peerId) := ids_update fun _ => rfl
      _ = session.peers.map (·.holder.peerId) := ids_update fun _ => rfl
  exact hids ▸ ids_dropFailing peerId

theorem mem_afterRejection {peerId : String} {peer : SwarmPeer} (h : peer ∈ session.peers)
    (hne : peer.holder.peerId ≠ peerId) : peer ∈ (afterRejection session peerId).peers :=
  mem_dropFailing_of_ne (mem_update_of_ne (mem_update_of_ne h hne) hne) hne

theorem holder_afterRejection {peerId : String} {target : ContentHolder}
    (h : ∀ peer ∈ session.peers, peer.holder.peerId = target.peerId → peer.holder = target) :
    ∀ peer ∈ (afterRejection session peerId).peers,
      peer.holder.peerId = target.peerId → peer.holder = target :=
  forall_mem_dropFailing _ (forall_mem_update (fun _ hone => hone)
    (forall_mem_update (fun _ hone => hone) h))

/-- **A peer that can be asked is asked**, when all that are asked before it reject. -/
theorem exists_asked (plan : ChunkPlan) {target : SwarmPeer} (range : ByteRange) {pieceIndex : ℕ}
    (count : ℕ) (state : SwarmState) (attempted : List String)
    (hcount : (untried state.session attempted).length < count)
    (htarget : target ∈ candidates state.session pieceIndex attempted)
    (halone : ∀ peer ∈ state.session.peers, peer.holder.peerId = target.holder.peerId →
      peer.holder = target.holder) :
    ∃ events next, Run step (Fetches plan) (ask state range pieceIndex attempted) events next ∧
      ∃ request ∈ next.asked, request.holder = target.holder ∧ request.range = range := by
  induction count generalizing state attempted with
  | zero => exact absurd hcount (Nat.not_lt_zero _)
  | succ count ih =>
    obtain ⟨first, hpick⟩ := exists_pick htarget
    obtain ⟨hfirst, hcan⟩ := List.mem_filter.mp (mem_of_pick hpick)
    obtain ⟨hmem, hcanTarget⟩ := List.mem_filter.mp htarget
    obtain ⟨hnew, -, -⟩ := of_decide_eq_true hcan
    obtain ⟨htried, hidle, hholds⟩ := of_decide_eq_true hcanTarget
    let request : PieceRequest :=
      ⟨first.holder, range, pieceIndex, attempted ++ [first.holder.peerId]⟩
    have hask : ask state range pieceIndex attempted =
        { state with
          session := state.session.update first.holder.peerId fun peer =>
            { peer with inFlight := peer.inFlight + 1 }
          waiting := state.waiting ++ [request]
          asked := state.asked ++ [request] } := by
      rw [ask, hpick]
    by_cases hsame : first.holder.peerId = target.holder.peerId
    · refine ⟨[], _, .nil _, request, ?_, halone first hfirst hsame, rfl⟩
      rw [hask]
      exact List.mem_append_right _ (List.mem_singleton_self _)
    · -- it rejects, and the target is as it was
      let rejected : SwarmState :=
        { state with
          session := afterRejection state.session first.holder.peerId
          waiting := (state.waiting ++ [request]).eraseIdx state.waiting.length
          asked := state.asked ++ [request] }
      have hstep : step (ask state range pieceIndex attempted) (.rejected state.waiting.length) =
          some (ask rejected range pieceIndex request.attempted) := by
        have hrequest : (state.waiting ++ [request])[state.waiting.length]? = some request :=
          List.getElem?_concat_length ..
        rw [hask, step]
        simp only [hrequest]
        rfl
      have hnot : target.holder.peerId ∉ request.attempted := by
        simp only [request, List.mem_append, List.mem_singleton, not_or]
        exact ⟨htried, Ne.symm hsame⟩
      obtain ⟨events, next, hrun, hasked⟩ := ih rejected request.attempted
        (Nat.lt_of_lt_of_le (length_untried_lt (ids_afterRejection _ _) hfirst hnew)
          (Nat.le_of_lt_succ hcount))
        (List.mem_filter.mpr ⟨mem_afterRejection hmem (Ne.symm hsame),
          decide_eq_true ⟨hnot, hidle, hholds⟩⟩)
        (holder_afterRejection halone)
      exact ⟨.rejected state.waiting.length :: events, next, .cons nofun hstep hrun, hasked⟩

/-! ### The two cuts -/

section

variable (wire : SwarmWire) (session : SwarmSession) (plan : ChunkPlan)

def Within (range : ByteRange) (pieces : List ℕ) : Prop :=
  ∀ i, range.start ≤ i → i ≤ range.last → i / session.pieceLength ∈ pieces

/-- **A peer with the whole file can serve every chunk**: it is among those that can be asked, as
long as it is idle and was not tried. -/
def ServesWhole : Prop :=
  ∀ events state, Run step (Fetches plan) (opening session) events state →
    ∀ peer ∈ state.session.peers, answerOf wire session peer.holder = none →
      ∀ chunk ∈ plan.chunks, ∀ attempted, peer.holder.peerId ∉ attempted →
        peer.inFlight < PIPELINE_DEPTH → peer ∈ candidates state.session chunk.index attempted

/-- **A peer that names pieces is asked for nothing else.** -/
def AsksWithin : Prop :=
  ∀ events state, Run step (Fetches plan) (opening session) events state →
    ∀ request ∈ state.asked, ∀ named, answerOf wire session request.holder = some named →
      Within session request.range named

/-- The numbers of the chunks go together with the pieces. -/
structure Aligned : Prop where
  /-- No chunk is numbered past the pieces of a peer with the whole file. -/
  whole : ∀ peer ∈ session.peers, answerOf wire session peer.holder = none →
    ∀ chunk ∈ plan.chunks, session.pieceCount = 0 ∨ chunk.index < session.pieceCount
  /-- A chunk whose number a peer named is within the pieces it named, and so is every chunk where a
  peer named none. -/
  named : ∀ peer ∈ session.peers, ∀ named, answerOf wire session peer.holder = some named →
    ∀ chunk ∈ plan.chunks, named = [] ∨ chunk.index ∈ named →
      Within session ⟨chunk.start, chunk.last⟩ named

end

/-- **The swarm serves what its peers have** exactly when the two cuts go together. -/
theorem serves_iff (h : prepare wire source = .ok session) (totalBytes configuredChunkSize : ℕ)
    (existing : List ExistingChunk) :
    ServesWhole wire session (planChunks totalBytes configuredChunkSize existing) ∧
      AsksWithin wire session (planChunks totalBytes configuredChunkSize existing) ↔
    Aligned wire session (planChunks totalBytes configuredChunkSize existing) := by
  have hprepared := prepared_of_prepare h
  set plan := planChunks totalBytes configuredChunkSize existing
  constructor
  · rintro ⟨hserves, hasks⟩
    -- Asked at the very start, where every peer is idle.
    refine ⟨?_, ?_⟩
    · intro peer hpeer hanswer chunk hchunk
      obtain ⟨hidle, hheld⟩ := hprepared.fresh peer hpeer
      have hcan := hserves [] _ (.nil _) peer hpeer hanswer chunk hchunk [] List.not_mem_nil
        (by rw [hidle]; decide)
      obtain ⟨-, -, hholds⟩ := of_decide_eq_true (List.mem_filter.mp hcan).2
      rw [hheld, heldBy, hanswer, Option.getD_none] at hholds
      simpa using hholds
    · intro peer hpeer named hanswer chunk hchunk hnamed
      obtain ⟨hidle, hheld⟩ := hprepared.fresh peer hpeer
      have hcan : peer ∈ candidates session chunk.index [] := by
        refine List.mem_filter.mpr ⟨hpeer, decide_eq_true ⟨List.not_mem_nil, ?_, ?_⟩⟩
        · rw [hidle]
          decide
        · rw [hheld, heldBy, hanswer]
          exact hnamed
      have halone : ∀ one ∈ session.peers, one.holder.peerId = peer.holder.peerId →
          one.holder = peer.holder := fun one hone hid =>
        congrArg SwarmPeer.holder (List.inj_on_of_nodup_map hprepared.nodup hone hpeer hid)
      -- It can be made the one that is asked: the others fail first.
      obtain ⟨events, next, hrun, request, hrequest, hholder, hrange⟩ :=
        exists_asked plan ⟨chunk.start, chunk.last⟩ _ (opening session) [] (Nat.lt_succ_self _) hcan
          halone
      have hfirst : Run step (Fetches plan) (opening session) (fetchChunk chunk :: events) next :=
        .cons (fun _ _ _ => ⟨chunk, hchunk, rfl⟩) rfl hrun
      rw [← hrange]
      rw [← hholder] at hanswer
      exact hasks _ next hfirst request hrequest named hanswer
  · intro haligned
    refine ⟨?_, ?_⟩
    · intro events state hrun peer hpeer hanswer chunk hchunk attempted hnot hidle
      obtain ⟨hheld, first, hfirst, hholder⟩ := (kept_of_run hprepared hrun).known peer hpeer
      refine List.mem_filter.mpr ⟨hpeer, decide_eq_true ⟨hnot, hidle, ?_⟩⟩
      rw [hheld, heldBy, hanswer, Option.getD_none, List.range_eq_nil, List.mem_range]
      exact haligned.whole first hfirst (hholder ▸ hanswer) chunk hchunk
    · intro events state hrun request hrequest named hanswer
      obtain ⟨⟨chunk, hchunk, hrange, hindex⟩, hholds, first, hfirst, hholder⟩ :=
        (kept_of_run hprepared hrun).asked request hrequest
      rw [heldBy, hanswer, Option.getD_some, hindex] at hholds
      rw [hrange]
      exact haligned.named first hfirst named (hholder ▸ hanswer) chunk hchunk hholds

/-! ### A file of eight mebibytes -/

def holderOf (peerId : String) : ContentHolder := ⟨peerId, peerId, "films", "dune", 1⟩

/-- Two gateways have the file: one all of it, the other what it names. -/
def eightMebibytes : TransferSourceRef :=
  ⟨some "v1:dune", some (8 * 1024 * 1024), [holderOf "alice", holderOf "bob"]⟩

def naming (pieces : List ℕ) : SwarmWire where
  usable := fun _ => true
  bitfield := fun holder _ _ => if holder.peerId = "bob" then some pieces else none

def sessionNaming (pieces : List ℕ) : SwarmSession where
  contentId := "v1:dune"
  pieceLength := 4 * 1024 * 1024
  pieceCount := 2
  totalBytes := some (8 * 1024 * 1024)
  peers := [freshPeer 2 (holderOf "alice") none, freshPeer 2 (holderOf "bob") (some pieces)]
  delivered := []

theorem prepare_eightMebibytes (pieces : List ℕ) :
    prepare (naming pieces) eightMebibytes = .ok (sessionNaming pieces) := by
  rfl

/-- Chunks as long as the pieces go together with them. -/
theorem serves_iff_eightMebibytes :
    let plan := planChunks (8 * 1024 * 1024) (4 * 1024 * 1024) []
    ServesWhole (naming [0]) (sessionNaming [0]) plan ∧
      AsksWithin (naming [0]) (sessionNaming [0]) plan := by
  intro plan
  have hchunks : ∀ chunk ∈ plan.chunks,
      chunk.index < 2 ∧ (chunk.index = 0 → chunk.last < 4 * 1024 * 1024) := by
    decide +kernel
  refine (serves_iff (prepare_eightMebibytes [0]) _ _ []).mpr ⟨?_, ?_⟩
  · intro peer _ _ chunk hchunk
    exact .inr (hchunks chunk hchunk).1
  · intro peer hpeer named hanswer chunk hchunk hnamed i _ hlast
    have hbob : named = [0] := by
      rcases List.mem_pair.mp hpeer with rfl | rfl
      · cases hanswer
      · exact (Option.some.inj hanswer).symm
    subst hbob
    have hindex : chunk.index = 0 := by simpa using hnamed
    have hfour : chunk.last < 4 * 1024 * 1024 := (hchunks chunk hchunk).2 hindex
    rw [List.mem_singleton]
    exact Nat.div_eq_of_lt (lt_of_le_of_lt hlast hfour)

/-- **The swarm does not serve what its peers have**: the sixth of eight chunks is no piece, and a
peer that names no piece is asked for it. -/
theorem not_serves_eightMebibytes :
    let plan := planChunks (8 * 1024 * 1024) (1024 * 1024) []
    ¬ ServesWhole (naming []) (sessionNaming []) plan ∧
      ¬ AsksWithin (naming []) (sessionNaming []) plan := by
  intro plan
  obtain ⟨chunk, hchunk, hindex, hrange⟩ :
      ∃ chunk ∈ plan.chunks, chunk.index = 5 ∧ chunk.start ≤ chunk.last := by
    decide +kernel
  have hpick : pick (opening (sessionNaming [])).session 5 [] =
      some (freshPeer 2 (holderOf "bob") (some [])) := rfl
  constructor
  · intro hserves
    have hcan := hserves [] _ (.nil _) (freshPeer 2 (holderOf "alice") none) List.mem_cons_self rfl
      chunk hchunk [] List.not_mem_nil (by decide)
    rw [hindex] at hcan
    revert hcan
    decide
  · intro hasks
    have hrun : Run step (Fetches plan) (opening (sessionNaming [])) [fetchChunk chunk]
        (ask (opening (sessionNaming [])) ⟨chunk.start, chunk.last⟩ 5 []) :=
      .cons (fun _ _ _ => ⟨chunk, hchunk, rfl⟩) (by rw [fetchChunk, hindex]; rfl) (.nil _)
    have hwithin := hasks _ _ hrun
      ⟨holderOf "bob", ⟨chunk.start, chunk.last⟩, 5, ["bob"]⟩
      (by rw [ask, hpick]; exact List.mem_cons_self)
      [] rfl chunk.start le_rfl hrange
    exact List.not_mem_nil hwithin

end MediaCenterSync.Transport
