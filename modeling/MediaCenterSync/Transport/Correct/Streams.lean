import Mathlib.Data.List.InsertIdx
import Mathlib.Data.List.Perm.Basic
import MediaCenterSync.Transport.Correct.Swarm

/-!
# The accounts of a swarm

* `forget_step`: but for what the engine reads and destroys, this is the session of `Swarm`.
* `accounted_iff`: over a prepared session, whatever happens, the accounts are right at every moment
  exactly when no stream of a peer that is still asked is destroyed unfinished, and no stream ends
  before its range was received.

A peer's `inFlight` is raised when it is asked and lowered when the request is rejected or its stream
ends or breaks.  A stream destroyed without an error does neither: after four of them the peer is never
asked again (`not_accounted_destroyed`).
-/

namespace MediaCenterSync.Transport

open LabelledRun (Always Free Run)

namespace Streams

variable {s s' : Streams} {session first : SwarmSession}

/-! ### The session underneath -/

theorem forget_ask (s : Streams) (fetch : ℕ) (range : ByteRange) (pieceIndex : ℕ)
    (attempted : List String) :
    (s.ask fetch range pieceIndex attempted).forget =
      Transport.ask s.forget range pieceIndex attempted := by
  have hsession : s.forget.session = s.session := rfl
  unfold ask Transport.ask
  rw [hsession]
  cases pick s.session pieceIndex attempted with
  | none => rfl
  | some peer => simp [forget]

/-- What the swarm does is what it does in `Swarm`. -/
theorem forget_step (s : Streams) (event : SwarmEvent) :
    (step s (.swarm event)).map forget = Transport.step s.forget event := by
  cases event with
  | fetch range chunkIndex => exact congrArg some (forget_ask _ _ _ _ _)
  | opened index =>
    show ((s.waiting[index]?).bind _).map forget = ((s.waiting.map (·.request))[index]?).bind _
    rw [List.getElem?_map]
    cases s.waiting[index]? with
    | none => rfl
    | some attempt => simp [forget, List.eraseIdx_map]
  | rejected index =>
    show ((s.waiting[index]?).bind _).map forget = ((s.waiting.map (·.request))[index]?).bind _
    rw [List.getElem?_map]
    cases s.waiting[index]? with
    | none => rfl
    | some attempt =>
      refine congrArg some ((forget_ask _ _ _ _ _).trans ?_)
      simp [forget, List.eraseIdx_map, Attempt.peerId]
  | ended index elapsed =>
    show ((s.streams[index]?).bind _).map forget =
      ((s.streams.map (·.attempt.request))[index]?).bind _
    rw [List.getElem?_map]
    cases s.streams[index]? with
    | none => rfl
    | some stream => simp [forget, close, SwarmSession.served, List.eraseIdx_map, PieceStream.peerId,
        PieceStream.length, PieceStream.pieceIndex, Attempt.peerId]
  | broken index =>
    show ((s.streams[index]?).bind _).map forget =
      ((s.streams.map (·.attempt.request))[index]?).bind _
    rw [List.getElem?_map]
    cases s.streams[index]? with
    | none => rfl
    | some stream => simp [forget, close, List.eraseIdx_map, PieceStream.peerId, Attempt.peerId]

/-! ### The accounts -/

/-- What a peer has outstanding: requests it has not answered yet, and streams that are neither ended,
nor broken, nor destroyed. -/
def outstanding (s : Streams) (peerId : String) : ℕ :=
  s.waiting.countP (·.peerId = peerId) + s.streams.countP (·.peerId = peerId)

/-- The peers a fetch has asked, one after another. -/
def tried (s : Streams) (fetch : ℕ) : List String :=
  (s.asked.filter (·.fetch = fetch)).map (·.peerId)

/-- All bytes that were asked for under this number were read from a stream. -/
def Received (s : Streams) (pieceIndex : ℕ) : Prop :=
  ∃ stream ∈ s.gone ++ s.streams, stream.pieceIndex = pieceIndex ∧ stream.length ≤ stream.received

instance (s : Streams) (pieceIndex : ℕ) : Decidable (s.Received pieceIndex) :=
  inferInstanceAs (Decidable (∃ stream ∈ s.gone ++ s.streams, _))

/-- The accounts of a session that began with some peers. -/
structure Accounted (first : SwarmSession) (s : Streams) : Prop where
  inFlight : ∀ peer ∈ s.session.peers, peer.inFlight = s.outstanding peer.holder.peerId
  /-- A peer with nothing outstanding is not refused for what it has outstanding. -/
  idle : ∀ peer ∈ s.session.peers, s.outstanding peer.holder.peerId = 0 →
    peer.inFlight < PIPELINE_DEPTH
  /-- A fetch asks a peer once at most, and so no more often than there are peers. -/
  once : ∀ fetch, (s.tried fetch).Nodup ∧ (s.tried fetch).length ≤ first.peers.length
  /-- A fetch waits for an answer, or is over. -/
  settled : ∀ fetch < s.fetches,
    fetch ∈ s.waiting.map (·.fetch) ∨ fetch ∈ s.answered ∨ fetch ∈ s.refused
  delivered : ∀ pieceIndex ∈ s.session.delivered, s.Received pieceIndex

/-- A stream ends when its range was received, and is not destroyed before, unless its peer is asked no
more. -/
def Proper (s : Streams) : StreamEvent → Prop
  | .swarm (.ended index _) => ∀ stream ∈ s.streams[index]?, s.Received stream.pieceIndex
  | .destroyed index => ∀ stream ∈ s.streams[index]?,
      stream.peerId ∉ s.session.peers.map (·.holder.peerId)
  | _ => True

instance : ∀ (s : Streams) (event : StreamEvent), Decidable (s.Proper event)
  | s, .swarm (.ended index _) =>
    inferInstanceAs (Decidable (∀ stream ∈ s.streams[index]?, s.Received stream.pieceIndex))
  | s, .destroyed index => inferInstanceAs (Decidable (∀ stream ∈ s.streams[index]?,
      stream.peerId ∉ s.session.peers.map (·.holder.peerId)))
  | _, .swarm (.fetch ..) | _, .swarm (.opened _) | _, .swarm (.rejected _) | _, .swarm (.broken _)
  | _, .read .. => inferInstanceAs (Decidable True)

/-! ### What is outstanding -/

theorem perm_eraseIdx {α : Type*} {l : List α} {index : ℕ} {one : α} (h : l[index]? = some one) :
    (one :: l.eraseIdx index).Perm l := by
  obtain ⟨hindex, rfl⟩ := List.getElem?_eq_some_iff.mp h
  exact List.getElem_cons_eraseIdx_perm hindex

theorem countP_eraseIdx {α : Type*} {l : List α} {index : ℕ} {one : α} (h : l[index]? = some one)
    (p : α → Bool) : l.countP p = (l.eraseIdx index).countP p + if p one then 1 else 0 := by
  rw [← (perm_eraseIdx h).countP_eq p, List.countP_cons]

theorem ids_read {index bytes : ℕ} {stream : PieceStream} (h : s.streams[index]? = some stream) :
    (s.streams.set index { stream with received := stream.received + bytes }).map (·.peerId) =
      s.streams.map (·.peerId) := by
  have hindex : index < s.streams.length := (List.getElem?_eq_some_iff.mp h).1
  refine List.ext_getElem? fun other => ?_
  rw [List.getElem?_map, List.getElem?_map]
  by_cases hother : index = other
  · rw [← hother, List.getElem?_set_self hindex, h]
    rfl
  · rw [List.getElem?_set_ne hother]

theorem outstanding_read {index bytes : ℕ} {stream : PieceStream}
    (h : s.streams[index]? = some stream) (peerId : String) :
    outstanding { s with
      streams := s.streams.set index { stream with received := stream.received + bytes } } peerId =
        s.outstanding peerId := by
  have hcount : ∀ streams : List PieceStream,
      streams.countP (·.peerId = peerId) = (streams.map (·.peerId)).countP (· = peerId) := by
    intro streams
    rw [List.countP_map]
    rfl
  unfold outstanding
  rw [hcount, hcount, ids_read h]

/-- `inFlight` counts what is outstanding. -/
def Counted (s : Streams) : Prop :=
  ∀ peer ∈ s.session.peers, peer.inFlight = s.outstanding peer.holder.peerId

theorem Counted.update (h : s.Counted) {peerId : String} {f : SwarmPeer → SwarmPeer}
    (hpeers : s'.session.peers = (s.session.update peerId f).peers)
    (hf : ∀ peer, (f peer).holder = peer.holder)
    (hat : ∀ peer, peer.inFlight = s.outstanding peerId →
      (f peer).inFlight = s'.outstanding peerId)
    (helse : ∀ other, other ≠ peerId → s'.outstanding other = s.outstanding other) :
    s'.Counted := by
  intro peer hpeer
  rw [hpeers] at hpeer
  obtain ⟨one, hone, rfl⟩ := mem_update.mp hpeer
  have hcounted := h one hone
  split_ifs with hid
  · rw [hf, hid]
    exact hat one (hid ▸ hcounted)
  · rw [helse _ hid]
    exact hcounted

theorem Counted.dropFailing (h : s.Counted) (peerId : String) :
    Counted { s with session := s.session.dropFailing peerId } :=
  forall_mem_dropFailing peerId h

theorem Counted.ask (h : s.Counted) (fetch : ℕ) (range : ByteRange) (pieceIndex : ℕ)
    (attempted : List String) : (s.ask fetch range pieceIndex attempted).Counted := by
  unfold Streams.ask
  cases pick s.session pieceIndex attempted with
  | none => exact h
  | some peer =>
    refine h.update rfl (fun _ => rfl) (fun one hone => ?_) (fun other hother => ?_)
    · simp only [outstanding, List.countP_append, List.countP_singleton, Attempt.peerId] at hone ⊢
      simp only [decide_true, if_true]
      omega
    · simp only [outstanding, List.countP_append, List.countP_singleton, Attempt.peerId]
      simp [Ne.symm hother]

theorem outstanding_close {index : ℕ} {stream : PieceStream} (h : s.streams[index]? = some stream)
    (session : SwarmSession) (peerId : String) :
    s.outstanding peerId =
      (s.close index stream session).outstanding peerId + if stream.peerId = peerId then 1 else 0 := by
  have hcount := countP_eraseIdx h fun stream => stream.peerId = peerId
  simp only [outstanding, close, hcount, decide_eq_true_eq]
  omega

theorem Counted.close (h : s.Counted) {index : ℕ} {stream : PieceStream}
    (hstream : s.streams[index]? = some stream) {f : SwarmPeer → SwarmPeer}
    (hpeers : session.peers = (s.session.update stream.peerId f).peers)
    (hf : ∀ peer, (f peer).holder = peer.holder)
    (hless : ∀ peer, (f peer).inFlight = peer.inFlight - 1) :
    (s.close index stream session).Counted := by
  have hout := outstanding_close hstream session
  refine h.update hpeers hf (fun peer hpeer => ?_) (fun other hother => ?_)
  · have hhere := hout stream.peerId
    rw [if_pos rfl] at hhere
    rw [hless, hpeer]
    omega
  · have helse := hout other
    rw [if_neg (Ne.symm hother)] at helse
    omega

/-- A stream that goes without being taken from the account of its peer, which has none. -/
theorem Counted.close_of_not_mem (h : s.Counted) {index : ℕ} {stream : PieceStream}
    (hstream : s.streams[index]? = some stream)
    (hgone : stream.peerId ∉ s.session.peers.map (·.holder.peerId)) :
    (s.close index stream s.session).Counted := by
  intro peer hpeer
  have hout := outstanding_close hstream s.session peer.holder.peerId
  have hne : stream.peerId ≠ peer.holder.peerId := by
    intro heq
    exact hgone (heq ▸ List.mem_map_of_mem hpeer)
  rw [if_neg hne] at hout
  rw [h peer hpeer, hout]
  rfl

theorem not_counted_close (h : s.Counted) {index : ℕ} {stream : PieceStream}
    (hstream : s.streams[index]? = some stream)
    (hthere : stream.peerId ∈ s.session.peers.map (·.holder.peerId)) :
    ¬ (s.close index stream s.session).Counted := by
  intro hcounted
  obtain ⟨peer, hpeer, hid⟩ := List.mem_map.mp hthere
  have hbefore := h peer hpeer
  have hafter := hcounted peer hpeer
  have hout := outstanding_close hstream s.session peer.holder.peerId
  rw [if_pos hid.symm] at hout
  omega

/-- **Step lemma** of what is outstanding. -/
theorem counted_step (h : s.Counted) {event : StreamEvent} (hproper : s.Proper event)
    (hstep : step s event = some s') : s'.Counted := by
  cases event with
  | swarm event =>
    cases event with
    | fetch range chunkIndex =>
      have hnext : Counted { s with fetches := s.fetches + 1 } := h
      exact Option.some.inj hstep ▸ hnext.ask _ _ _ _
    -- The request moves from those that wait to the streams: the count is the same.
    | opened index =>
      obtain ⟨attempt, hattempt, hnext⟩ := Option.bind_eq_some_iff.mp hstep
      cases hnext
      intro peer hpeer
      have hcount := countP_eraseIdx hattempt fun attempt => attempt.peerId = peer.holder.peerId
      rw [h peer hpeer]
      have hstreams : (s.streams ++ [PieceStream.mk attempt 0]).countP
          (fun stream => stream.peerId = peer.holder.peerId) =
          s.streams.countP (fun stream => stream.peerId = peer.holder.peerId) +
            if attempt.peerId = peer.holder.peerId then 1 else 0 := by
        rw [List.countP_append, List.countP_singleton]
        simp only [decide_eq_true_eq]
        rfl
      simp only [decide_eq_true_eq] at hcount
      simp only [outstanding, hcount, hstreams]
      omega
    -- One request less for its peer, and then the fetch asks another.
    | rejected index =>
      obtain ⟨attempt, hattempt, hnext⟩ := Option.bind_eq_some_iff.mp hstep
      cases hnext
      refine Counted.ask ?_ _ _ _ _
      have hout : ∀ peerId, s.outstanding peerId =
          outstanding { s with waiting := s.waiting.eraseIdx index } peerId +
            if attempt.peerId = peerId then 1 else 0 := by
        intro peerId
        have hcount := countP_eraseIdx hattempt fun attempt => attempt.peerId = peerId
        simp only [outstanding, hcount, decide_eq_true_eq]
        omega
      have hfailed : Counted { s with
          session := s.session.fail attempt.peerId
          waiting := s.waiting.eraseIdx index } := by
        refine h.update rfl (fun _ => rfl) (fun peer hpeer => ?_) (fun other hother => ?_)
        · have hhere := hout attempt.peerId
          rw [if_pos rfl] at hhere
          show peer.inFlight - 1 = _
          rw [hpeer, hhere]
          rfl
        · have helse := hout other
          rw [if_neg (Ne.symm hother)] at helse
          exact helse.symm
      exact hfailed.dropFailing attempt.peerId
    | ended index elapsed =>
      obtain ⟨stream, hstream, hnext⟩ := Option.bind_eq_some_iff.mp hstep
      cases hnext
      exact h.close hstream rfl (fun _ => rfl) (fun _ => rfl)
    | broken index =>
      obtain ⟨stream, hstream, hnext⟩ := Option.bind_eq_some_iff.mp hstep
      cases hnext
      exact h.close hstream rfl (fun _ => rfl) (fun _ => rfl)
  | read index bytes =>
    obtain ⟨stream, hstream, hnext⟩ := Option.bind_eq_some_iff.mp hstep
    cases hnext
    intro peer hpeer
    exact (h peer hpeer).trans (outstanding_read hstream _).symm
  -- Nothing is lowered; the guard says the peer has left the session.
  | destroyed index =>
    obtain ⟨stream, hstream, hnext⟩ := Option.bind_eq_some_iff.mp hstep
    cases hnext
    exact h.close_of_not_mem hstream (hproper stream hstream)

/-! ### What a fetch tries -/

def Over (s : Streams) (fetch : ℕ) : Prop :=
  fetch ∈ s.waiting.map (·.fetch) ∨ fetch ∈ s.answered ∨ fetch ∈ s.refused

/-- A fetch waits for one peer at a time, and remembers all it has asked. -/
structure Tries (first : SwarmSession) (s : Streams) : Prop where
  peers : ∀ peer ∈ s.session.peers, peer.holder.peerId ∈ first.peers.map (·.holder.peerId)
  known : ∀ attempt ∈ s.asked, attempt.peerId ∈ first.peers.map (·.holder.peerId)
  below : ∀ attempt ∈ s.asked, attempt.fetch < s.fetches
  one : (s.waiting.map (·.fetch)).Nodup
  attempted : ∀ attempt ∈ s.waiting,
    attempt.fetch < s.fetches ∧ attempt.request.attempted = s.tried attempt.fetch
  nodup : ∀ fetch, (s.tried fetch).Nodup

theorem tried_concat (asked : List Attempt) (attempt : Attempt) (fetch : ℕ) :
    ((asked ++ [attempt]).filter fun one => one.fetch = fetch).map Attempt.peerId =
      (asked.filter fun one => one.fetch = fetch).map Attempt.peerId ++
        if attempt.fetch = fetch then [attempt.peerId] else [] := by
  rw [List.filter_append, List.map_append]
  split_ifs with hfetch <;> simp [hfetch]

/-- The next request of a fetch goes to a peer it has not asked. -/
theorem Tries.ask (h : Tries first s) {fetch : ℕ} (hfetch : fetch < s.fetches)
    (hidle : fetch ∉ s.waiting.map (·.fetch)) (range : ByteRange) (pieceIndex : ℕ)
    {attempted : List String} (hattempted : attempted = s.tried fetch) :
    Tries first (s.ask fetch range pieceIndex attempted) := by
  unfold Streams.ask
  cases hpick : pick s.session pieceIndex attempted with
  | none => exact ⟨h.peers, h.known, h.below, h.one, h.attempted, h.nodup⟩
  | some peer =>
    obtain ⟨hpeer, hcan⟩ := List.mem_filter.mp (mem_of_pick hpick)
    have hnew : peer.holder.peerId ∉ attempted := (of_decide_eq_true hcan).1
    have hknown : peer.holder.peerId ∈ first.peers.map (·.holder.peerId) := h.peers peer hpeer
    refine ⟨?_, ?_, ?_, ?_, ?_, ?_⟩
    · exact forall_mem_update (fun _ hone => hone) h.peers
    · intro attempt hattempt
      rcases List.mem_append.mp hattempt with hold | hlast
      · exact h.known attempt hold
      · obtain rfl := List.mem_singleton.mp hlast
        exact hknown
    · intro attempt hattempt
      rcases List.mem_append.mp hattempt with hold | hlast
      · exact h.below attempt hold
      · obtain rfl := List.mem_singleton.mp hlast
        exact hfetch
    · show ((s.waiting ++ [_]).map Attempt.fetch).Nodup
      rw [List.map_append, List.map_singleton, List.nodup_append]
      refine ⟨h.one, List.nodup_singleton _, fun one hone other hother => ?_⟩
      have hthis : other = fetch := List.mem_singleton.mp hother
      rintro rfl
      exact hidle (hthis ▸ hone)
    · intro attempt hattempt
      have htried := tried_concat s.asked
        ⟨fetch, peer.holder, range, pieceIndex, attempted ++ [peer.holder.peerId]⟩ attempt.fetch
      rcases List.mem_append.mp hattempt with hold | hlast
      · obtain ⟨hbelow, heq⟩ := h.attempted attempt hold
        -- another fetch, since this one waits for nobody
        have hother : fetch ≠ attempt.fetch := by
          rintro rfl
          exact hidle (List.mem_map_of_mem hold)
        rw [if_neg hother, List.append_nil] at htried
        exact ⟨hbelow, heq.trans htried.symm⟩
      · obtain rfl := List.mem_singleton.mp hlast
        rw [if_pos rfl] at htried
        refine ⟨hfetch, Eq.trans ?_ htried.symm⟩
        rw [hattempted]
        rfl
    · intro other
      have htried := tried_concat s.asked
        ⟨fetch, peer.holder, range, pieceIndex, attempted ++ [peer.holder.peerId]⟩ other
      show (List.map _ _).Nodup
      rw [htried]
      split_ifs with hother
      · subst hother
        rw [List.nodup_append]
        refine ⟨h.nodup fetch, List.nodup_singleton _, fun one hone other hother => ?_⟩
        rintro rfl
        rw [List.mem_singleton.mp hother] at hone
        exact hnew (hattempted ▸ hone)
      · rw [List.append_nil]
        exact h.nodup other

theorem over_ask (fetch : ℕ) (range : ByteRange) (pieceIndex : ℕ) (attempted : List String)
    (h : ∀ other < s.fetches, other ≠ fetch → s.Over other) :
    ∀ other < (s.ask fetch range pieceIndex attempted).fetches,
      (s.ask fetch range pieceIndex attempted).Over other := by
  unfold Streams.ask
  cases pick s.session pieceIndex attempted with
  | none =>
    intro other hother
    by_cases hthis : other = fetch
    · exact .inr (.inr (List.mem_append_right _ (List.mem_singleton.mpr hthis)))
    · rcases h other hother hthis with hwaiting | hanswered | hrefused
      · exact .inl hwaiting
      · exact .inr (.inl hanswered)
      · exact .inr (.inr (List.mem_append_left _ hrefused))
  | some peer =>
    intro other hother
    by_cases hthis : other = fetch
    · exact .inl (by simp [hthis])
    · rcases h other hother hthis with hwaiting | hover
      · exact .inl (by simp only [List.map_append, List.mem_append]; exact .inl hwaiting)
      · exact .inr hover

/-- Nothing but the peers that are left, the requests and who waits matters to what is tried. -/
theorem Tries.congr (h : Tries first s)
    (hpeers : (s'.session.peers.map (·.holder.peerId)) ⊆ s.session.peers.map (·.holder.peerId))
    (hasked : s'.asked = s.asked) (hfetches : s.fetches ≤ s'.fetches)
    (hwaiting : s'.waiting.Sublist s.waiting) : Tries first s' := by
  have htried : s'.tried = s.tried := by
    unfold tried
    rw [hasked]
  refine ⟨?_, ?_, ?_, (hwaiting.map _).nodup h.one, ?_, ?_⟩
  · intro peer hpeer
    obtain ⟨one, hone, hid⟩ := List.mem_map.mp (hpeers (List.mem_map_of_mem hpeer))
    exact hid ▸ h.peers one hone
  · exact hasked ▸ h.known
  · exact fun attempt hattempt => (h.below attempt (hasked ▸ hattempt)).trans_le hfetches
  · intro attempt hattempt
    obtain ⟨hbelow, heq⟩ := h.attempted attempt (hwaiting.subset hattempt)
    exact ⟨hbelow.trans_le hfetches, by rw [htried]; exact heq⟩
  · exact htried ▸ h.nodup

/-- **Step lemma** of what a fetch tries. -/
theorem tries_step (h : Tries first s ∧ ∀ fetch < s.fetches, s.Over fetch) {event : StreamEvent}
    (hstep : step s event = some s') : Tries first s' ∧ ∀ fetch < s'.fetches, s'.Over fetch := by
  obtain ⟨htries, hover⟩ := h
  -- a stream that goes changes neither the requests nor who waits
  have hclose : ∀ index stream (session : SwarmSession),
      (session.peers.map (·.holder.peerId)) ⊆ s.session.peers.map (·.holder.peerId) →
      Tries first (s.close index stream session) ∧
        ∀ fetch < (s.close index stream session).fetches,
          (s.close index stream session).Over fetch :=
    fun index stream session hpeers =>
      ⟨htries.congr hpeers rfl le_rfl (List.Sublist.refl _), hover⟩
  have hsame : ∀ peerId (f : SwarmPeer → SwarmPeer), (∀ peer, (f peer).holder = peer.holder) →
      (s.session.update peerId f).peers.map (·.holder.peerId) ⊆
        s.session.peers.map (·.holder.peerId) := by
    intro peerId f hf
    rw [ids_update hf]
    exact List.Subset.refl _
  cases event with
  | swarm event =>
    cases event with
    | fetch range chunkIndex =>
      cases hstep
      have hnone : s.tried s.fetches = [] := by
        unfold tried
        rw [List.map_eq_nil_iff, List.filter_eq_nil_iff]
        intro attempt hattempt
        have hbelow := htries.below attempt hattempt
        simp only [decide_eq_true_eq]
        omega
      have hidle : s.fetches ∉ s.waiting.map (·.fetch) := by
        intro hmem
        obtain ⟨attempt, hattempt, hfetch⟩ := List.mem_map.mp hmem
        have hbelow := (htries.attempted attempt hattempt).1
        omega
      have hmore : Tries first { s with fetches := s.fetches + 1 } :=
        htries.congr (List.Subset.refl _) rfl (Nat.le_succ _) (List.Sublist.refl _)
      refine ⟨hmore.ask (Nat.lt_succ_self _) hidle range _ hnone.symm, over_ask _ _ _ _ ?_⟩
      intro other hother hne
      exact hover other (Nat.lt_of_le_of_ne (Nat.le_of_lt_succ hother) hne)
    | opened index =>
      obtain ⟨attempt, hattempt, hnext⟩ := Option.bind_eq_some_iff.mp hstep
      cases hnext
      refine ⟨htries.congr (List.Subset.refl _) rfl le_rfl (List.eraseIdx_sublist _ _),
        fun fetch hfetch => ?_⟩
      rcases hover fetch hfetch with hwaiting | hanswered | hrefused
      · obtain ⟨one, hone, rfl⟩ := List.mem_map.mp hwaiting
        rcases List.mem_cons.mp ((perm_eraseIdx hattempt).mem_iff.mpr hone) with rfl | hstill
        · exact .inr (.inl (List.mem_append_right _ (List.mem_singleton_self _)))
        · exact .inl (List.mem_map_of_mem hstill)
      · exact .inr (.inl (List.mem_append_left _ hanswered))
      · exact .inr (.inr hrefused)
    | rejected index =>
      obtain ⟨attempt, hattempt, hnext⟩ := Option.bind_eq_some_iff.mp hstep
      cases hnext
      have hmem := List.mem_of_getElem? hattempt
      obtain ⟨hbelow, hsofar⟩ := htries.attempted attempt hmem
      have hnodup := ((perm_eraseIdx hattempt).map Attempt.fetch).nodup_iff.mpr htries.one
      have hidle : attempt.fetch ∉ (s.waiting.eraseIdx index).map (·.fetch) :=
        (List.nodup_cons.mp hnodup).1
      have hids : ((s.session.fail attempt.peerId).dropFailing attempt.peerId).peers.map
          (·.holder.peerId) ⊆ s.session.peers.map (·.holder.peerId) := by
        intro id hid
        have hfailed := (ids_dropFailing attempt.peerId).subset hid
        refine hsame attempt.peerId _ ?_ hfailed
        exact fun _ => rfl
      have hfewer : Tries first { s with
          session := (s.session.fail attempt.peerId).dropFailing attempt.peerId
          waiting := s.waiting.eraseIdx index } :=
        htries.congr hids rfl le_rfl (List.eraseIdx_sublist _ _)
      refine ⟨hfewer.ask hbelow hidle _ _ hsofar, over_ask _ _ _ _ fun other hother hne => ?_⟩
      rcases hover other hother with hwaiting | hrest
      · obtain ⟨one, hone, rfl⟩ := List.mem_map.mp hwaiting
        rcases List.mem_cons.mp ((perm_eraseIdx hattempt).mem_iff.mpr hone) with rfl | hstill
        · exact absurd rfl hne
        · exact .inl (List.mem_map_of_mem hstill)
      · exact .inr hrest
    | ended index elapsed =>
      obtain ⟨stream, -, hnext⟩ := Option.bind_eq_some_iff.mp hstep
      cases hnext
      exact hclose _ _ _ (hsame _ _ fun _ => rfl)
    | broken index =>
      obtain ⟨stream, -, hnext⟩ := Option.bind_eq_some_iff.mp hstep
      cases hnext
      exact hclose _ _ _ (hsame _ _ fun _ => rfl)
  | read index bytes =>
    obtain ⟨stream, -, hnext⟩ := Option.bind_eq_some_iff.mp hstep
    cases hnext
    exact ⟨htries.congr (List.Subset.refl _) rfl le_rfl (List.Sublist.refl _), hover⟩
  | destroyed index =>
    obtain ⟨stream, -, hnext⟩ := Option.bind_eq_some_iff.mp hstep
    cases hnext
    exact hclose _ _ _ (List.Subset.refl _)

/-! ### What is delivered -/

theorem Received.mono {pieceIndex : ℕ} (h : s.Received pieceIndex)
    (hmore : ∀ stream ∈ s.gone ++ s.streams, ∃ more ∈ s'.gone ++ s'.streams,
      more.attempt = stream.attempt ∧ stream.received ≤ more.received) : s'.Received pieceIndex := by
  obtain ⟨stream, hstream, rfl, hall⟩ := h
  obtain ⟨more, hmem, heq, hle⟩ := hmore stream hstream
  refine ⟨more, hmem, ?_, ?_⟩
  · rw [PieceStream.pieceIndex, heq]
    rfl
  · rw [PieceStream.length, heq]
    exact hall.trans hle

theorem received_close {index : ℕ} {stream : PieceStream} (h : s.streams[index]? = some stream)
    (session : SwarmSession) (pieceIndex : ℕ) :
    (s.close index stream session).Received pieceIndex ↔ s.Received pieceIndex := by
  have hmem : ∀ one, one ∈ (s.gone ++ [stream]) ++ s.streams.eraseIdx index ↔
      one ∈ s.gone ++ s.streams := by
    intro one
    rw [List.append_assoc, List.singleton_append, List.mem_append, List.mem_append,
      (perm_eraseIdx h).mem_iff]
  exact exists_congr fun one => and_congr_left' (hmem one)

def Delivered (s : Streams) : Prop := ∀ pieceIndex ∈ s.session.delivered, s.Received pieceIndex

theorem delivered_ask (fetch : ℕ) (range : ByteRange) (pieceIndex : ℕ) (attempted : List String)
    (h : s.Delivered) : (s.ask fetch range pieceIndex attempted).Delivered := by
  unfold Streams.ask
  cases pick s.session pieceIndex attempted <;> exact h

/-- **Step lemma** of what is delivered. -/
theorem delivered_step (h : s.Delivered) {event : StreamEvent} (hproper : s.Proper event)
    (hstep : step s event = some s') : s'.Delivered := by
  cases event with
  | swarm event =>
    cases event with
    | fetch range chunkIndex =>
      have hnext : Delivered { s with fetches := s.fetches + 1 } := h
      exact Option.some.inj hstep ▸ delivered_ask _ _ _ _ hnext
    -- A piece that was delivered stays so: what was read of it only grows.
    | opened index =>
      obtain ⟨attempt, -, hnext⟩ := Option.bind_eq_some_iff.mp hstep
      cases hnext
      intro pieceIndex hpiece
      refine (h pieceIndex hpiece).mono fun stream hstream => ⟨stream, ?_, rfl, le_rfl⟩
      simp only [List.mem_append] at hstream ⊢
      tauto
    | rejected index =>
      obtain ⟨attempt, -, hnext⟩ := Option.bind_eq_some_iff.mp hstep
      cases hnext
      have hfailed : Delivered { s with
          session := (s.session.fail attempt.peerId).dropFailing attempt.peerId
          waiting := s.waiting.eraseIdx index } := by
        intro pieceIndex hpiece
        have hsame : ((s.session.fail attempt.peerId).dropFailing attempt.peerId).delivered =
            s.session.delivered := by
          unfold SwarmSession.dropFailing
          split_ifs <;> rfl
        exact h pieceIndex (hsame ▸ hpiece)
      exact delivered_ask _ _ _ _ hfailed
    -- The piece that is delivered now was read to its end, which is the guard.
    | ended index elapsed =>
      obtain ⟨stream, hstream, hnext⟩ := Option.bind_eq_some_iff.mp hstep
      cases hnext
      intro pieceIndex hpiece
      rw [received_close hstream]
      rcases List.mem_append.mp hpiece with hold | hlast
      · exact h pieceIndex hold
      · rw [List.mem_singleton.mp hlast]
        exact hproper stream hstream
    | broken index =>
      obtain ⟨stream, hstream, hnext⟩ := Option.bind_eq_some_iff.mp hstep
      cases hnext
      exact fun pieceIndex hpiece => (received_close hstream _ _).mpr (h pieceIndex hpiece)
  | read index bytes =>
    obtain ⟨stream, hstream, hnext⟩ := Option.bind_eq_some_iff.mp hstep
    cases hnext
    intro pieceIndex hpiece
    refine (h pieceIndex hpiece).mono fun one hone => ?_
    let more : PieceStream := { stream with received := stream.received + bytes }
    rcases List.mem_append.mp hone with hgone | hopen
    · exact ⟨one, List.mem_append_left _ hgone, rfl, le_rfl⟩
    · rcases List.mem_cons.mp ((perm_eraseIdx hstream).mem_iff.mpr hopen) with rfl | hother
      · have hindex : index < s.streams.length := (List.getElem?_eq_some_iff.mp hstream).1
        exact ⟨more, List.mem_append_right _ (List.mem_set hindex more), rfl, Nat.le_add_right _ _⟩
      · refine ⟨one, List.mem_append_right _ ?_, rfl, le_rfl⟩
        obtain ⟨other, hne, hat⟩ := List.mem_eraseIdx_iff_getElem?.mp hother
        refine List.mem_of_getElem? (i := other) ?_
        rw [List.getElem?_set_ne (Ne.symm hne)]
        exact hat
  | destroyed index =>
    obtain ⟨stream, hstream, hnext⟩ := Option.bind_eq_some_iff.mp hstep
    cases hnext
    exact fun pieceIndex hpiece => (received_close hstream _ _).mpr (h pieceIndex hpiece)

/-! ### The accounts of a whole run -/

structure Sound (first : SwarmSession) (s : Streams) : Prop where
  counted : s.Counted
  tries : Tries first s ∧ ∀ fetch < s.fetches, s.Over fetch
  delivered : s.Delivered

theorem delivered_of_prepare {wire : SwarmWire} {source : TransferSourceRef}
    (h : prepare wire source = .ok first) : first.delivered = [] := by
  unfold prepare at h
  split at h
  · cases h
  · dsimp only at h
    split_ifs at h
    exact Except.ok.inj h ▸ rfl

theorem sound_opening {wire : SwarmWire} {source : TransferSourceRef}
    (h : prepare wire source = .ok first) : Sound first (opening first) where
  counted peer hpeer := ((prepared_of_prepare h).fresh peer hpeer).1
  tries := by
    refine ⟨⟨fun peer hpeer => List.mem_map_of_mem hpeer, ?_, ?_, List.nodup_nil, ?_, ?_⟩, ?_⟩
    · exact fun attempt hattempt => absurd hattempt List.not_mem_nil
    · exact fun attempt hattempt => absurd hattempt List.not_mem_nil
    · exact fun attempt hattempt => absurd hattempt List.not_mem_nil
    · exact fun _ => List.nodup_nil
    · exact fun fetch hfetch => absurd hfetch (Nat.not_lt_zero _)
  delivered pieceIndex hpiece := by
    have hnone : pieceIndex ∈ ([] : List ℕ) := delivered_of_prepare h ▸ hpiece
    cases hnone

theorem sound_step {event : StreamEvent} (h : Sound first s) (hproper : s.Proper event)
    (hstep : step s event = some s') : Sound first s' :=
  ⟨counted_step h.counted hproper hstep, tries_step h.tries hstep,
    delivered_step h.delivered hproper hstep⟩

theorem accounted_of_sound (h : Sound first s) : Accounted first s where
  inFlight := h.counted
  idle peer hpeer hnone := by
    rw [h.counted peer hpeer, hnone]
    exact Nat.zero_lt_succ _
  once fetch := by
    refine ⟨h.tries.1.nodup fetch, ?_⟩
    have hsubset : s.tried fetch ⊆ first.peers.map (·.holder.peerId) := by
      intro id hid
      obtain ⟨attempt, hattempt, rfl⟩ := List.mem_map.mp hid
      exact h.tries.1.known attempt (List.mem_of_mem_filter hattempt)
    have hlength := (List.subperm_of_subset (h.tries.1.nodup fetch) hsubset).length_le
    simpa using hlength
  settled := h.tries.2
  delivered := h.delivered

theorem not_accounted_of_not_proper {event : StreamEvent} (h : Sound first s)
    (hnot : ¬ s.Proper event) (hstep : step s event = some s') : ¬ Accounted first s' := by
  intro haccounted
  cases event with
  | swarm event =>
    cases event with
    | ended index elapsed =>
      obtain ⟨stream, hstream, hnext⟩ := Option.bind_eq_some_iff.mp hstep
      cases hnext
      refine hnot fun one hone => ?_
      obtain rfl := Option.some.inj (hstream.symm.trans hone)
      have hlast : stream.pieceIndex ∈ s.session.delivered ++ [stream.pieceIndex] :=
        List.mem_append_right _ (List.mem_singleton_self _)
      exact (received_close hstream _ _).mp (haccounted.delivered _ hlast)
    | fetch | opened | rejected | broken => exact hnot trivial
  | read => exact hnot trivial
  | destroyed index =>
    obtain ⟨stream, hstream, hnext⟩ := Option.bind_eq_some_iff.mp hstep
    cases hnext
    refine hnot fun one hone => ?_
    obtain rfl := Option.some.inj (hstream.symm.trans hone)
    intro hthere
    exact not_counted_close h.counted hstream hthere haccounted.inFlight

/-- **Swarm accounting is exact** over a prepared session exactly when every stream ends with its range
and none is destroyed before it has ended or broken. -/
theorem accounted_iff {wire : SwarmWire} {source : TransferSourceRef}
    (h : prepare wire source = .ok first) {events : List StreamEvent}
    (hrun : Run step Free (opening first) events s) :
    Always step (Accounted first) (opening first) events ↔
      Run step Proper (opening first) events s :=
  hrun.always_iff_of_invariant (fun _ => accounted_of_sound) (fun _ _ _ => sound_step)
    (fun _ _ _ => not_accounted_of_not_proper) (sound_opening h)

/-! ### Two runs -/

def friend : ContentHolder := ⟨"friend", "Friend", "service", "item", 1⟩

def friendWire : SwarmWire := ⟨fun _ => true, fun _ _ _ => none⟩

def small : TransferSourceRef := ⟨some "content", some 4, [friend]⟩

def smallSession : SwarmSession where
  contentId := "content"
  pieceLength := 4 * 1024 * 1024
  pieceCount := 1
  totalBytes := some 4
  peers := [⟨friend, [0], 0, 0, 0⟩]
  delivered := []

theorem prepare_small : prepare friendWire small = .ok smallSession := by decide

def fetchSmall : StreamEvent := .swarm (.fetch ⟨0, 3⟩ (some 0))

/-- Fetched in two reads. -/
theorem accounted_small :
    ∃ s, Run step Free (opening smallSession)
        [fetchSmall, .swarm (.opened 0), .read 0 1, .read 0 3, .swarm (.ended 0 1)] s ∧
      Always step (Accounted smallSession) (opening smallSession)
        [fetchSmall, .swarm (.opened 0), .read 0 1, .read 0 3, .swarm (.ended 0 1)] := by
  exact ⟨_, .ofExec rfl, (accounted_iff prepare_small (.ofExec rfl)).mpr (.ofExec rfl)⟩

/-- Four times the piece is fetched and the transfer paused. -/
def pauses : List StreamEvent :=
  let pause : List StreamEvent := [fetchSmall, .swarm (.opened 0), .read 0 1, .destroyed 0]
  pause ++ pause ++ pause ++ pause

/-- Nothing is outstanding at the friend, and the next fetch is refused. -/
theorem not_accounted_destroyed :
    ∃ s, Run step Free (opening smallSession) (pauses ++ [fetchSmall]) s ∧
      s.outstanding friend.peerId = 0 ∧ s.refused = [4] ∧
      ¬ Always step (Accounted smallSession) (opening smallSession) (pauses ++ [fetchSmall]) := by
  have hrun : ∃ s, Run step Free (opening smallSession) (pauses ++ [fetchSmall]) s ∧
      s.outstanding friend.peerId = 0 ∧ s.refused = [4] ∧
        s.session.peers = [⟨friend, [0], 4, 0, 0⟩] := ⟨_, .ofExec rfl, by decide, by decide, by decide⟩
  obtain ⟨s, hrun, hnone, hrefused, hpeers⟩ := hrun
  refine ⟨s, hrun, hnone, hrefused, fun h => ?_⟩
  have hidle := (h _ [] s (List.append_nil _).symm hrun).idle
  rw [hpeers] at hidle
  have hlt := hidle _ (List.mem_singleton_self _) hnone
  exact absurd hlt (by decide)

end Streams

end MediaCenterSync.Transport
