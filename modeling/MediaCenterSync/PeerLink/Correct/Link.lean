import MediaCenterSync.Lib.LabelledRun
import MediaCenterSync.PeerLink.Link

/-!
# Which streams a link still knows

A stream that was handed out and is neither ended nor destroyed should be in `_pending`: that is
where later frames, its end and the loss of the link find it (`Registered`).

Every way an entry goes says something to its stream, except one.  The timer of a request is not
cleared when the stream is handed out, and when it fires it deletes the entry and rejects a promise
that has long resolved; the stream stays open and nothing reaches it any more
(`abandoned_byTimer`).  As long as no timer fires under an open stream (`InTime`), no stream is
abandoned, and only its own end frame ends it (`registered_of_inTime`).
-/

namespace MediaCenterSync.PeerLink

open LabelledRun

variable {V : Type*}

/-! ### One request -/

namespace Request

variable {r : Request V} {state : StreamState}

def HandedOut (r : Request V) (state : StreamState) : Prop :=
  r.outcome = .streaming ∧ ∃ stream ∈ r.stream, stream.state = state

/-- A promise that has resolved with a stream was not settled just now. -/
theorem eq_streaming_of_settle {outcome next : Outcome V} (hnext : next ≠ .streaming)
    (h : outcome.settle next = .streaming) : outcome = .streaming := by
  cases outcome with
  | waiting => exact absurd h hnext
  | streaming => rfl
  | resolved => cases h
  | rejected => cases h

theorem HandedOut.eq_of_destroy {outcome : Outcome V} {timer : Bool}
    (h : HandedOut { r with
      stream := r.stream.map .destroy, outcome := outcome, timer := timer } state) :
    state = .destroyed := by
  obtain ⟨-, stream, hstream, hstate⟩ := h
  obtain ⟨old, -, rfl⟩ := Option.map_eq_some_iff.mp hstream
  exact hstate.symm

theorem HandedOut.of_settle {next : Outcome V} (hnext : next ≠ .streaming)
    (h : HandedOut { r with timer := false, outcome := r.outcome.settle next } state) :
    r.HandedOut state :=
  ⟨eq_streaming_of_settle hnext h.1, h.2⟩

theorem HandedOut.of_write {data : List UInt8}
    (h : HandedOut { r with stream := r.stream.map (·.write data) } state) :
    r.HandedOut state := by
  obtain ⟨houtcome, stream, hstream, hstate⟩ := h
  obtain ⟨old, hold, rfl⟩ := Option.map_eq_some_iff.mp hstream
  refine ⟨houtcome, old, hold, hstate ▸ ?_⟩
  unfold PassThrough.write
  split <;> rfl

theorem HandedOut.ne_live_of_finish
    (h : HandedOut { r with timer := false, stream := r.stream.map .finish } state) :
    state ≠ .live := by
  obtain ⟨-, stream, hstream, rfl⟩ := h
  obtain ⟨old, -, rfl⟩ := Option.map_eq_some_iff.mp hstream
  unfold PassThrough.finish
  split
  · exact StreamState.noConfusion
  · assumption

end Request

/-! ### A link -/

namespace Link

variable {s s' : Link V}

def HandedOut (s : Link V) (id : ℕ) (state : StreamState) : Prop :=
  ∃ request ∈ s.requests id, request.HandedOut state

/-- Every open stream is registered under its identifier. -/
def Registered (s : Link V) : Prop := ∀ id, s.HandedOut id .live → id ∈ s.pending

/-- A step ends a stream only if it is the end frame for its identifier. -/
def EndsByFrame (s : Link V) (a : Act V) (s' : Link V) : Prop :=
  ∀ id, s'.HandedOut id .ended → s.HandedOut id .ended ∨
    ∃ message, a = .text (some message) ∧ message.id = some id ∧ message.error = none ∧
      message.final = true

/-- No timer fires while the stream of its request is open. -/
def InTime (s : Link V) : Act V → Prop
  | .timeout id => ¬ s.HandedOut id .live
  | _ => True

/-- A stream that is open was so before, and keeps its entry. -/
def KeepsLive (s s' : Link V) : Prop :=
  ∀ id, s'.HandedOut id .live → s.HandedOut id .live ∧ (id ∈ s.pending → id ∈ s'.pending)

def KeepsEnded (s s' : Link V) : Prop := ∀ id, s'.HandedOut id .ended → s.HandedOut id .ended

theorem KeepsLive.refl (s : Link V) : KeepsLive s s := fun _ h => ⟨h, id⟩

theorem KeepsEnded.refl (s : Link V) : KeepsEnded s s := fun _ h => h

theorem KeepsLive.registered (h : KeepsLive s s') (hs : s.Registered) : s'.Registered :=
  fun id hlive => (h id hlive).2 (hs id (h id hlive).1)

theorem handedOut_update {id other : ℕ} {f : Request V → Request V} {state : StreamState}
    (h : (s.update id f).HandedOut other state) :
    other ≠ id ∧ s.HandedOut other state ∨
      other = id ∧ ∃ request ∈ s.requests id, (f request).HandedOut state := by
  obtain ⟨request, hrequest, hout⟩ := h
  change Function.update s.requests id _ other = some request at hrequest
  rcases eq_or_ne other id with rfl | hne
  · rw [Function.update_self] at hrequest
    obtain ⟨old, hold, rfl⟩ := Option.map_eq_some_iff.mp hrequest
    exact .inr ⟨rfl, old, hold, hout⟩
  · rw [Function.update_of_ne hne] at hrequest
    exact .inl ⟨hne, request, hrequest, hout⟩

theorem KeepsEnded.update {id : ℕ} {f : Request V → Request V}
    (hf : ∀ request ∈ s.requests id, (f request).HandedOut .ended → request.HandedOut .ended) :
    KeepsEnded s (s.update id f) := by
  intro other h
  rcases handedOut_update h with ⟨-, hold⟩ | ⟨rfl, request, hrequest, hout⟩
  · exact hold
  · exact ⟨request, hrequest, hf request hrequest hout⟩

theorem KeepsLive.update {id : ℕ} {f : Request V → Request V}
    (hf : ∀ request ∈ s.requests id, (f request).HandedOut .live → request.HandedOut .live) :
    KeepsLive s (s.update id f) := by
  intro other h
  rcases handedOut_update h with ⟨-, hold⟩ | ⟨rfl, request, hrequest, hout⟩
  · exact ⟨hold, fun hmem => hmem⟩
  · exact ⟨⟨request, hrequest, hf request hrequest hout⟩, fun hmem => hmem⟩

theorem KeepsLive.forget {id : ℕ} {f : Request V → Request V}
    (hf : ∀ request ∈ s.requests id, ¬ (f request).HandedOut .live) :
    KeepsLive s ((s.forget id).update id f) := by
  intro other h
  rcases handedOut_update h with ⟨hne, hold⟩ | ⟨rfl, request, hrequest, hout⟩
  · exact ⟨hold, fun hmem => List.mem_filter.mpr ⟨hmem, decide_eq_true hne⟩⟩
  · exact absurd hout (hf request hrequest)

theorem keeps_onBinary (s : Link V) (data : List UInt8) :
    KeepsLive s (s.onBinary data) ∧ KeepsEnded s (s.onBinary data) := by
  unfold onBinary
  dsimp only
  split_ifs
  · exact ⟨.refl s, .refl s⟩
  · exact ⟨.refl s, .refl s⟩
  · exact ⟨.update fun _ _ h => h.of_write, .update fun _ _ h => h.of_write⟩
  · exact ⟨.refl s, .refl s⟩

theorem keepsEnded_failed (s : Link V) (id : ℕ) (error : String) :
    KeepsEnded s ((s.forget id).update id (failed error)) :=
  KeepsEnded.update fun _ _ h => nomatch h.eq_of_destroy

/-- A text frame settles its request: an answer, an error, or the end of the stream. -/
theorem onText_spec (s : Link V) (message : Message V) :
    KeepsLive s (s.onText message) ∧ s.EndsByFrame (.text (some message)) (s.onText message) := by
  have hsame : KeepsLive s s ∧ s.EndsByFrame (.text (some message)) s :=
    ⟨.refl s, fun _ h => .inl h⟩
  unfold onText
  split
  · exact hsame
  next id hid =>
  split
  case isFalse => exact hsame
  split
  · exact hsame
  next pending hpending =>
  split
  · -- an error destroys the stream
    exact ⟨.forget fun _ _ h => (nomatch h.eq_of_destroy),
      fun other h => .inl (keepsEnded_failed s id _ other h)⟩
  next hnone =>
  split
  · split
    · -- the end: the one stream that may have ended is its own
      next hfinal =>
      refine ⟨.forget fun _ _ h => h.ne_live_of_finish rfl, fun other h => ?_⟩
      rcases handedOut_update h with ⟨-, hold⟩ | ⟨rfl, -⟩
      · exact .inl hold
      · exact .inr ⟨message, rfl, hid, hnone, hfinal⟩
    · exact hsame
  · -- an answer: the request has no stream
    next hstream =>
    refine ⟨.forget fun request hrequest h => hstream ?_, fun other h => .inl ?_⟩
    · obtain rfl := Option.some.inj (hpending.symm.trans hrequest)
      obtain ⟨-, stream, hmem, -⟩ := h
      exact Option.isSome_iff_exists.mpr ⟨stream, hmem⟩
    · refine KeepsEnded.update (s := s.forget id) (fun request hrequest hout => ?_) other h
      exact hout.of_settle (by simp)

theorem keeps_failAll (s : Link V) (error : String) (hs : s.Registered) :
    KeepsLive s (s.failAll error) ∧ KeepsEnded s (s.failAll error) := by
  have key : ∀ id state, (s.failAll error).HandedOut id state →
      state = .destroyed ∨ s.HandedOut id state ∧ id ∉ s.pending := by
    rintro id state ⟨request, hrequest, hout⟩
    change (if id ∈ s.pending then (s.requests id).map (failed error) else s.requests id) =
      some request at hrequest
    split at hrequest
    · obtain ⟨old, -, rfl⟩ := Option.map_eq_some_iff.mp hrequest
      exact .inl hout.eq_of_destroy
    · next hout' => exact .inr ⟨⟨request, hrequest, hout⟩, hout'⟩
  refine ⟨fun id h => ?_, fun id h => ?_⟩
  · rcases key id _ h with hd | ⟨hold, hgone⟩
    · cases hd
    · exact absurd (hs id hold) hgone
  · rcases key id _ h with hd | ⟨hold, -⟩
    · cases hd
    · exact hold

/-- A timer takes the entry away and leaves the stream as it is. -/
theorem onTimeout_spec {id : ℕ} (hs : s.onTimeout id = some s') :
    (¬ s.HandedOut id .live → KeepsLive s s') ∧ KeepsEnded s s' := by
  obtain ⟨request, hrequest, hs⟩ := Option.bind_eq_some_iff.mp hs
  split at hs
  · cases hs
    refine ⟨fun hclosed => .forget fun r hr h => hclosed ⟨r, hr, h.of_settle (by simp)⟩, ?_⟩
    exact KeepsEnded.update (s := s.forget id) fun _ _ h => h.of_settle (by simp)
  · cases hs

/-- **A step in time keeps every open stream registered.** -/
theorem registered_step {a : Act V} (h : s.Registered) (ha : s.InTime a)
    (hs : s.step a = some s') : s'.Registered := by
  cases a with
  | send method streaming throws =>
    cases hs
    unfold send
    split
    · rintro id ⟨request, hrequest, hout⟩
      rcases eq_or_ne id s.nextRequestId with rfl | hne
      · exact List.mem_append_right _ (List.mem_singleton_self _)
      · change Function.update s.requests _ _ id = some request at hrequest
        rw [Function.update_of_ne hne] at hrequest
        exact List.mem_append_left _ (h id ⟨request, hrequest, hout⟩)
    · exact h
  | binary data => exact Option.some.inj hs ▸ (keeps_onBinary s data).1.registered h
  | text message =>
    cases message with
    | none => exact Option.some.inj hs ▸ h
    | some message => exact Option.some.inj hs ▸ (onText_spec s message).1.registered h
  | timeout id => exact ((onTimeout_spec hs).1 ha).registered h
  | lost error connected =>
    cases hs
    have hfail := (keeps_failAll s error h).1.registered h
    unfold lost
    dsimp only
    split
    · exact hfail
    · exact hfail
  | close => exact Option.some.inj hs ▸ (keeps_failAll s "link closed" h).1.registered h
  | destroy id =>
    cases hs
    exact (KeepsLive.update fun _ _ h => nomatch h.eq_of_destroy).registered h

theorem endsByFrame_step {a : Act V} (h : s.Registered) (hs : s.step a = some s') :
    s.EndsByFrame a s' := by
  have hkept : KeepsEnded s s' → s.EndsByFrame a s' := fun h id hended => .inl (h id hended)
  cases a with
  | send method streaming throws =>
    refine hkept ?_
    cases hs
    unfold send
    split
    · rintro id ⟨request, hrequest, hout⟩
      change Function.update s.requests _ _ id = some request at hrequest
      rcases eq_or_ne id s.nextRequestId with rfl | hne
      · -- a new stream is open
        rw [Function.update_self] at hrequest
        cases hrequest
        obtain ⟨-, stream, hstream, hstate⟩ := hout
        cases streaming with
        | true => cases hstream; cases hstate
        | false => cases hstream
      · rw [Function.update_of_ne hne] at hrequest
        exact ⟨request, hrequest, hout⟩
    · exact .refl s
  | binary data => exact hkept (Option.some.inj hs ▸ (keeps_onBinary s data).2)
  | text message =>
    cases message with
    | none => exact hkept (Option.some.inj hs ▸ .refl s)
    | some message => exact Option.some.inj hs ▸ (onText_spec s message).2
  | timeout id => exact hkept (onTimeout_spec hs).2
  | lost error connected =>
    refine hkept ?_
    cases hs
    have hfail := (keeps_failAll s error h).2
    unfold lost
    dsimp only
    split
    · exact hfail
    · exact hfail
  | close => exact hkept (Option.some.inj hs ▸ (keeps_failAll s "link closed" h).2)
  | destroy id =>
    cases hs
    exact hkept (.update fun _ _ h => nomatch h.eq_of_destroy)

/-- **No stream is abandoned while no timer fires under it**, and only its own end frame ends
one. -/
theorem registered_of_inTime {relays : Bool} {as : List (Act V)}
    (h : Run step InTime (boot relays) as s) :
    s.Registered ∧ ∀ a s', s.step a = some s' → s.EndsByFrame a s' := by
  have hregistered : s.Registered :=
    h.invariant (fun _ _ _ hs ha hstep => registered_step hs ha hstep) fun id hout => by
      obtain ⟨request, hrequest, -⟩ := hout
      cases hrequest
  exact ⟨hregistered, fun _ _ hs => endsByFrame_step hregistered hs⟩

/-! ### A range of a file asked for -/

instance [DecidableEq V] (s : Link V) (id : ℕ) (state : StreamState) :
    Decidable (s.HandedOut id state) :=
  inferInstanceAs (Decidable (∃ request ∈ s.requests id, request.outcome = .streaming ∧
    ∃ stream ∈ request.stream, stream.state = state))

instance [DecidableEq V] (s : Link V) : (a : Act V) → Decidable (s.InTime a)
  | .timeout id => inferInstanceAs (Decidable (¬ s.HandedOut id .live))
  | .send .. | .binary _ | .text _ | .lost .. | .close | .destroy _ => .isTrue trivial

def firstBytes : List (Act Unit) :=
  [.send "media.range" true none, .binary [0, 0, 0, 1, 7, 8]]

theorem registered_of_inTime_ended :
    let s := (exec step InTime (boot false) (firstBytes ++ [.binary [0, 0, 0, 1, 9],
      .text (some ⟨some 1, (), none, true⟩), .lost "link closed" false])).get (by decide)
    s.Registered ∧ ∀ a s', s.step a = some s' → s.EndsByFrame a s' :=
  registered_of_inTime (.ofExec (Option.some_get _).symm)

/-- **The timer of a request abandons its stream**, however the bytes are flowing. -/
theorem abandoned_byTimer : ¬ ∀ (relays : Bool) (as : List (Act Unit)) (s : Link Unit),
    Run step Free (boot relays) as s →
      s.Registered ∧ ∀ a s', s.step a = some s' → s.EndsByFrame a s' := by
  intro h
  have hkept := (h false _ ((exec step Free (boot false) (firstBytes ++ [.timeout 1])).get
    (by decide)) (.ofExec (Option.some_get _).symm)).1
  exact absurd (hkept 1 (by decide)) (by decide)

end Link

end MediaCenterSync.PeerLink
