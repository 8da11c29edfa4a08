import MediaCenterSync.Lib.LabelledRun
import MediaCenterSync.PeerRelay.Service

/-!
# Whether a reservation can still be answered

A `reserve` that has not returned waits for its promise, and should have a way to hear: its callback
installed, and its timer running unless the promise is resolved already.

Closing a session takes both away without resolving anything, which is harmless once `reserve` has
returned.  A holder that closes the session it was just asked for, or a link that is lost while the
holder is thinking, leaves the caller waiting for ever (`orphaned_byClose`).  A run that closes no
session whose `reserve` is waiting orphans none; and one that closes none whose `reserve` has not
returned keeps the callback too (`answerable_of_spares`).

Both are one invariant (`Ok`), for the reservations that are `kept`.
-/

namespace MediaCenterSync.PeerRelay

open LabelledRun

/-- The call has not come back. -/
def Reserve.isPending : Reserve → Bool
  | .waiting | .answered _ => true
  | .returned _ | .threw => false

def Reserve.isWaiting : Reserve → Bool
  | .waiting => true
  | _ => false

/-- Which reservations a run does not close: resolving a promise makes no new one. -/
structure Kept (kept : Reserve → Bool) : Prop where
  pending : ∀ reserve, kept reserve → reserve.isPending
  resolve : ∀ (reserve : Reserve) refusal, kept (reserve.resolve refusal) → kept reserve

theorem kept_isWaiting : Kept Reserve.isWaiting where
  pending reserve h := by cases reserve <;> first | rfl | cases h
  resolve reserve refusal h := by cases reserve <;> first | rfl | cases h

theorem kept_isPending : Kept Reserve.isPending where
  pending _ h := h
  resolve reserve refusal h := by cases reserve <;> first | rfl | cases h

namespace CarriedSession

/-- A `reserve` that has not returned has a way to be answered. -/
def Answerable (session : CarriedSession) : Prop :=
  session.reserve.isPending → session.reserve.isWaiting = false ∨ session.settle ∧ session.timer

/-- Its callback is installed, and its timer is running or its promise resolved. -/
def Installed (session : CarriedSession) : Prop :=
  session.reserve.isPending → session.settle ∧ (session.timer ∨ session.reserve.isWaiting = false)

/-- A reservation that is kept can be answered, and one that has not returned was not handed out. -/
structure Ok (kept : Reserve → Bool) (session : CarriedSession) : Prop where
  installed : kept session.reserve →
    session.settle ∧ (session.timer ∨ session.reserve.isWaiting = false)
  fresh : session.reserve.isPending → session.client = none ∧ session.queue = []

variable {kept : Reserve → Bool} {session : CarriedSession}

theorem isWaiting_resolve (reserve : Reserve) (refusal : Option RelayRefusal) :
    (reserve.resolve refusal).isWaiting = false := by
  cases reserve <;> rfl

theorem isPending_of_resolve {reserve : Reserve} {refusal : Option RelayRefusal}
    (h : (reserve.resolve refusal).isPending) : reserve.isPending := by
  cases reserve <;> first | rfl | cases h

/-- A session that was handed out is safe whatever becomes of it. -/
theorem Ok.of_not_pending (hkept : Kept kept) (h : session.reserve.isPending = false) :
    session.Ok kept where
  installed hk := absurd (hkept.pending _ hk) (by rw [h]; exact Bool.false_ne_true)
  fresh hp := absurd hp (by rw [h]; exact Bool.false_ne_true)

theorem Ok.answer (h : session.Ok kept) (refusal : Option RelayRefusal) :
    (session.answer refusal).Ok kept := by
  unfold CarriedSession.answer
  split
  · next hsettle =>
    exact ⟨fun _ => ⟨hsettle, .inr (isWaiting_resolve ..)⟩,
      fun hp => h.fresh (isPending_of_resolve hp)⟩
  · exact h

theorem Ok.timeout (hkept : Kept kept) (h : session.Ok kept) (refusal : Option RelayRefusal) :
    Ok kept { session with timer := false, reserve := session.reserve.resolve refusal } where
  installed hk := ⟨(h.installed (hkept.resolve _ _ hk)).1, .inr (isWaiting_resolve ..)⟩
  fresh hp := h.fresh (isPending_of_resolve hp)

theorem Ok.close (h : session.Ok kept) (hgone : kept session.reserve = false) :
    session.close.Ok kept where
  installed hk := absurd hk (by
    rw [show session.close.reserve = session.reserve from rfl, hgone]
    exact Bool.false_ne_true)
  fresh hp := by
    obtain ⟨hclient, hqueue⟩ := h.fresh hp
    exact ⟨by rw [CarriedSession.close, hclient]; rfl, hqueue⟩

end CarriedSession

namespace Registration

variable {kept : Reserve → Bool} {r r' : Registration}

def Ok (kept : Reserve → Bool) (r : Registration) : Prop :=
  ∀ id session, r.sessions id = some session → session.Ok kept

/-- The session may be closed: its reservation is not one that is kept. -/
def Gone (kept : Reserve → Bool) (r : Registration) (id : ℕ) : Prop :=
  ∀ session ∈ r.sessions id, kept session.reserve = false

theorem Ok.setSession (h : r.Ok kept) {id : ℕ} {session : CarriedSession}
    (hs : session.Ok kept) : (r.setSession id session).Ok kept := by
  intro k other hother
  change Function.update r.sessions id (some session) k = some other at hother
  rcases eq_or_ne k id with rfl | hne
  · rw [Function.update_self] at hother
    exact Option.some.inj hother ▸ hs
  · rw [Function.update_of_ne hne] at hother
    exact h k other hother

theorem sessions_sendIfOpen (r : Registration) (opcode : RelayOpcode) (id : ℕ)
    (payload : List UInt8) : (r.sendIfOpen opcode id payload).sessions = r.sessions := by
  unfold sendIfOpen
  split <;> rfl

theorem Ok.congr (h : r.Ok kept) (hs : r'.sessions = r.sessions) : r'.Ok kept :=
  fun id session hsession => h id session (hs ▸ hsession)

theorem Ok.closeCarried (h : r.Ok kept) {id : ℕ} (hgone : r.Gone kept id) :
    (r.closeCarried id).Ok kept := by
  unfold Registration.closeCarried
  split
  · exact h
  next session hsession =>
  split
  · exact h
  · have hclosed : (r.setSession id session.close).Ok kept :=
      h.setSession ((h id session hsession).close (hgone session hsession))
    exact hclosed.congr (sessions_sendIfOpen ..)

theorem gone_of_not_pending (hkept : Kept kept) {id : ℕ} {session : CarriedSession}
    (hsession : r.sessions id = some session) (h : session.reserve.isPending = false) :
    r.Gone kept id := by
  intro other hother
  obtain rfl := Option.some.inj (hsession.symm.trans hother)
  exact Bool.eq_false_iff.mpr fun hk => Bool.false_ne_true (h.symm.trans (hkept.pending _ hk))

theorem Ok.forward (hkept : Kept kept) (h : r.Ok kept) {id : ℕ} {session : CarriedSession}
    (hsession : r.sessions id = some session) (hp : session.reserve.isPending = false)
    (write : Write) : (r.forward id write).Ok kept := by
  unfold Registration.forward
  rw [hsession]
  dsimp only
  split
  · exact h
  split
  · have hpaid : CarriedSession.Ok kept { session with
        pending := session.pending + write.payload.length } := .of_not_pending hkept hp
    exact Ok.closeCarried (h.setSession hpaid)
      (gone_of_not_pending hkept (Function.update_self ..) hp)
  · exact h.setSession (.of_not_pending hkept hp)

theorem isPending_eq_false {session : CarriedSession} (h : session.Ok kept)
    (hout : session.client.isSome ∨ session.queue ≠ []) : session.reserve.isPending = false := by
  refine Bool.eq_false_iff.mpr fun hp => ?_
  obtain ⟨hclient, hqueue⟩ := h.fresh hp
  rcases hout with hclient' | hqueue'
  · rw [hclient] at hclient'
    cases hclient'
  · exact hqueue' hqueue

theorem Ok.toClient (hkept : Kept kept) (h : r.Ok kept) {id : ℕ} {frame : RelayFrame}
    (hclose : frame.opcode = .CLOSE → r.Gone kept id) : (r.toClient id frame).Ok kept := by
  unfold Registration.toClient
  split
  · exact h
  next session hsession =>
  have hok := h id session hsession
  have hinbox : Ok kept (r.setSession id { session with inbox := session.inbox ++ [frame] }) :=
    h.setSession ⟨hok.installed, hok.fresh⟩
  have hforward {client : CarriedClient} (hclient : session.client = some client) :
      Ok kept (r.forward id ⟨true, frame.opcode, frame.payload⟩) :=
    h.forward hkept hsession (isPending_eq_false hok (.inl (by rw [hclient]; rfl))) _
  split
  · exact h.setSession (hok.answer none)
  · exact h.setSession (hok.answer _)
  · next hopcode => exact h.closeCarried (hclose hopcode)
  · exact h
  all_goals
    split
    · exact hinbox
    · next hclient => exact hforward hclient

theorem Ok.reserve (h : r.Ok kept) (payload : List UInt8) (throws : Bool) :
    (r.reserve payload throws).Ok kept := by
  have hnew : CarriedSession.Ok kept
      { reserve := if throws then .threw else .waiting, client := none, inbox := [], pending := 0
        queue := [], settle := true, timer := true, closed := false } :=
    ⟨fun _ => ⟨rfl, .inl rfl⟩, fun _ => ⟨rfl, rfl⟩⟩
  have hset : (r.setSession r.next _).Ok kept := h.setSession hnew
  cases throws with
  | false => exact hset.congr rfl
  | true => exact hset.congr rfl

/-! ### What may be closed stays so -/

theorem Gone.setSession {k id : ℕ} {session : CarriedSession} (h : r.Gone kept k)
    (hs : k = id → kept session.reserve = false) : (r.setSession id session).Gone kept k := by
  intro other hother
  change Function.update r.sessions id (some session) k = some other at hother
  rcases eq_or_ne k id with rfl | hne
  · rw [Function.update_self] at hother
    exact Option.some.inj hother ▸ hs rfl
  · rw [Function.update_of_ne hne] at hother
    exact h other hother

theorem Gone.congr {k : ℕ} (h : r.Gone kept k) (hs : r'.sessions = r.sessions) :
    r'.Gone kept k :=
  fun session hsession => h session (hs ▸ hsession)

theorem Gone.closeCarried {k : ℕ} (h : r.Gone kept k) (id : ℕ) :
    (r.closeCarried id).Gone kept k := by
  unfold Registration.closeCarried
  split
  · exact h
  next session hsession =>
  split
  · exact h
  · have hset : (r.setSession id session.close).Gone kept k :=
      h.setSession fun heq => h session (heq ▸ hsession)
    exact hset.congr (sessions_sendIfOpen ..)

theorem Gone.forward {k : ℕ} (h : r.Gone kept k) (id : ℕ) (write : Write) :
    (r.forward id write).Gone kept k := by
  unfold Registration.forward
  split
  · exact h
  next session hsession =>
  have hsame : k = id → kept session.reserve = false := fun heq => h session (heq ▸ hsession)
  dsimp only
  split
  · exact h
  split
  · refine Gone.closeCarried (Gone.setSession h ?_) id
    exact hsame
  · exact h.setSession hsame

theorem Gone.toClient (hkept : Kept kept) {k : ℕ} (h : r.Gone kept k) (id : ℕ)
    (frame : RelayFrame) : (r.toClient id frame).Gone kept k := by
  unfold Registration.toClient
  split
  · exact h
  next session hsession =>
  have hsame : k = id → kept session.reserve = false := fun heq => h session (heq ▸ hsession)
  have hanswer : ∀ refusal, k = id → kept (session.answer refusal).reserve = false := by
    intro refusal heq
    unfold CarriedSession.answer
    split
    · exact Bool.eq_false_iff.mpr fun hk =>
        Bool.false_ne_true ((hsame heq).symm.trans (hkept.resolve _ _ hk))
    · exact hsame heq
  split
  · exact h.setSession (hanswer none)
  · exact h.setSession (hanswer _)
  · exact h.closeCarried id
  · exact h
  · split
    · exact h.setSession hsame
    · exact h.forward id _
  · split
    · exact h.setSession hsame
    · exact h.forward id _

/-- The loop of `attach`: a later frame finds the session as safe as the one before did. -/
theorem Ok.attachLoop (hkept : Kept kept) {id : ℕ} (frames : List RelayFrame) (h : r.Ok kept)
    (hgone : r.Gone kept id) :
    (frames.foldl (fun r frame => r.toClient id frame) r).Ok kept := by
  induction frames generalizing r with
  | nil => exact h
  | cons frame frames ih =>
    exact ih (h.toClient hkept fun _ => hgone) (hgone.toClient hkept id frame)

theorem Ok.write (hkept : Kept kept) (h : r.Ok kept) {id : ℕ} {session : CarriedSession}
    (hp : session.reserve.isPending = false) (write : Write) :
    (r.write id session write).Ok kept := by
  unfold Registration.write
  split
  · exact h
  split
  · split
    · split
      · exact h.setSession (.of_not_pending hkept hp)
      · exact h
    · exact h
  · exact h.congr (sessions_sendIfOpen ..)

/-- **Nothing at one end of a link takes a reservation's answer away**, frames and the loss of the
link apart. -/
theorem Ok.step (hkept : Kept kept) (h : r.Ok kept) {a : Act} (hs : r.step a = some r') :
    r'.Ok kept := by
  cases a with
  | timeout id =>
    obtain ⟨session, hsession, hs⟩ := Option.bind_eq_some_iff.mp hs
    split at hs
    · exact Option.some.inj hs ▸ h.setSession ((h id session hsession).timeout hkept _)
    · cases hs
  | resume id =>
    obtain ⟨session, hsession, hs⟩ := Option.bind_eq_some_iff.mp hs
    split at hs
    · split at hs
      · exact Option.some.inj hs ▸ h.setSession (.of_not_pending hkept rfl)
      · cases hs
        exact (h.setSession (.of_not_pending hkept rfl)).congr rfl
    · cases hs
  | attach id =>
    obtain ⟨session, hsession, hs⟩ := Option.bind_eq_some_iff.mp hs
    split at hs
    · next hreturned =>
      split at hs
      · exact Option.some.inj hs ▸ h
      · cases hs
        have hp : session.reserve.isPending = false := by rw [hreturned.1]; rfl
        refine Ok.attachLoop hkept _ (h.setSession (.of_not_pending hkept hp)) ?_
        exact gone_of_not_pending hkept (Function.update_self ..) hp
    · cases hs
  -- A session with a client, or with a queue, was handed out: its promise is not pending.
  | clientMessage id isBinary data =>
    obtain ⟨session, hsession, hs⟩ := Option.bind_eq_some_iff.mp hs
    split at hs
    · next hclient =>
      have hp := isPending_eq_false (h id session hsession) (.inl hclient)
      exact Option.some.inj hs ▸ h.forward hkept hsession hp _
    · cases hs
  | clientClosed id =>
    obtain ⟨session, hsession, hs⟩ := Option.bind_eq_some_iff.mp hs
    split at hs
    · next hclient =>
      have hp := isPending_eq_false (h id session hsession) (.inl hclient)
      exact Option.some.inj hs ▸ h.closeCarried (gone_of_not_pending hkept hsession hp)
    · cases hs
  | abandon id =>
    obtain ⟨session, hsession, hs⟩ := Option.bind_eq_some_iff.mp hs
    split at hs
    · next hreturned =>
      have hp : session.reserve.isPending = false := by rw [hreturned]; rfl
      exact Option.some.inj hs ▸ h.closeCarried (gone_of_not_pending hkept hsession hp)
    · cases hs
  | paid id ok =>
    obtain ⟨session, hsession, hs⟩ := Option.bind_eq_some_iff.mp hs
    split at hs
    · cases hs
    next next rest hqueue =>
    have hp : session.reserve.isPending = false :=
      isPending_eq_false (h id session hsession) (.inr (by rw [hqueue]; exact List.cons_ne_nil _ _))
    dsimp only at hs
    split at hs
    · cases hs
      refine Ok.write hkept (Ok.setSession h ?_) ?_ next
      · exact .of_not_pending hkept hp
      · exact hp
    · cases hs
      refine Ok.closeCarried (Ok.setSession h ?_) ?_
      · exact .of_not_pending hkept hp
      · exact gone_of_not_pending hkept (Function.update_self ..) hp
  -- What is carried to this gateway leaves the carried sessions as they are.
  | admitted id ok =>
    obtain ⟨socket, -, hs⟩ := Option.bind_eq_some_iff.mp hs
    split at hs
    · dsimp only at hs
      split at hs
      · exact Option.some.inj hs ▸ h
      · exact Option.some.inj hs ▸ h
    · cases hs
  | hostSend id isBinary data =>
    obtain ⟨socket, -, hs⟩ := Option.bind_eq_some_iff.mp hs
    split at hs
    · exact Option.some.inj hs ▸ h.congr (sessions_sendIfOpen ..)
    · exact Option.some.inj hs ▸ h
  | hostClose id =>
    obtain ⟨socket, -, hs⟩ := Option.bind_eq_some_iff.mp hs
    split at hs
    · exact Option.some.inj hs ▸ h.congr (sessions_sendIfOpen ..)
    · exact Option.some.inj hs ▸ h

/-! ### Frames, and the loss of the link -/

theorem sessions_drop (r : Registration) (id : ℕ) : (r.drop id).sessions = r.sessions := by
  unfold drop
  split <;> rfl

theorem sessions_foldl_drop (ids : List ℕ) (r : Registration) :
    (ids.foldl drop r).sessions = r.sessions := by
  induction ids generalizing r with
  | nil => rfl
  | cons id ids ih => rw [List.foldl_cons, ih, sessions_drop]

theorem sessions_host (r : Registration) (ready : Bool) (parses : List UInt8 → Bool)
    (frame : RelayFrame) : (r.host ready parses frame).sessions = r.sessions := by
  unfold host
  dsimp only
  split_ifs <;> rfl

theorem sessions_deliverTo (r : Registration) (id : ℕ) (opcode : RelayOpcode)
    (payload : List UInt8) : (r.deliverTo id opcode payload).sessions = r.sessions := by
  unfold deliverTo
  split
  · split <;> rfl
  · rfl

theorem Ok.dispatch (hkept : Kept kept) (h : r.Ok kept) {ready : Bool}
    {parses : List UInt8 → Bool} {frame : RelayFrame}
    (hclose : frame.opcode = .CLOSE → frame.session ∈ r.carried → r.Gone kept frame.session) :
    (r.dispatch ready parses frame).Ok kept := by
  unfold Registration.dispatch
  split
  · exact h.congr (sessions_host ..)
  split
  · next hcarried => exact h.toClient hkept fun hopcode => hclose hopcode hcarried
  split
  · split
    · exact h.congr (sessions_drop ..)
    · exact h.congr (sessions_deliverTo ..)
    · exact h.congr (sessions_deliverTo ..)
    · exact h
    · exact h
    · exact h
  · exact h

theorem Ok.unregister (h : r.Ok kept) (hgone : r.linked → ∀ id ∈ r.carried, r.Gone kept id) :
    r.unregister.Ok kept := by
  unfold Registration.unregister
  split
  · next hlinked =>
    have key : ∀ (ids : List ℕ) (r : Registration), r.Ok kept → (∀ id ∈ ids, r.Gone kept id) →
        (ids.foldl Registration.closeCarried r).Ok kept := by
      intro ids
      induction ids with
      | nil => exact fun r h _ => h
      | cons id ids ih =>
        intro r h hgone
        refine ih _ (h.closeCarried (hgone id List.mem_cons_self)) fun k hk => ?_
        exact (hgone k (List.mem_cons_of_mem _ hk)).closeCarried id
    have hclosed := key r.carried { r with linked := false } h (hgone hlinked)
    exact hclosed.congr (sessions_foldl_drop _ _)
  · exact h

end Registration

namespace Service

variable {kept : Reserve → Bool} {s s' : Service}

def All (P : CarriedSession → Prop) (s : Service) : Prop :=
  ∀ r ∈ s.links, ∀ id session, r.sessions id = some session → P session

/-- A link can be let go of: it carries no session whose reservation is kept. -/
def Idle (kept : Reserve → Bool) (r : Registration) : Prop :=
  r.linked → ∀ id ∈ r.carried, r.Gone kept id

/-- No step closes a session whose reservation is one that is kept. -/
def Spares (kept : Reserve → Bool) (s : Service) : Act → Prop
  | .unregister link => ∀ r ∈ s.links[link]?, Idle kept r
  | .onModuleDestroy => ∀ r ∈ s.links, Idle kept r
  | .receive link data => ∀ r ∈ s.links[link]?,
      (Framing.Reader.push scanRelayFrame r.reader data).2.failed → Idle kept r
  | .dispatch link => ∀ r ∈ s.links[link]?, ∀ frame ∈ r.arrived.head?,
      frame.opcode = .CLOSE → frame.session ∈ r.carried → r.Gone kept frame.session
  | _ => True

theorem All.modifyLink (h : s.All (CarriedSession.Ok kept)) {link : ℕ}
    {f : Registration → Registration} (hf : ∀ r ∈ s.links[link]?, r.Ok kept → (f r).Ok kept) :
    (s.modifyLink link f).All (CarriedSession.Ok kept) := by
  intro r hr
  obtain ⟨k, hk⟩ := List.mem_iff_getElem?.mp hr
  change (s.links.modify link f)[k]? = some r at hk
  rw [List.getElem?_modify] at hk
  obtain ⟨old, hold, rfl⟩ := Option.map_eq_some_iff.mp hk
  have hok : old.Ok kept := h old (List.mem_of_getElem? hold)
  by_cases hlink : link = k
  · rw [if_pos hlink]
    exact hf old (hlink ▸ hold) hok
  · rw [if_neg hlink]
    exact hok

theorem ok_receive {r : Registration} (h : r.Ok kept) {data : List UInt8}
    (hidle : (Framing.Reader.push scanRelayFrame r.reader data).2.failed → Idle kept r) :
    (receive r data).Ok kept := by
  unfold receive
  dsimp only
  split
  · next hfailed => exact Registration.Ok.unregister h (hidle hfailed)
  · exact h

theorem ok_dispatchNext (hkept : Kept kept) {r : Registration} (h : r.Ok kept) {ready : Bool}
    {parses : List UInt8 → Bool} (hclose : ∀ frame ∈ r.arrived.head?, frame.opcode = .CLOSE →
      frame.session ∈ r.carried → r.Gone kept frame.session) :
    (dispatchNext ready parses r).Ok kept := by
  unfold dispatchNext
  split
  · exact h
  · next frame rest harrived =>
    have hrest : Registration.Ok kept { r with arrived := rest } := h
    exact hrest.dispatch hkept fun hopcode hcarried =>
      hclose frame (by rw [harrived]; rfl) hopcode hcarried

/-- **A step that closes no kept reservation leaves every one a way to be answered.** -/
theorem All.step (hkept : Kept kept) {parses : List UInt8 → Bool} {a : Act}
    (h : s.All (CarriedSession.Ok kept)) (ho : s.Spares kept a)
    (hs : s.step parses a = some s') : s'.All (CarriedSession.Ok kept) := by
  cases a with
  | bind => exact Option.some.inj hs ▸ h
  | register peerId dialled =>
    cases hs
    intro r hr
    rcases List.mem_append.mp hr with hold | hnew
    · exact h r hold
    · obtain rfl := List.mem_singleton.mp hnew
      exact fun _ _ hsession => nomatch hsession
  | transport link isOpen => exact Option.some.inj hs ▸ h.modifyLink fun _ _ hr => hr
  | unregister link =>
    exact Option.some.inj hs ▸ h.modifyLink fun r hr hok => hok.unregister (ho r hr)
  | onModuleDestroy =>
    cases hs
    intro r hr
    obtain ⟨old, hold, rfl⟩ := List.mem_map.mp hr
    exact Registration.Ok.unregister (h old hold) (ho old hold)
  | reserve holderPeerId payload => exact Option.some.inj hs ▸ h
  -- Three refusals leave nothing; an answer makes one session, which is pending.
  | carrying call relayForPeers throws =>
    obtain ⟨ask, -, hs⟩ := Option.bind_eq_some_iff.mp hs
    cases hs
    have hsame : ({ s with asking := s.asking.eraseIdx call } : Service).All
      (CarriedSession.Ok kept) := h
    split
    · exact h
    split
    · exact h
    split
    · exact h
    · exact hsame.modifyLink fun r _ hok => hok.reserve ask.payload throws
  | receive link data =>
    exact Option.some.inj hs ▸ h.modifyLink fun r hr hok => ok_receive hok (ho r hr)
  | dispatch link =>
    exact Option.some.inj hs ▸ h.modifyLink fun r hr hok => ok_dispatchNext hkept hok (ho r hr)
  | «at» link act =>
    obtain ⟨r, hr, hs⟩ := Option.bind_eq_some_iff.mp hs
    obtain ⟨r', hr', hs⟩ := Option.bind_eq_some_iff.mp hs
    cases hs
    have hok : r.Ok kept := h r (List.mem_of_getElem? hr)
    intro other hother
    rcases List.mem_or_eq_of_mem_set hother with hold | rfl
    · exact h other hold
    · exact hok.step hkept hr'

theorem all_of_run (hkept : Kept kept) {parses : List UInt8 → Bool} {as : List Act}
    (h : Run (step parses) (Spares kept) boot as s) : s.All (CarriedSession.Ok kept) :=
  h.invariant (fun _ _ _ h ho hs => h.step hkept ho hs) fun _ hr => nomatch hr

/-- **No reservation is orphaned unless its session is closed under it.**  Where no session is
closed whose `reserve` waits, each that has not returned can still be answered; where none is closed
whose `reserve` has not returned, each has its callback too. -/
theorem answerable_of_spares (parses : List UInt8 → Bool) :
    (∀ {as s}, Run (step parses) (Spares Reserve.isWaiting) boot as s →
      s.All CarriedSession.Answerable) ∧
    ∀ {as s}, Run (step parses) (Spares Reserve.isPending) boot as s →
      s.All CarriedSession.Installed := by
  refine ⟨fun {_ s} h r hr id session hsession hp => ?_, fun h r hr id session hsession hp => ?_⟩
  · have hok := all_of_run kept_isWaiting h r hr id session hsession
    cases hw : session.reserve.isWaiting with
    | false => exact .inl rfl
    | true =>
      obtain ⟨hsettle, htimer⟩ := hok.installed hw
      exact .inr ⟨hsettle, htimer.resolve_right (by rw [hw]; exact Bool.noConfusion)⟩
  · exact (all_of_run kept_isPending h r hr id session hsession).installed hp

/-! ### A holder that is asked for one link -/

instance (kept : Reserve → Bool) (r : Registration) (id : ℕ) : Decidable (r.Gone kept id) :=
  inferInstanceAs (Decidable (∀ session ∈ r.sessions id, kept session.reserve = false))

instance (kept : Reserve → Bool) (r : Registration) : Decidable (Idle kept r) :=
  inferInstanceAs (Decidable (r.linked → ∀ id ∈ r.carried, r.Gone kept id))

instance (kept : Reserve → Bool) (s : Service) : (a : Act) → Decidable (s.Spares kept a)
  | .unregister link => inferInstanceAs (Decidable (∀ r ∈ s.links[link]?, Idle kept r))
  | .onModuleDestroy => inferInstanceAs (Decidable (∀ r ∈ s.links, Idle kept r))
  | .receive link data => inferInstanceAs (Decidable (∀ r ∈ s.links[link]?,
      (Framing.Reader.push scanRelayFrame r.reader data).2.failed → Idle kept r))
  | .dispatch link => inferInstanceAs (Decidable (∀ r ∈ s.links[link]?, ∀ frame ∈ r.arrived.head?,
      frame.opcode = .CLOSE → frame.session ∈ r.carried → r.Gone kept frame.session))
  | .bind | .register .. | .transport .. | .reserve .. | .carrying .. | .at .. => .isTrue trivial

def asked : List Act := [.register "holder" false, .reserve "holder" [], .carrying 0 true false]

/-- A frame without payload for session 1 arrives. -/
def answeredBy (opcode : RelayOpcode) : List Act :=
  [.receive 0 [255, 255, 255, 255, .ofNat opcode.value, 0, 0, 0, 1, 0, 0, 0, 0], .dispatch 0]

theorem answerable_of_spares_accepted :
    ((exec (step fun _ => true) (Spares Reserve.isWaiting) boot (asked ++ answeredBy .ACCEPT ++
      answeredBy .CLOSE)).get (by decide +kernel)).All CarriedSession.Answerable ∧
    ((exec (step fun _ => true) (Spares Reserve.isPending) boot (asked ++ answeredBy .ACCEPT ++
      [.at 0 (.resume 1)] ++ answeredBy .CLOSE)).get (by decide +kernel)).All
      CarriedSession.Installed :=
  ⟨(answerable_of_spares _).1 (.ofExec (Option.some_get _).symm),
    (answerable_of_spares _).2 (.ofExec (Option.some_get _).symm)⟩

/-- **A holder that closes the session it was asked for orphans the reservation**: neither callback
nor timer is left, and nothing was resolved. -/
theorem orphaned_byClose :
    (¬ ∀ (parses : List UInt8 → Bool) as s, Run (step parses) Free boot as s →
      s.All CarriedSession.Answerable) ∧
    ¬ ∀ (parses : List UInt8 → Bool) as s, Run (step parses) Free boot as s →
      s.All CarriedSession.Installed := by
  have hrun : Run (step fun _ => true) Free boot (asked ++ answeredBy .CLOSE)
      ((exec (step fun _ => true) Free boot (asked ++ answeredBy .CLOSE)).get
        (by decide +kernel)) := .ofExec (Option.some_get _).symm
  have horphan : ∃ r ∈ ((exec (step fun _ => true) Free boot (asked ++ answeredBy .CLOSE)).get
      (by decide +kernel)).links, ∃ session ∈ r.sessions 1,
      session.reserve = .waiting ∧ session.settle = false := by decide +kernel
  obtain ⟨r, hr, session, hsession, hwaiting, hsettle⟩ := horphan
  have hp : session.reserve.isPending := by rw [hwaiting]; rfl
  constructor
  · intro h
    rcases h _ _ _ hrun r hr 1 session hsession hp with hnot | hinstalled
    · rw [hwaiting] at hnot
      cases hnot
    · exact Bool.false_ne_true (hsettle.symm.trans hinstalled.1)
  · intro h
    exact Bool.false_ne_true (hsettle.symm.trans (h _ _ _ hrun r hr 1 session hsession hp).1)

end Service

end MediaCenterSync.PeerRelay
