import MediaCenterSync.PeerRelay.Correct.Session

/-!
# The bytes of one session at the end of a link

What each operation on a link makes of one of its sessions (`Becomes`), and that whatever happens at
the end of a link keeps what has crossed the session in order (`Flows.dispatch`, `Flows.step`).
-/

namespace MediaCenterSync.PeerRelay

namespace Registration

variable {r r' r'' : Registration} {id k : ℕ} {f g : CarriedSession → CarriedSession}

/-- What an operation on a link makes of session `id`. -/
structure Becomes (id : ℕ) (f : CarriedSession → CarriedSession) (r r' : Registration) : Prop where
  next : r'.next = r.next
  isOpen : r'.isOpen = r.isOpen
  session : r'.sessions id = (r.sessions id).map f
  /-- A session is forgotten when it is closed only, and stays closed. -/
  carried : ∀ session ∈ r.sessions id, (f session).closed = false →
    session.closed = false ∧ (id ∈ r.carried → id ∈ r'.carried)

/-- What an operation on session `k` does to session `id`. -/
def onlyAt (k id : ℕ) (f : CarriedSession → CarriedSession) (session : CarriedSession) :
    CarriedSession :=
  if k = id then f session else session

theorem Becomes.trans (h : Becomes id f r r') (h' : Becomes id g r' r'') :
    Becomes id (g ∘ f) r r'' where
  next := h'.next.trans h.next
  isOpen := h'.isOpen.trans h.isOpen
  session := by rw [h'.session, h.session, Option.map_map]
  carried session hsession hclosed := by
    have hsession' : f session ∈ r'.sessions id := by
      rw [h.session, Option.mem_def, Option.map_eq_some_iff]
      exact ⟨session, hsession, rfl⟩
    obtain ⟨hmid, hcarried'⟩ := h'.carried _ hsession' hclosed
    obtain ⟨hfirst, hcarried⟩ := h.carried session hsession hmid
    exact ⟨hfirst, hcarried' ∘ hcarried⟩

theorem Becomes.congr (h : Becomes id f r r') (heq : ∀ session ∈ r.sessions id,
    f session = g session) : Becomes id g r r' where
  next := h.next
  isOpen := h.isOpen
  session := by
    rw [h.session]
    exact Option.map_congr heq
  carried session hsession hclosed := h.carried session hsession (by rwa [heq session hsession])

theorem Becomes.congrAt {session : CarriedSession} (h : Becomes id (onlyAt k id f) r r')
    (hsession : r.sessions k = some session) (heq : f session = g session) :
    Becomes id (onlyAt k id g) r r' := by
  refine h.congr fun other hother => ?_
  unfold onlyAt
  split
  · next hsame =>
    rw [← hsame, hsession] at hother
    cases hother
    exact heq
  · rfl

theorem Becomes.transAt (h : Becomes id (onlyAt k id f) r r')
    (h' : Becomes id (onlyAt k id g) r' r'') : Becomes id (onlyAt k id (g ∘ f)) r r'' := by
  refine (h.trans h').congr fun session _ => ?_
  unfold onlyAt
  simp only [Function.comp]
  split <;> rfl

theorem becomes_same (hnext : r'.next = r.next) (hopen : r'.isOpen = r.isOpen)
    (hsessions : r'.sessions = r.sessions) (hcarried : r'.carried = r.carried) :
    Becomes id (fun session => session) r r' :=
  ⟨hnext, hopen, by rw [hsessions, Option.map_id'],
    fun _ _ hclosed => ⟨hclosed, hcarried ▸ fun h => h⟩⟩

theorem becomes_none (h : r.sessions k = none) : Becomes id (onlyAt k id f) r r := by
  refine ⟨rfl, rfl, ?_, fun session hsession hclosed => ?_⟩
  · unfold onlyAt
    split
    · next heq =>
      rw [← heq, h]
      rfl
    · rw [Option.map_id']
  · unfold onlyAt at hclosed
    split at hclosed
    · next heq =>
      rw [← heq, h] at hsession
      cases hsession
    · exact ⟨hclosed, fun h => h⟩

theorem becomes_setSession {session : CarriedSession} (hsession : r.sessions k = some session)
    (hclosed : (f session).closed = false → session.closed = false) (hsame : r' =
      r.setSession k (f session) ∨
        (f session).closed ∧ r' = (r.setSession k (f session)).forgetCarried k) :
    Becomes id (onlyAt k id f) r r' := by
  have hsessions : r'.sessions = Function.update r.sessions k (some (f session)) := by
    obtain rfl | ⟨-, rfl⟩ := hsame <;> rfl
  have hfixed : r'.next = r.next ∧ r'.isOpen = r.isOpen := by
    obtain rfl | ⟨-, rfl⟩ := hsame <;> exact ⟨rfl, rfl⟩
  refine ⟨hfixed.1, hfixed.2, ?_, fun other hother hopen => ?_⟩
  · rw [hsessions]
    unfold onlyAt
    split
    · next heq =>
      rw [← heq, Function.update_self, hsession]
      rfl
    · next hne => rw [Function.update_of_ne (Ne.symm hne), Option.map_id']
  · unfold onlyAt at hopen
    split at hopen
    · next heq =>
      rw [← heq, hsession] at hother
      cases hother
      refine ⟨hclosed hopen, fun hmem => ?_⟩
      obtain rfl | ⟨hshut, -⟩ := hsame
      · exact hmem
      · rw [hopen] at hshut
        cases hshut
    · next hne =>
      refine ⟨hopen, fun hmem => ?_⟩
      obtain rfl | ⟨-, rfl⟩ := hsame
      · exact hmem
      · exact List.mem_filter.mpr ⟨hmem, by simpa using Ne.symm hne⟩

theorem becomes_sendIfOpen (h : Becomes id f r r') (opcode : RelayOpcode) (n : ℕ)
    (payload : List UInt8) : Becomes id f r (r'.sendIfOpen opcode n payload) := by
  unfold sendIfOpen
  split
  · exact ⟨h.next, h.isOpen, h.session, h.carried⟩
  · exact h

theorem becomes_closeCarried (r : Registration) (k id : ℕ) :
    Becomes id (onlyAt k id CarriedSession.ended) r (r.closeCarried k) := by
  unfold closeCarried
  split
  · next hnone => exact becomes_none hnone
  next session hsession =>
  split
  · next hclosed =>
    have hended : session.ended = session := if_pos hclosed
    have hset : r.setSession k session = r := by
      unfold setSession
      rw [← hsession, Function.update_eq_self]
    refine becomes_setSession hsession ?_ (.inl ?_)
    · rw [hended]
      exact fun h => h
    · rw [hended, hset]
  · next hclosed =>
    have hended : session.ended = session.close := if_neg hclosed
    refine becomes_sendIfOpen (becomes_setSession hsession ?_ (.inr ⟨?_, ?_⟩)) _ _ _
    · exact fun _ => Bool.eq_false_iff.mpr hclosed
    · exact session.ended_closed
    · rw [hended]

theorem becomes_forward (r : Registration) (k id : ℕ) (write : Write) :
    Becomes id (onlyAt k id (·.forwarded write)) r (r.forward k write) := by
  unfold forward
  split
  · next hnone => exact becomes_none hnone
  next session hsession =>
  dsimp only
  split
  · next hclosed =>
    have hforwarded : session.forwarded write = session := if_pos hclosed
    have hset : r.setSession k session = r := by
      unfold setSession
      rw [← hsession, Function.update_eq_self]
    refine becomes_setSession hsession ?_ (.inl ?_)
    · rw [hforwarded]
      exact fun h => h
    · rw [hforwarded, hset]
  next hclosed =>
  have hopen : session.closed = false := Bool.eq_false_iff.mpr hclosed
  split
  · next hover =>
    have hpending : Becomes id (onlyAt k id fun session =>
        { session with pending := session.pending + write.payload.length }) r (r.setSession k
          { session with pending := session.pending + write.payload.length }) :=
      becomes_setSession hsession (fun h => h) (.inl rfl)
    refine (hpending.transAt (becomes_closeCarried _ k id)).congrAt hsession ?_
    simp [CarriedSession.forwarded, hopen, hover]
  · next hfits =>
    refine becomes_setSession hsession (fun _ => hopen) (.inl ?_)
    simp [CarriedSession.forwarded, hopen, hfits]

theorem becomes_toClient (r : Registration) (k id : ℕ) (frame : RelayFrame) :
    Becomes id (onlyAt k id (·.told frame)) r (r.toClient k frame) := by
  unfold toClient
  split
  · next hnone => exact becomes_none hnone
  next session hsession =>
  have hanswer : ∀ refusal, Becomes id (onlyAt k id (·.answer refusal)) r
      (r.setSession k (session.answer refusal)) := by
    refine fun refusal => becomes_setSession hsession ?_ (.inl rfl)
    unfold CarriedSession.answer
    split <;> exact fun h => h
  have hinbox : Becomes id (onlyAt k id fun session =>
      { session with inbox := session.inbox ++ [frame] }) r
        (r.setSession k { session with inbox := session.inbox ++ [frame] }) :=
    becomes_setSession hsession (fun h => h) (.inl rfl)
  obtain ⟨opcode, n, payload⟩ := frame
  cases opcode
  case ACCEPT => exact hanswer none
  case REFUSE => exact hanswer _
  case CLOSE => exact becomes_closeCarried r k id
  case OPEN =>
    refine (becomes_same rfl rfl rfl rfl).congr fun session _ => ?_
    unfold onlyAt
    split <;> rfl
  case TEXT | BINARY =>
    dsimp only
    split
    · next hclient => exact hinbox.congrAt hsession (by simp only [CarriedSession.told, hclient])
    · next hclient =>
      refine (becomes_forward r k id _).congrAt hsession ?_
      simp only [CarriedSession.told, hclient]

theorem becomes_attachLoop (frames : List RelayFrame) (r : Registration) (k id : ℕ) :
    Becomes id (onlyAt k id (frames.foldl CarriedSession.told ·)) r
      (frames.foldl (fun r frame => r.toClient k frame) r) := by
  induction frames generalizing r with
  | nil =>
    refine (becomes_same rfl rfl rfl rfl).congr fun session _ => ?_
    unfold onlyAt
    split <;> rfl
  | cons frame frames ih => exact (becomes_toClient r k id frame).transAt (ih _)

/-- The messages that a step hands to the transport. -/
def handedOver (r r' : Registration) : List Message :=
  (r'.outbox.drop r.outbox.length).flatMap RelayFrame.messages

theorem handedOver_of_eq (h : r'.outbox = r.outbox) : handedOver r r' = [] := by
  unfold handedOver
  rw [h, List.drop_length, List.flatMap_nil]

theorem handedOver_sendIfOpen (h : r'.outbox = r.outbox) (opcode : RelayOpcode) (n : ℕ)
    (payload : List UInt8) : handedOver r (r'.sendIfOpen opcode n payload) =
      if r'.isOpen then RelayFrame.messages ⟨opcode, n, payload⟩ else [] := by
  unfold sendIfOpen
  split
  · unfold handedOver send
    rw [h, List.drop_left]
    exact List.append_nil _
  · exact handedOver_of_eq h

theorem handedOver_closeCarried (h : r'.outbox = r.outbox) :
    handedOver r (r'.closeCarried k) = [] := by
  unfold closeCarried
  split
  · exact handedOver_of_eq h
  next session _ =>
  split
  · exact handedOver_of_eq h
  · have hout : ((r'.setSession k session.close).forgetCarried k).outbox = r.outbox := h
    rw [handedOver_sendIfOpen hout]
    split <;> rfl

theorem paid_spec {ok : Bool} (hs : r.paid k ok = some r') :
    ∃ session next rest, r.sessions k = some session ∧ session.queue = next :: rest ∧
      (∀ id, Becomes id (onlyAt k id (·.paidFor ok next rest)) r r') ∧
      (next.opcode.isData → handedOver r r' = session.handed r.isOpen ok next) := by
  obtain ⟨session, hsession, hs⟩ := Option.bind_eq_some_iff.mp hs
  split at hs
  · cases hs
  next next rest hqueue =>
  refine ⟨session, next, rest, hsession, hqueue, ?_⟩
  dsimp only at hs
  split at hs
  · next hok =>
    cases hs
    let taken : CarriedSession := { session with
      queue := rest, pending := session.pending - next.payload.length }
    have htaken : ∀ id, Becomes id (onlyAt k id fun session => { session with
        queue := rest, pending := session.pending - next.payload.length }) r
          (r.setSession k taken) := fun id =>
      becomes_setSession hsession (fun h => h) (.inl rfl)
    -- Where nothing is written, the session only loses the head of its queue.
    have hsame : ∀ id, session.paidFor ok next rest = taken →
        Becomes id (onlyAt k id (·.paidFor ok next rest)) r (r.setSession k taken) :=
      fun id hpaid => (htaken id).congrAt hsession hpaid.symm
    change (∀ id, Becomes id _ r ((r.setSession k taken).write k taken next)) ∧
      (next.opcode.isData → handedOver r ((r.setSession k taken).write k taken next) = _)
    unfold write
    split
    · next hclosed =>
      have hclosed : session.closed := hclosed
      refine ⟨fun id => hsame id ?_, fun _ => ?_⟩
      · simp [CarriedSession.paidFor, taken, hok, hclosed]
      · rw [handedOver_of_eq (by rfl)]
        simp [CarriedSession.handed, hclosed]
    next hclosed =>
    have hclosed : session.closed = false := Bool.eq_false_iff.mpr hclosed
    split
    · next hside =>
      have hnothing : session.handed r.isOpen ok next = [] := by
        simp [CarriedSession.handed, hside]
      rw [hnothing]
      split
      · next client hclient =>
        have hclient : session.client = some client := hclient
        dsimp only
        split
        · next hopen =>
          refine ⟨fun id => ?_, fun _ => handedOver_of_eq rfl⟩
          have hset : Becomes id (onlyAt k id (·.paidFor ok next rest)) r
              (r.setSession k (session.paidFor ok next rest)) := by
            refine becomes_setSession hsession ?_ (.inl rfl)
            simp [CarriedSession.paidFor, hok, hclosed]
          -- Two writes of the session, one after the other, are the second one.
          have hpaid : (r.setSession k taken).setSession k { taken with
              client := some { client with received := client.received ++ [(next.opcode,
                if next.opcode = .BINARY then next.payload else Text.recode next.payload)] } } =
                r.setSession k (session.paidFor ok next rest) := by
            simp [CarriedSession.paidFor, taken, hok, hclosed, hside, hclient, hopen, setSession]
          exact hpaid ▸ hset
        · next hopen =>
          refine ⟨fun id => hsame id ?_, fun _ => handedOver_of_eq rfl⟩
          simp [CarriedSession.paidFor, taken, hok, hclosed, hside, hclient, hopen]
      · next hclient =>
        have hclient : session.client = none := hclient
        refine ⟨fun id => hsame id ?_, fun _ => handedOver_of_eq rfl⟩
        simp [CarriedSession.paidFor, taken, hok, hclosed, hside, hclient]
    · -- For the holder: the session stays as it is, and the link gets a frame.
      next hside =>
      refine ⟨fun id => becomes_sendIfOpen (hsame id ?_) _ _ _, fun hnext => ?_⟩
      · simp [CarriedSession.paidFor, taken, hok, hclosed, hside]
      · have hout : (r.setSession k taken).outbox = r.outbox := rfl
        rw [handedOver_sendIfOpen hout]
        simp [CarriedSession.handed, hok, hclosed, hside, RelayFrame.messages, hnext, setSession,
          RelayFrame.message]
  · next hok =>
    cases hs
    refine ⟨fun id => ?_, fun _ => ?_⟩
    · have htaken : Becomes id (onlyAt k id fun session => { session with queue := rest }) r
          (r.setSession k { session with queue := rest }) :=
        becomes_setSession hsession (fun h => h) (.inl rfl)
      refine (htaken.transAt (becomes_closeCarried _ k id)).congrAt hsession ?_
      simp [CarriedSession.paidFor, hok]
    · have hout : (r.setSession k { session with queue := rest }).outbox = r.outbox := rfl
      rw [handedOver_closeCarried hout]
      simp [CarriedSession.handed, hok]

/-! ### What has crossed a session of a link -/

variable {fromHolder fromClient toHolder fromHolder' fromClient' toHolder' : List Message}

/-- The session, if it was asked for, and what has crossed it. -/
structure Flows (r : Registration) (id : ℕ) (fromHolder fromClient toHolder : List Message) :
    Prop where
  unborn : r.next ≤ id → r.sessions id = none
  nothing : r.sessions id = none → fromHolder = [] ∧ fromClient = [] ∧ toHolder = []
  carried : ∀ session ∈ r.sessions id, session.closed = false → id ∈ r.carried
  flows : ∀ session ∈ r.sessions id, session.Flows r.isOpen fromHolder fromClient toHolder

theorem Flows.becomes (h : r.Flows id fromHolder fromClient toHolder) (hb : Becomes id f r r')
    (hnone : r.sessions id = none → fromHolder' = [] ∧ fromClient' = [] ∧ toHolder' = [])
    (hf : ∀ session ∈ r.sessions id, session.Flows r.isOpen fromHolder fromClient toHolder →
      (f session).Flows r.isOpen fromHolder' fromClient' toHolder') :
    r'.Flows id fromHolder' fromClient' toHolder' where
  unborn hle := by rw [hb.session, h.unborn (hb.next ▸ hle), Option.map_none]
  nothing hn := by
    rw [hb.session, Option.map_eq_none_iff] at hn
    exact hnone hn
  carried session hsession hclosed := by
    rw [hb.session] at hsession
    obtain ⟨old, hold, rfl⟩ := Option.map_eq_some_iff.mp hsession
    obtain ⟨hopen, hkept⟩ := hb.carried old hold hclosed
    exact hkept (h.carried old hold hopen)
  flows session hsession := by
    rw [hb.session] at hsession
    obtain ⟨old, hold, rfl⟩ := Option.map_eq_some_iff.mp hsession
    rw [hb.isOpen]
    exact hf old hold (h.flows old hold)

/-- An operation on session `k` that brings nothing and takes nothing. -/
theorem Flows.onlyAt (h : r.Flows id fromHolder fromClient toHolder)
    (hb : Becomes id (Registration.onlyAt k id f) r r')
    (hf : k = id → ∀ session ∈ r.sessions id,
      session.Flows r.isOpen fromHolder fromClient toHolder →
        (f session).Flows r.isOpen fromHolder fromClient toHolder) :
    r'.Flows id fromHolder fromClient toHolder := by
  refine h.becomes hb h.nothing fun session hsession hflows => ?_
  unfold Registration.onlyAt
  split
  · next heq => exact hf heq session hsession hflows
  · exact hflows

theorem Flows.same (h : r.Flows id fromHolder fromClient toHolder) (hnext : r'.next = r.next)
    (hopen : r'.isOpen = r.isOpen) (hsessions : r'.sessions = r.sessions)
    (hcarried : r'.carried = r.carried) : r'.Flows id fromHolder fromClient toHolder :=
  h.becomes (becomes_same hnext hopen hsessions hcarried) h.nothing fun _ _ hflows => hflows

theorem Flows.lost (h : r.Flows id fromHolder fromClient toHolder) :
    Flows { r with isOpen := false } id fromHolder fromClient toHolder where
  unborn := h.unborn
  nothing := h.nothing
  carried := h.carried
  flows session hsession := (h.flows session hsession).lost

theorem Flows.closing (h : r.Flows id fromHolder fromClient toHolder) {session : CarriedSession}
    (hsession : r.sessions id = some session) {client : CarriedClient}
    (hclient : session.client = some client) :
    (r.setSession id { session with client := some { client with isOpen := false } }).Flows id
      fromHolder fromClient toHolder := by
  have hb : Becomes id (Registration.onlyAt id id fun session => { session with
      client := some { client with isOpen := false } }) r
        (r.setSession id { session with client := some { client with isOpen := false } }) :=
    becomes_setSession hsession (fun h => h) (.inl rfl)
  refine h.onlyAt hb fun _ other hother hflows => ?_
  obtain rfl := Option.some.inj (hsession.symm.trans hother)
  exact hflows.closing hclient

theorem Flows.closeCarried (h : r.Flows id fromHolder fromClient toHolder) (k : ℕ) :
    (r.closeCarried k).Flows id fromHolder fromClient toHolder :=
  h.onlyAt (becomes_closeCarried r k id) fun _ _ _ hflows => hflows.ended

theorem Flows.sendIfOpen (h : r.Flows id fromHolder fromClient toHolder) (opcode : RelayOpcode)
    (n : ℕ) (payload : List UInt8) :
    (r.sendIfOpen opcode n payload).Flows id fromHolder fromClient toHolder := by
  unfold Registration.sendIfOpen
  split
  · exact h.same rfl rfl rfl rfl
  · exact h

theorem Flows.drop (h : r.Flows id fromHolder fromClient toHolder) (k : ℕ) :
    (r.drop k).Flows id fromHolder fromClient toHolder := by
  unfold Registration.drop
  split
  · exact h.same rfl rfl rfl rfl
  · exact h.same rfl rfl rfl rfl

theorem Flows.unregister (h : r.Flows id fromHolder fromClient toHolder) :
    r.unregister.Flows id fromHolder fromClient toHolder := by
  have hclose : ∀ (ids : List ℕ) (r : Registration), r.Flows id fromHolder fromClient toHolder →
      (ids.foldl Registration.closeCarried r).Flows id fromHolder fromClient toHolder := by
    intro ids
    induction ids with
    | nil => exact fun _ h => h
    | cons k ids ih => exact fun r h => ih _ (h.closeCarried k)
  have hdrop : ∀ (ids : List ℕ) (r : Registration), r.Flows id fromHolder fromClient toHolder →
      (ids.foldl Registration.drop r).Flows id fromHolder fromClient toHolder := by
    intro ids
    induction ids with
    | nil => exact fun _ h => h
    | cons k ids ih => exact fun r h => ih _ (h.drop k)
  unfold Registration.unregister
  split
  · exact hdrop _ _ (hclose _ _ (h.same rfl rfl rfl rfl))
  · exact h

theorem Flows.host (h : r.Flows id fromHolder fromClient toHolder) (ready : Bool)
    (parses : List UInt8 → Bool) (frame : RelayFrame) :
    (r.host ready parses frame).Flows id fromHolder fromClient toHolder := by
  unfold Registration.host
  dsimp only
  split_ifs <;> exact h.same rfl rfl rfl rfl

theorem Flows.deliverTo (h : r.Flows id fromHolder fromClient toHolder) (k : ℕ)
    (opcode : RelayOpcode) (payload : List UInt8) :
    (r.deliverTo k opcode payload).Flows id fromHolder fromClient toHolder := by
  unfold Registration.deliverTo
  split
  · split
    · exact h.same rfl rfl rfl rfl
    · exact h
  · exact h

/-- A session that is asked for has had nothing cross it. -/
theorem Flows.reserve (h : r.Flows id fromHolder fromClient toHolder) (payload : List UInt8)
    (throws : Bool) : (r.reserve payload throws).Flows id fromHolder fromClient toHolder := by
  have hasked : ∀ session : CarriedSession, session.client = none → session.inbox = [] →
      session.queue = [] → session.pending = 0 → session.Flows r.isOpen [] [] [] := by
    intro session hclient hinbox hqueue hpending
    have hno : ∀ client, client ∉ session.client := fun client hc => by
      rw [hclient] at hc
      cases hc
    refine ⟨⟨by rw [hinbox]; exact nofun, by rw [hqueue]; exact nofun⟩,
      fun _ => ⟨hqueue, rfl, rfl, fun _ => by rw [hinbox]; rfl⟩, fun c hc => (hno c hc).elim,
      fun _ c hc => (hno c hc).elim, List.prefix_refl _, fun _ _ => by rw [hqueue]; rfl,
      fun _ => ⟨?_, ?_⟩, ?_, ?_⟩
    · rw [hpending, CarriedSession.queuedBytes, hqueue]
      rfl
    · exact hpending ▸ Nat.zero_le _
    · rw [CarriedSession.inboxBytes, hinbox]
      exact Nat.zero_le _
    · rw [CarriedSession.queuedBytes, hqueue]
      exact Nat.zero_le _
  have hnew : ∀ (r' : Registration) (session : CarriedSession), session.client = none →
      session.inbox = [] → session.queue = [] → session.pending = 0 → r'.isOpen = r.isOpen →
      r'.next = r.next + 2 → r'.carried = r.carried ++ [r.next] →
      r'.sessions = Function.update r.sessions r.next (some session) →
      r'.Flows id fromHolder fromClient toHolder := by
    intro r' session hclient hinbox hqueue hpending hopen hnext hcarried hsessions
    rcases eq_or_ne id r.next with rfl | hne
    · obtain ⟨rfl, rfl, rfl⟩ := h.nothing (h.unborn (Nat.le_refl _))
      refine ⟨fun hle => ?_, fun _ => ⟨rfl, rfl, rfl⟩, fun _ _ _ => ?_, fun other hother => ?_⟩
      · omega
      · rw [hcarried]
        exact List.mem_append_right _ List.mem_cons_self
      · rw [hsessions, Function.update_self] at hother
        cases hother
        exact hopen ▸ hasked _ hclient hinbox hqueue hpending
    · have hsame : r'.sessions id = r.sessions id := by
        rw [hsessions, Function.update_of_ne hne]
      refine ⟨fun hle => hsame ▸ h.unborn (by omega), fun hn => h.nothing (hsame ▸ hn),
        fun other hother hclosed => ?_, fun other hother => ?_⟩
      · rw [hcarried]
        exact List.mem_append_left _ (h.carried other (hsame ▸ hother) hclosed)
      · exact hopen ▸ h.flows other (hsame ▸ hother)
  unfold Registration.reserve
  cases throws with
  | true => exact hnew _ _ rfl rfl rfl rfl rfl rfl rfl rfl
  | false => exact hnew _ _ rfl rfl rfl rfl rfl rfl rfl rfl

/-- What a frame brings session `id`, if there is one. -/
def brings (r : Registration) (id : ℕ) (frame : RelayFrame) : List Message :=
  if frame.session = id ∧ (r.sessions id).isSome then frame.messages else []

/-- A message that is to wait for its client finds room. -/
def HasRoom (r : Registration) (id : ℕ) (frame : RelayFrame) : Prop :=
  frame.session = id → id ∈ r.carried → frame.opcode.isData → ∀ session ∈ r.sessions id,
    session.client = none →
      session.inboxBytes + frame.payload.length ≤ RELAY_MAX_BUFFERED_BYTES

/-- A frame that finds no session it could go to leaves things as they are. -/
theorem Flows.unheard (h : r.Flows id fromHolder fromClient toHolder) {frame : RelayFrame}
    (hcarried : frame.session ∉ r.carried) :
    r.Flows id (fromHolder ++ r.brings id frame) fromClient toHolder := by
  unfold brings
  split
  · next hours =>
    obtain ⟨rfl, hsome⟩ := hours
    refine { h with nothing := fun hn => ?_, flows := fun session hsession => ?_ }
    · rw [hn] at hsome
      cases hsome
    · have hclosed : session.closed := by
        by_contra hopen
        exact hcarried (h.carried session hsession (Bool.eq_false_iff.mpr hopen))
      have hflows := h.flows session hsession
      exact hflows.shut hclosed rfl (List.suffix_refl _) rfl (List.prefix_append ..)
        (fun hn => (hflows.waiting hn).2.1) (List.prefix_refl _)
  · rwa [List.append_nil]

/-- **A frame goes to its session, behind what came before.** -/
theorem Flows.dispatch (h : r.Flows id fromHolder fromClient toHolder) (ready : Bool)
    (parses : List UInt8 → Bool) {frame : RelayFrame} (hroom : r.HasRoom id frame) :
    (r.dispatch ready parses frame).Flows id (fromHolder ++ r.brings id frame) fromClient
      toHolder := by
  unfold Registration.dispatch
  split
  · next hopen =>
    have hnothing : r.brings id frame = [] := by
      unfold brings RelayFrame.messages
      rw [hopen, if_neg (by decide : ¬ RelayOpcode.isData .OPEN), ite_self]
    rw [hnothing, List.append_nil]
    exact h.host ready parses frame
  split
  · next hcarried =>
    refine h.becomes (becomes_toClient r frame.session id frame) (fun hn => ?_)
      fun session hsession hflows => ?_
    · obtain ⟨rfl, rest⟩ := h.nothing hn
      refine ⟨?_, rest⟩
      simp [brings, hn]
    · have hsome : (r.sessions id).isSome := Option.isSome_iff_exists.mpr ⟨session, hsession⟩
      unfold Registration.onlyAt brings
      split
      · next heq =>
        rw [if_pos ⟨heq, hsome⟩]
        exact hflows.told _ fun hdata => hroom heq (heq ▸ hcarried) hdata session hsession
      · next hne =>
        rw [if_neg fun hours => hne hours.1, List.append_nil]
        exact hflows
  · next hcarried =>
    have hunheard := h.unheard hcarried
    split
    · split
      · exact hunheard.drop _
      · exact hunheard.deliverTo ..
      · exact hunheard.deliverTo ..
      · exact hunheard
      · exact hunheard
      · exact hunheard
    · exact hunheard

/-- What an act brings session `id` from its client. -/
def clientBrings (id : ℕ) : Act → List Message
  | .clientMessage k isBinary data =>
    if k = id then [(if isBinary then .BINARY else .TEXT, data)] else []
  | _ => []

/-- What session `id` hands to the transport. -/
def hands (id : ℕ) (r r' : Registration) : Act → List Message
  | .paid k _ => if k = id then handedOver r r' else []
  | _ => []

def IsText (id : ℕ) (r : Registration) : Act → Prop
  | .paid k ok => k = id → ok → ∀ session ∈ r.sessions id, session.closed = false →
      ∀ next ∈ session.queue.head?, next.toClient → next.opcode = .TEXT →
        ∀ client ∈ session.client, client.isOpen → Text.recode next.payload = next.payload
  | _ => True

theorem Flows.of_handshake {a : Act}
    (hr' : r'.Flows id fromHolder fromClient toHolder) (hclient : clientBrings id a = [])
    (hhands : hands id r r' a = []) : r'.Flows id fromHolder (fromClient ++ clientBrings id a)
      (toHolder ++ hands id r r' a) := by
  rw [hclient, hhands, List.append_nil, List.append_nil]
  exact hr'

theorem Flows.timeout (h : r.Flows id fromHolder fromClient toHolder) {k : ℕ}
    (hs : r.timeout k = some r') : r'.Flows id fromHolder fromClient toHolder := by
  obtain ⟨session, hsession, hs⟩ := Option.bind_eq_some_iff.mp hs
  split at hs
  · cases hs
    have hb : Becomes id (Registration.onlyAt k id fun session => { session with
        timer := false, reserve := session.reserve.resolve (some .DECLINED) }) r
          (r.setSession k { session with
            timer := false, reserve := session.reserve.resolve (some .DECLINED) }) :=
      becomes_setSession hsession (fun h => h) (.inl rfl)
    exact h.onlyAt hb fun _ _ _ hf => hf.congr rfl rfl rfl rfl rfl
  · cases hs

theorem Flows.resume (h : r.Flows id fromHolder fromClient toHolder) {k : ℕ}
    (hs : r.resume k = some r') : r'.Flows id fromHolder fromClient toHolder := by
  obtain ⟨session, hsession, hs⟩ := Option.bind_eq_some_iff.mp hs
  split at hs
  · next refusal hreserve =>
    cases refusal with
    | none =>
      cases hs
      have hb : Becomes id (Registration.onlyAt k id fun session => { session.settled with
          reserve := .returned none }) r
            (r.setSession k { session.settled with reserve := .returned none }) :=
        becomes_setSession hsession (fun h => h) (.inl rfl)
      exact h.onlyAt hb fun _ _ _ hf => hf.congr rfl rfl rfl rfl rfl
    | some reason =>
      cases hs
      -- A session that was refused never had a client: it is closed with its inbox as it is.
      have hb : Becomes id (Registration.onlyAt k id fun session => { session.settled with
          reserve := .returned (some reason), closed := true }) r
            ((r.setSession k { session.settled with
              reserve := .returned (some reason), closed := true }).forgetCarried k) :=
        becomes_setSession hsession nofun (.inr ⟨rfl, rfl⟩)
      refine h.onlyAt hb fun _ session _ hf => ?_
      exact hf.shut rfl rfl (List.suffix_refl _) rfl (List.prefix_refl _)
        (fun hn => (hf.waiting hn).2.1) (List.prefix_refl _)
  · cases hs

/-- The frames that waited for the client go to the queue, in the order they came in. -/
theorem Flows.attach (h : r.Flows id fromHolder fromClient toHolder) {k : ℕ}
    (hs : r.attach k = some r') : r'.Flows id fromHolder fromClient toHolder := by
  obtain ⟨session, hsession, hs⟩ := Option.bind_eq_some_iff.mp hs
  split at hs
  · next hfresh =>
    split at hs
    · cases hs
      exact h
    · next hclosed =>
      cases hs
      have hset : Becomes id (Registration.onlyAt k id fun session => { session with
          client := some ⟨true, []⟩, inbox := [] }) r
            (r.setSession k { session with client := some ⟨true, []⟩, inbox := [] }) :=
        becomes_setSession hsession (fun h => h) (.inl rfl)
      have hb := (hset.transAt (becomes_attachLoop session.inbox _ k id)).congrAt
        (g := CarriedSession.attachedTo) hsession (by
          simp [CarriedSession.attachedTo, Bool.eq_false_iff.mpr hclosed])
      refine h.onlyAt hb fun heq other hother hf => ?_
      rw [← heq, hsession] at hother
      cases hother
      exact hf.attach hfresh.2
  · cases hs

/-- What the client says is queued. -/
theorem Flows.clientMessage (h : r.Flows id fromHolder fromClient toHolder) {k : ℕ}
    {isBinary : Bool} {data : List UInt8} (hs : r.clientMessage k isBinary data = some r') :
    r'.Flows id fromHolder (fromClient ++ clientBrings id (.clientMessage k isBinary data))
      toHolder := by
  obtain ⟨session, hsession, hs⟩ := Option.bind_eq_some_iff.mp hs
  split at hs
  · next hclient =>
    cases hs
    have hbrings : clientBrings id (.clientMessage k isBinary data) =
        if k = id then [(if isBinary then .BINARY else .TEXT, data)] else [] := rfl
    rw [hbrings]
    refine h.becomes (becomes_forward r k id _) (fun hn => ?_) fun other hother hf => ?_
    · -- The message is of another session: this one is not there.
      obtain ⟨hholder, rfl, hwritten⟩ := h.nothing hn
      refine ⟨hholder, ?_, hwritten⟩
      rw [List.nil_append, if_neg]
      rintro rfl
      rw [hsession] at hn
      cases hn
    · unfold Registration.onlyAt
      split
      · next heq =>
        rw [← heq, hsession] at hother
        cases hother
        have hforwarded := hf.forwarded hclient
          ⟨false, if isBinary then .BINARY else .TEXT, data⟩
          (by cases isBinary <;> rfl)
        rwa [show towards true [⟨false, if isBinary then .BINARY else .TEXT, data⟩] = [] from rfl,
          List.append_nil] at hforwarded
      · rw [List.append_nil]
        exact hf
  · cases hs

/-- What is written was at the head of the queue. -/
theorem Flows.paid (h : r.Flows id fromHolder fromClient toHolder) {k : ℕ} {ok : Bool}
    (hs : r.paid k ok = some r') (htext : IsText id r (.paid k ok)) :
    r'.Flows id fromHolder fromClient (toHolder ++ hands id r r' (.paid k ok)) := by
  obtain ⟨session, next, rest, hsession, hqueue, hb, hhanded⟩ := paid_spec hs
  have hhands : hands id r r' (.paid k ok) = if k = id then handedOver r r' else [] := rfl
  rw [hhands]
  refine h.becomes (hb id) (fun hn => ?_) fun other hother hf => ?_
  · -- The payment is of another session: this one is not there.
    obtain ⟨hholder, hclient, rfl⟩ := h.nothing hn
    refine ⟨hholder, hclient, ?_⟩
    rw [List.nil_append, if_neg]
    rintro rfl
    rw [hsession] at hn
    cases hn
  · unfold Registration.onlyAt
    split
    · next heq =>
      subst heq
      rw [hsession] at hother
      cases hother
      have hdata := hf.bytes.queue next (by rw [hqueue]; exact List.mem_cons_self)
      rw [hhanded hdata]
      cases ok with
      | true =>
        refine hf.paid hqueue fun hclosed => ?_
        exact htext rfl rfl session hsession hclosed next (by rw [hqueue]; rfl)
      | false =>
        -- A payment that fails closes the session, and nothing is written.
        rw [show session.handed r.isOpen false next = [] from rfl, List.append_nil]
        exact hf.unpaid hqueue
    · rw [List.append_nil]
      exact hf

theorem Flows.admitted (h : r.Flows id fromHolder fromClient toHolder) {k : ℕ} {ok : Bool}
    (hs : r.admitted k ok = some r') : r'.Flows id fromHolder fromClient toHolder := by
  obtain ⟨socket, -, hs⟩ := Option.bind_eq_some_iff.mp hs
  split at hs
  · dsimp only at hs
    split at hs
    · exact Option.some.inj hs ▸ h.same rfl rfl rfl rfl
    · exact Option.some.inj hs ▸ h.same rfl rfl rfl rfl
  · cases hs

theorem Flows.hostSend (h : r.Flows id fromHolder fromClient toHolder) {k : ℕ} {isBinary : Bool}
    {data : List UInt8} (hs : r.hostSend k isBinary data = some r') :
    r'.Flows id fromHolder fromClient toHolder := by
  obtain ⟨socket, -, hs⟩ := Option.bind_eq_some_iff.mp hs
  split at hs
  · exact Option.some.inj hs ▸ h.sendIfOpen ..
  · exact Option.some.inj hs ▸ h

theorem Flows.hostClose (h : r.Flows id fromHolder fromClient toHolder) {k : ℕ}
    (hs : r.hostClose k = some r') : r'.Flows id fromHolder fromClient toHolder := by
  obtain ⟨socket, -, hs⟩ := Option.bind_eq_some_iff.mp hs
  split at hs
  · have hshut : ((r.setSocket k { socket with isOpen := false }).forgetHosted k).Flows id
        fromHolder fromClient toHolder := h.same rfl rfl rfl rfl
    exact Option.some.inj hs ▸ hshut.sendIfOpen ..
  · exact Option.some.inj hs ▸ h

/-- **What an act at one end of a link brings is queued, and what it writes was queued first.** -/
theorem Flows.step (h : r.Flows id fromHolder fromClient toHolder) {a : Act}
    (hs : r.step a = some r') (htext : IsText id r a) :
    r'.Flows id fromHolder (fromClient ++ clientBrings id a) (toHolder ++ hands id r r' a) := by
  cases a with
  | timeout k => exact .of_handshake (h.timeout hs) rfl rfl
  | resume k => exact .of_handshake (h.resume hs) rfl rfl
  | attach k => exact .of_handshake (h.attach hs) rfl rfl
  | clientMessage k isBinary data =>
    rw [show hands id r r' (.clientMessage k isBinary data) = [] from rfl, List.append_nil]
    exact h.clientMessage hs
  | clientClosed k | abandon k =>
    obtain ⟨session, hsession, hs⟩ := Option.bind_eq_some_iff.mp hs
    split at hs
    · exact .of_handshake (Option.some.inj hs ▸ h.closeCarried k) rfl rfl
    · cases hs
  | paid k ok =>
    rw [show clientBrings id (.paid k ok) = [] from rfl, List.append_nil]
    exact h.paid hs htext
  -- What is carried to this gateway touches nothing it carries for others.
  | admitted k ok => exact .of_handshake (h.admitted hs) rfl rfl
  | hostSend k isBinary data => exact .of_handshake (h.hostSend hs) rfl rfl
  | hostClose k => exact .of_handshake (h.hostClose hs) rfl rfl

end Registration

end MediaCenterSync.PeerRelay
