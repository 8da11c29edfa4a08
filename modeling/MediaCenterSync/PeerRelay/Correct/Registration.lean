import MediaCenterSync.PeerRelay.Correct.Views

/-!
# One end of a link moves one handshake

Whatever happens at one end of a link is a sequence of moves of one session's handshake: of the
carrier, where this end carries the session (`Carries`), or of the holder (`Hosts`).  There is a
lemma for each operation, and `step_cases` has them together.

A frame that is dispatched is heard by the end it arrives at (`dispatch_own`, `dispatch_other`),
unless it is bytes, which the handshake does not see.
-/

namespace MediaCenterSync.PeerRelay

open Relation

namespace Registration

variable {r r' r'' : Registration} {side : Bool} {id : ℕ}

/-! ### What the end that carries a session does -/

/-- One end, which carries session `id`, made moves of its handshake and nothing else. -/
structure Carries (side : Bool) (id : ℕ) (holder : HolderView) (r r' : Registration) : Prop where
  numbered : r'.Numbered side
  touches : Touches id r r'
  moves : ReflTransGen (fun v v' => v.Moves holder v') (r.carrierView id) (r'.carrierView id)

variable {holder : HolderView} {session : CarriedSession}

theorem Carries.refl (h : r.Numbered side) (id : ℕ) (holder : HolderView) :
    Carries side id holder r r :=
  ⟨h, .refl id r, .refl⟩

theorem Carries.trans (h : Carries side id holder r r') (h' : Carries side id holder r' r'') :
    Carries side id holder r r'' :=
  ⟨h'.numbered, h.touches.trans h'.touches, h.moves.trans h'.moves⟩

theorem Carries.single (hn : r'.Numbered side) (ht : Touches id r r')
    (hm : (r.carrierView id).Moves holder (r'.carrierView id)) : Carries side id holder r r' :=
  ⟨hn, ht, .single hm⟩

theorem Carries.born (h : Carries side id holder r r') (hborn : (r.sessions id).isSome) :
    (r'.sessions id).isSome := by
  have hmove : ∀ v v' : CarrierView, v.Moves holder v' → v'.reserve.isSome := by
    intro v v' hm
    cases hm with
    | close hsome _ => exact hsome
    | _ => rfl
  -- the last move decides, when there is one
  have hkept : (r'.carrierView id).reserve.isSome := by
    rcases h.moves.cases_tail with hsame | ⟨v, -, hlast⟩
    · rw [hsame]
      simpa [carrierView] using hborn
    · exact hmove _ _ hlast
  simpa [carrierView] using hkept

/-- Only what the handshake does not see of a session changes. -/
theorem Carries.setSession (holder : HolderView) (h : r.Numbered side) {old : CarriedSession}
    (hold : r.sessions id = some old) (session : CarriedSession) (hbytes : session.Bytes)
    (hreserve : session.reserve = old.reserve) (hsettle : session.settle = old.settle)
    (hclosed : session.closed = old.closed) :
    Carries side id holder r (r.setSession id session) := by
  refine ⟨h.setSession hold session hbytes, touches_setSession .., ?_⟩
  have hsame : (r.setSession id session).carrierView id = r.carrierView id := by
    rw [carrierView_setSession_self, hreserve, hsettle, hclosed]
    simp [carrierView, hold]
  rw [hsame]

theorem carries_sendData (h : r.Numbered side) {opcode : RelayOpcode} (hdata : opcode.isData)
    (id : ℕ) (payload : List UInt8) :
    Carries side id holder r (r.sendIfOpen opcode id payload) := by
  rw [h.sendIfOpen_eq]
  refine ⟨h.send payload (by rintro rfl; cases hdata), touches_send .., ?_⟩
  have hsame : (r.send opcode id payload).carrierView id = r.carrierView id := by
    unfold carrierView
    rw [handshake_send_data r hdata]
    rfl
  rw [hsame]

theorem closeCarried_spec (h : r.Numbered side) (hsession : r.sessions id = some session)
    (hclosed : session.closed = false) :
    (r.closeCarried id).Numbered side ∧ Touches id r (r.closeCarried id) ∧
      (r.closeCarried id).carrierView id = (r.carrierView id).close := by
  have hbytes := (h.sessions id session hsession).2.2
  have hset := h.setSession hsession session.close ⟨hbytes.inbox, hbytes.queue⟩
  have hforget := hset.forgetCarried id
  have heq : r.closeCarried id =
      ((r.setSession id session.close).forgetCarried id).send .CLOSE id [] := by
    rw [← hforget.sendIfOpen_eq]
    simp [Registration.closeCarried, hsession, hclosed]
  rw [heq]
  refine ⟨hforget.send [] nofun, ?_, ?_⟩
  · exact ((touches_setSession ..).trans (touches_forgetCarried ..)).trans (touches_send ..)
  · rw [carrierView_send_self _ _ _ rfl, carrierView_forgetCarried_self,
      carrierView_setSession_self]
    simp [CarrierView.close, CarriedSession.close, CarriedSession.settled, carrierView, hsession]

theorem closeCarried_closed (hsession : r.sessions id = some session)
    (hclosed : session.closed) : r.closeCarried id = r := by
  simp [Registration.closeCarried, hsession, hclosed]

theorem carries_closeCarried (h : r.Numbered side) (hsession : r.sessions id = some session) :
    Carries side id holder r (r.closeCarried id) := by
  cases hclosed : session.closed with
  | true => rw [closeCarried_closed hsession hclosed]; exact .refl h id holder
  | false =>
    obtain ⟨hn, ht, hview⟩ := closeCarried_spec h hsession hclosed
    refine .single hn ht ?_
    rw [hview]
    exact .close (by simp [carrierView, hsession]) (by simpa [carrierView, hsession] using hclosed)

theorem carries_forward (h : r.Numbered side) (hsession : r.sessions id = some session)
    {write : Write} (hdata : write.opcode.isData) :
    Carries side id holder r (r.forward id write) := by
  have hbytes := (h.sessions id session hsession).2.2
  unfold Registration.forward
  rw [hsession]
  dsimp only
  split
  · exact .refl h id holder
  split
  · have hset := Carries.setSession holder h hsession
      { session with pending := session.pending + write.payload.length }
      ⟨hbytes.inbox, hbytes.queue⟩ rfl rfl rfl
    exact hset.trans (carries_closeCarried hset.numbered (Function.update_self ..))
  · refine .setSession holder h hsession _ ⟨hbytes.inbox, fun other hother => ?_⟩ rfl rfl rfl
    rcases List.mem_append.mp hother with hold | hnew
    · exact hbytes.queue other hold
    · exact List.mem_singleton.mp hnew ▸ hdata

theorem carries_toClient (holder : HolderView) (h : r.Numbered side)
    (hsession : r.sessions id = some session) {frame : RelayFrame} (hdata : frame.opcode.isData) :
    Carries side id holder r (r.toClient id frame) := by
  have hbytes := (h.sessions id session hsession).2.2
  have hinbox : Carries side id holder r
      (r.setSession id { session with inbox := session.inbox ++ [frame] }) := by
    refine .setSession holder h hsession _ ⟨fun other hother => ?_, hbytes.queue⟩ rfl rfl rfl
    rcases List.mem_append.mp hother with hold | hnew
    · exact hbytes.inbox other hold
    · exact List.mem_singleton.mp hnew ▸ hdata
  have hforward : Carries side id holder r (r.forward id ⟨true, frame.opcode, frame.payload⟩) :=
    carries_forward h hsession hdata
  unfold Registration.toClient
  rw [hsession]
  dsimp only
  obtain ⟨opcode, _, payload⟩ := frame
  cases opcode
  case TEXT | BINARY =>
    dsimp only
    split
    · exact hinbox
    · exact hforward
  all_goals cases hdata

/-- The loop of `attach`, whose frames are bytes. -/
theorem carries_attachLoop (frames : List RelayFrame) (h : r.Numbered side)
    (hborn : (r.sessions id).isSome) (hdata : ∀ frame ∈ frames, frame.opcode.isData) :
    Carries side id holder r (frames.foldl (fun r frame => r.toClient id frame) r) := by
  induction frames generalizing r with
  | nil => exact .refl h id holder
  | cons frame frames ih =>
    obtain ⟨session, hsession⟩ := Option.isSome_iff_exists.mp hborn
    have hfirst := carries_toClient holder h hsession (hdata _ List.mem_cons_self)
    have hborn' := hfirst.born hborn
    exact hfirst.trans (ih hfirst.numbered hborn' fun other hother => hdata _ (.tail _ hother))

theorem carries_write (h : r.Numbered side) (hsession : r.sessions id = some session)
    {write : Write} (hdata : write.opcode.isData) :
    Carries side id holder r (r.write id session write) := by
  have hbytes := (h.sessions id session hsession).2.2
  unfold Registration.write
  split
  · exact .refl h id holder
  split
  · split
    · split
      · exact .setSession holder h hsession _ ⟨hbytes.inbox, hbytes.queue⟩ rfl rfl rfl
      · exact .refl h id holder
    · exact .refl h id holder
  · exact carries_sendData h hdata id _

theorem carries_timeout (h : r.Numbered side) (hs : r.timeout id = some r') :
    Own side id ∧ ∀ holder : HolderView, (∀ session ∈ r.sessions id, session.reserve = .waiting →
      holder.hosted → holder.admitting ≠ some false) → Carries side id holder r r' := by
  obtain ⟨session, hsession, hs⟩ := Option.bind_eq_some_iff.mp hs
  obtain ⟨hown, -, hbytes⟩ := h.sessions id session hsession
  refine ⟨hown, fun holder hintime => ?_⟩
  split at hs
  · cases hs
    cases hreserve : session.reserve with
    | waiting =>
      have hset := h.setSession hsession { session with
        timer := false, reserve := .answered (some .DECLINED) } ⟨hbytes.inbox, hbytes.queue⟩
      refine .single hset (touches_setSession ..) ?_
      rw [carrierView_setSession_self]
      have hmove : (r.carrierView id).Moves holder { r.carrierView id with
          reserve := some (.answered (some .DECLINED)) } :=
        .timeout (by simp [carrierView, hsession, hreserve]) (hintime session hsession hreserve)
      simpa [carrierView, hsession, Reserve.resolve] using hmove
    | _ => exact .setSession holder h hsession _ ⟨hbytes.inbox, hbytes.queue⟩ hreserve.symm rfl rfl
  · cases hs

theorem carries_resume (h : r.Numbered side) (hs : r.resume id = some r') :
    Own side id ∧ ∀ holder, Carries side id holder r r' := by
  obtain ⟨session, hsession, hs⟩ := Option.bind_eq_some_iff.mp hs
  obtain ⟨hown, -, hbytes⟩ := h.sessions id session hsession
  refine ⟨hown, fun holder => ?_⟩
  split at hs
  · next refusal hanswered =>
    cases refusal with
    | none =>
      cases hs
      have hset := h.setSession hsession { session.settled with
        reserve := .returned none } ⟨hbytes.inbox, hbytes.queue⟩
      refine .single hset (touches_setSession ..) ?_
      rw [carrierView_setSession_self]
      have hmove : (r.carrierView id).Moves holder { r.carrierView id with
          reserve := some (.returned none), settle := false } :=
        .resume (by simp [carrierView, hsession, hanswered])
      simpa [carrierView, hsession, CarriedSession.settled] using hmove
    | some reason =>
      cases hs
      have hset := h.setSession hsession { session.settled with
        reserve := .returned (some reason), closed := true } ⟨hbytes.inbox, hbytes.queue⟩
      refine .single (hset.forgetCarried id)
        ((touches_setSession ..).trans (touches_forgetCarried ..)) ?_
      rw [carrierView_forgetCarried_self, carrierView_setSession_self]
      exact .refused (by simp [carrierView, hsession, hanswered])
  · cases hs

theorem carries_attach (h : r.Numbered side) (hs : r.attach id = some r') :
    Own side id ∧ ∀ holder, Carries side id holder r r' := by
  obtain ⟨session, hsession, hs⟩ := Option.bind_eq_some_iff.mp hs
  obtain ⟨hown, -, hbytes⟩ := h.sessions id session hsession
  refine ⟨hown, fun holder => ?_⟩
  split at hs
  · split at hs
    · exact Option.some.inj hs ▸ .refl h id holder
    · cases hs
      have hset := Carries.setSession holder h hsession { session with
        client := some ⟨true, []⟩, inbox := [] } ⟨nofun, hbytes.queue⟩ rfl rfl rfl
      have hborn := hset.born (by rw [hsession]; rfl)
      exact hset.trans (carries_attachLoop _ hset.numbered hborn hbytes.inbox)
  · cases hs

theorem carries_paid (h : r.Numbered side) {ok : Bool} (hs : r.paid id ok = some r') :
    Own side id ∧ ∀ holder, Carries side id holder r r' := by
  obtain ⟨session, hsession, hs⟩ := Option.bind_eq_some_iff.mp hs
  obtain ⟨hown, -, hbytes⟩ := h.sessions id session hsession
  refine ⟨hown, fun holder => ?_⟩
  split at hs
  · cases hs
  next next rest hqueue =>
  have hnext : next.opcode.isData := hbytes.queue next (by rw [hqueue]; exact List.mem_cons_self)
  have hrest : ∀ write ∈ rest, write.opcode.isData := fun write hwrite =>
    hbytes.queue write (by rw [hqueue]; exact List.mem_cons_of_mem _ hwrite)
  dsimp only at hs
  split at hs
  · cases hs
    have hset := Carries.setSession holder h hsession { session with
      queue := rest, pending := session.pending - next.payload.length }
      ⟨hbytes.inbox, hrest⟩ rfl rfl rfl
    exact hset.trans (carries_write hset.numbered (Function.update_self ..) hnext)
  · cases hs
    have hset := Carries.setSession holder h hsession { session with
      queue := rest } ⟨hbytes.inbox, hrest⟩ rfl rfl rfl
    exact hset.trans (carries_closeCarried hset.numbered (Function.update_self ..))

/-! ### What the end that a session is carried to does -/

/-- One end, which session `id` is carried to, made moves of its handshake and nothing else. -/
structure Hosts (side : Bool) (id : ℕ) (carrier : CarrierView) (r r' : Registration) : Prop where
  numbered : r'.Numbered side
  touches : Touches id r r'
  moves : ReflTransGen (fun v v' => v.Moves carrier v') (r.holderView id) (r'.holderView id)

variable {carrier : CarrierView}

theorem Hosts.refl (h : r.Numbered side) (id : ℕ) (carrier : CarrierView) :
    Hosts side id carrier r r :=
  ⟨h, .refl id r, .refl⟩

theorem hosts_sendData (h : r.Numbered side) {opcode : RelayOpcode} (hdata : opcode.isData)
    (id : ℕ) (payload : List UInt8) : Hosts side id carrier r (r.sendIfOpen opcode id payload) := by
  rw [h.sendIfOpen_eq]
  refine ⟨h.send payload (by rintro rfl; cases hdata), touches_send .., ?_⟩
  have hsame : (r.send opcode id payload).holderView id = r.holderView id := by
    unfold holderView
    rw [handshake_send_data r hdata]
    rfl
  rw [hsame]

theorem hosts_admitted (h : r.Numbered side) {ok : Bool} (hs : r.admitted id ok = some r') :
    Own (!side) id ∧ ∀ carrier : CarrierView, (ok → id ∈ r.hosted → carrier.refused = false) →
      Hosts side id carrier r r' := by
  obtain ⟨socket, hsocket, hs⟩ := Option.bind_eq_some_iff.mp hs
  have hown := h.sockets id socket hsocket
  refine ⟨hown, fun carrier hintime => ?_⟩
  split at hs
  · next hadmitting =>
    have hset := h.setSocket hown { socket with admitting := false }
    have hview : (r.holderView id).admitting = some true := by
      simp [holderView, hsocket, hadmitting]
    dsimp only at hs
    split at hs
    · next hok =>
      cases hs
      refine ⟨hset.send [] (by simp), (touches_setSocket ..).trans (touches_send ..), .single ?_⟩
      rw [holderView_send_self _ _ _ rfl, holderView_setSocket_self]
      exact .letIn hview fun hhosted => hintime hok (by simpa [holderView] using hhosted)
    · cases hs
      refine ⟨(hset.forgetHosted id).send _ (by simp), ?_, .single ?_⟩
      · exact ((touches_setSocket ..).trans (touches_forgetHosted ..)).trans (touches_send ..)
      · rw [holderView_send_self _ _ _ rfl, holderView_forgetHosted_self, holderView_setSocket_self]
        exact .refuse hview
  · cases hs

theorem hosts_hostSend (h : r.Numbered side) {isBinary : Bool} {data : List UInt8}
    (hs : r.hostSend id isBinary data = some r') :
    Own (!side) id ∧ ∀ carrier, Hosts side id carrier r r' := by
  obtain ⟨socket, hsocket, hs⟩ := Option.bind_eq_some_iff.mp hs
  refine ⟨h.sockets id socket hsocket, fun carrier => ?_⟩
  have hdata : (if isBinary then RelayOpcode.BINARY else .TEXT).isData := by cases isBinary <;> rfl
  split at hs
  · exact Option.some.inj hs ▸ hosts_sendData h hdata id data
  · exact Option.some.inj hs ▸ .refl h id carrier

theorem hosts_hostClose (h : r.Numbered side) (hs : r.hostClose id = some r') :
    Own (!side) id ∧ ∀ carrier, Hosts side id carrier r r' := by
  obtain ⟨socket, hsocket, hs⟩ := Option.bind_eq_some_iff.mp hs
  have hown := h.sockets id socket hsocket
  refine ⟨hown, fun carrier => ?_⟩
  split at hs
  · cases hs
    have hforget := (h.setSocket hown { socket with isOpen := false }).forgetHosted id
    rw [hforget.sendIfOpen_eq]
    refine ⟨hforget.send [] nofun, ?_, .single ?_⟩
    · exact ((touches_setSocket ..).trans (touches_forgetHosted ..)).trans (touches_send ..)
    · rw [holderView_send_self _ _ _ rfl, holderView_forgetHosted_self, holderView_setSocket_self]
      have hmove : (r.holderView id).Moves carrier { r.holderView id with
          hosted := false, out := (r.holderView id).out ++ [.CLOSE] } :=
        .close (by simp [holderView, hsocket])
      simpa [holderView, hsocket] using hmove
  · exact Option.some.inj hs ▸ .refl h id carrier

/-! ### A frame arrives -/

theorem answer_deaf {refusal : Option RelayRefusal}
    (h : ¬ (session.settle ∧ session.reserve = .waiting)) : session.answer refusal = session := by
  unfold CarriedSession.answer
  split
  · next hsettle =>
    obtain ⟨reserve⟩ := session
    cases reserve with
    | waiting => exact absurd ⟨hsettle, rfl⟩ h
    | _ => rfl
  · rfl

theorem receives_answer (h : r.Numbered side) (hsession : r.sessions id = some session)
    (hcarried : id ∈ r.carried) {opcode : RelayOpcode} {refusal : Option RelayRefusal}
    (hop : opcode = .ACCEPT ∧ refusal = none ∨ opcode = .REFUSE ∧ refusal = some .DECLINED) :
    (r.setSession id (session.answer refusal)).Numbered side ∧
      (r.carrierView id).Receives opcode
        ((r.setSession id (session.answer refusal)).carrierView id) := by
  have hbytes := (h.sessions id session hsession).2.2
  have hclose : opcode ≠ .CLOSE := by rintro rfl; simp at hop
  rw [carrierView_setSession_self]
  by_cases hheard : session.settle ∧ session.reserve = .waiting
  · have hanswer : session.answer refusal = { session with reserve := .answered refusal } := by
      simp [CarriedSession.answer, Reserve.resolve, hheard]
    have hwaiting : (r.carrierView id).reserve = some .waiting := by
      simp [carrierView, hsession, hheard]
    have hsettle : (r.carrierView id).settle := by simp [carrierView, hsession, hheard]
    have hview : (r.carrierView id).carried := by simpa [carrierView] using hcarried
    rw [hanswer]
    refine ⟨h.setSession hsession _ ⟨hbytes.inbox, hbytes.queue⟩, ?_⟩
    rcases hop with ⟨rfl, rfl⟩ | ⟨rfl, rfl⟩
    · have hmove := CarrierView.Receives.ACCEPT hview hsettle hwaiting
      simpa [carrierView, hsession] using hmove
    · have hmove := CarrierView.Receives.REFUSE hview hsettle hwaiting
      simpa [carrierView, hsession] using hmove
  · have hdeaf : (r.carrierView id).settle = false ∨
        (r.carrierView id).reserve ≠ some .waiting := by
      simpa [carrierView, hsession] using not_and_or.mp hheard
    rw [answer_deaf hheard]
    refine ⟨h.setSession hsession _ hbytes, ?_⟩
    have hmove : (r.carrierView id).Receives opcode (r.carrierView id) :=
      .deaf (.inr (.inr ⟨hclose, hdeaf⟩))
    simpa [carrierView, hsession] using hmove

theorem dispatch_own (h : r.Numbered side) (ready : Bool) (parses : List UInt8 → Bool)
    {frame : RelayFrame} (hown : Own side frame.session) (hopen : frame.opcode ≠ .OPEN)
    (hborn : frame.session ∈ r.carried → (r.sessions frame.session).isSome) :
    (frame.opcode.isData → ∀ holder,
      Carries side frame.session holder r (r.dispatch ready parses frame)) ∧
    (frame.opcode.isData = false → (r.dispatch ready parses frame).Numbered side ∧
      Touches frame.session r (r.dispatch ready parses frame) ∧
      (r.carrierView frame.session).Receives frame.opcode
        ((r.dispatch ready parses frame).carrierView frame.session)) := by
  unfold Registration.dispatch
  rw [if_neg hopen]
  split
  · next hcarried =>
    obtain ⟨session, hsession⟩ := Option.isSome_iff_exists.mp (hborn hcarried)
    refine ⟨fun hdata holder => carries_toClient holder h hsession hdata, fun hdata => ?_⟩
    obtain ⟨opcode, id, payload⟩ := frame
    unfold Registration.toClient
    dsimp only at hsession hcarried hdata hopen ⊢
    rw [hsession]
    cases opcode with
    | ACCEPT =>
      obtain ⟨hn, hmove⟩ := receives_answer h hsession hcarried (.inl ⟨rfl, rfl⟩)
      exact ⟨hn, touches_setSession .., hmove⟩
    | REFUSE =>
      obtain ⟨hn, hmove⟩ := receives_answer h hsession hcarried (.inr ⟨rfl, rfl⟩)
      exact ⟨hn, touches_setSession .., hmove⟩
    | CLOSE =>
      cases hclosed : session.closed with
      | true =>
        rw [closeCarried_closed hsession hclosed]
        exact ⟨h, .refl id r, .deaf (.inr (.inl (by simpa [carrierView, hsession] using hclosed)))⟩
      | false =>
        obtain ⟨hn, ht, hview⟩ := closeCarried_spec h hsession hclosed
        refine ⟨hn, ht, ?_⟩
        rw [hview]
        refine .CLOSE ?_ ?_
        · simpa [carrierView] using hcarried
        · simpa [carrierView, hsession] using hclosed
    | _ => contradiction
  · next hcarried =>
    have hhosted : frame.session ∉ r.hosted := fun hmem => hown.not (h.hosted _ hmem)
    rw [if_neg hhosted]
    refine ⟨fun _ holder => .refl h _ holder, fun _ => ⟨h, .refl _ r, .deaf (.inl ?_)⟩⟩
    simpa [carrierView] using hcarried

theorem receives_open (h : r.Numbered side) {ready : Bool} {parses : List UInt8 → Bool}
    {payload : List UInt8} (hown : Own (!side) id) :
    (r.host ready parses ⟨.OPEN, id, payload⟩).Numbered side ∧
      Touches id r (r.host ready parses ⟨.OPEN, id, payload⟩) ∧
      (r.holderView id).Receives .OPEN
        ((r.host ready parses ⟨.OPEN, id, payload⟩).holderView id) := by
  have hrefuse : ∀ reason, (r.send .REFUSE id (refusalPayload reason)).Numbered side ∧
      Touches id r (r.send .REFUSE id (refusalPayload reason)) ∧
      (r.holderView id).Receives .OPEN
        ((r.send .REFUSE id (refusalPayload reason)).holderView id) := by
    intro reason
    refine ⟨h.send _ nofun, touches_send .., ?_⟩
    rw [holderView_send_self _ _ _ rfl]
    exact .refuse
  unfold Registration.host
  dsimp only
  split
  · exact hrefuse _
  split
  · exact hrefuse _
  split
  · exact hrefuse _
  · have hset := h.setSocket hown ⟨true, true, []⟩
    refine ⟨{ hset with hosted := fun n hn => ?_ },
      (touches_setSocket ..).trans (touches_host _ id), ?_⟩
    · rcases List.mem_append.mp hn with hold | hnew
      · exact h.hosted n (List.mem_of_mem_filter hold)
      · exact List.mem_singleton.mp hnew ▸ hown
    · have hview := holderView_host_self (r.setSocket id ⟨true, true, []⟩) id
      rw [holderView_setSocket_self] at hview
      exact hview ▸ .host

theorem receives_close (h : r.Numbered side) (hown : Own (!side) id) :
    (r.drop id).Numbered side ∧ Touches id r (r.drop id) ∧
      (r.holderView id).Receives .CLOSE ((r.drop id).holderView id) := by
  unfold Registration.drop
  split
  · next socket hsocket =>
    refine ⟨(h.setSocket hown _).forgetHosted id,
      (touches_setSocket ..).trans (touches_forgetHosted ..), ?_⟩
    rw [holderView_forgetHosted_self, holderView_setSocket_self]
    have hmove := HolderView.Receives.CLOSE (v := r.holderView id)
    simpa [holderView, hsocket] using hmove
  · refine ⟨h.forgetHosted id, touches_forgetHosted .., ?_⟩
    rw [holderView_forgetHosted_self]
    exact .CLOSE

theorem hosts_deliverTo (h : r.Numbered side) (hown : Own (!side) id) (opcode : RelayOpcode)
    (payload : List UInt8) : Hosts side id carrier r (r.deliverTo id opcode payload) := by
  unfold Registration.deliverTo
  split
  · next socket hsocket =>
    split
    · refine ⟨h.setSocket hown _, touches_setSocket .., ?_⟩
      have hsame : (r.setSocket id { socket with received := socket.received ++
          [(opcode, payload)] }).holderView id = r.holderView id := by
        rw [holderView_setSocket_self]
        simp [holderView, hsocket]
      rw [hsame]
    · exact .refl h id carrier
  · exact .refl h id carrier

theorem dispatch_other (h : r.Numbered side) (ready : Bool) (parses : List UInt8 → Bool)
    {frame : RelayFrame} (hown : Own (!side) frame.session) :
    (frame.opcode.isData → ∀ carrier,
      Hosts side frame.session carrier r (r.dispatch ready parses frame)) ∧
    (frame.opcode.isData = false → (r.dispatch ready parses frame).Numbered side ∧
      Touches frame.session r (r.dispatch ready parses frame) ∧
      (r.holderView frame.session).Receives frame.opcode
        ((r.dispatch ready parses frame).holderView frame.session)) := by
  have hcarried : frame.session ∉ r.carried := fun hmem => (h.carried _ hmem).not hown
  have hsame : (r.holderView frame.session).hosted = false →
      ({ r.holderView frame.session with hosted := false } : HolderView) =
        r.holderView frame.session := by
    intro hview
    rw [← hview]
  unfold Registration.dispatch
  rw [if_neg hcarried]
  split
  · next hopen =>
    obtain ⟨opcode, id, payload⟩ := frame
    obtain rfl : opcode = .OPEN := hopen
    exact ⟨nofun, fun _ => receives_open h hown⟩
  split
  · next hhosted =>
    obtain ⟨opcode, id, payload⟩ := frame
    dsimp only at hcarried hhosted hown ⊢
    cases opcode with
    | CLOSE =>
      exact ⟨nofun, fun _ => receives_close h hown⟩
    | OPEN => exact ⟨nofun, fun _ => by contradiction⟩
    | ACCEPT => exact ⟨nofun, fun _ => ⟨h, .refl id r, .other nofun nofun⟩⟩
    | REFUSE => exact ⟨nofun, fun _ => ⟨h, .refl id r, .other nofun nofun⟩⟩
    | TEXT => exact ⟨fun _ carrier => hosts_deliverTo h hown _ _, nofun⟩
    | BINARY => exact ⟨fun _ carrier => hosts_deliverTo h hown _ _, nofun⟩
  · next hopen hhosted =>
    refine ⟨fun _ carrier => .refl h _ carrier, fun _ => ⟨h, .refl _ r, ?_⟩⟩
    by_cases hclose : frame.opcode = .CLOSE
    · rw [hclose]
      have hmove := HolderView.Receives.CLOSE (v := r.holderView frame.session)
      rwa [hsame (by simpa [holderView] using hhosted)] at hmove
    · exact .other hopen hclose

/-! ### A session is asked for -/

theorem own_next {n : ℕ} (h : Own side n) : Own side (n + 2) := by
  unfold Own at h ⊢
  omega

theorem reserve_spec (h : r.Numbered side) (payload : List UInt8) (holder : HolderView) :
    (r.reserve payload false).Numbered side ∧ Touches r.next r (r.reserve payload false) ∧
      (r.carrierView r.next).Moves holder ((r.reserve payload false).carrierView r.next) := by
  have hunborn : r.sessions r.next = none := by
    cases hsession : r.sessions r.next with
    | none => rfl
    | some session => exact absurd (h.sessions _ _ hsession).2.1 (Nat.lt_irrefl _)
  let session : CarriedSession :=
    { reserve := .waiting, client := none, inbox := [], pending := 0, queue := [], settle := true
      timer := true, closed := false }
  let asked : Registration :=
    { r.setSession r.next session with next := r.next + 2, carried := r.carried ++ [r.next] }
  have hnumbered : asked.Numbered side := by
    refine { h with next := own_next h.next, sessions := fun n other hother => ?_, carried := ?_ }
    · change Function.update r.sessions r.next (some session) n = some other at hother
      change Own side n ∧ n < r.next + 2 ∧ other.Bytes
      rcases eq_or_ne n r.next with rfl | hne
      · rw [Function.update_self] at hother
        cases hother
        exact ⟨h.next, by omega, nofun, nofun⟩
      · rw [Function.update_of_ne hne] at hother
        obtain ⟨hown, hlt, hbytes⟩ := h.sessions n other hother
        exact ⟨hown, by omega, hbytes⟩
    · intro n hn
      rcases List.mem_append.mp hn with hold | hnew
      · exact h.carried n hold
      · exact List.mem_singleton.mp hnew ▸ h.next
  have htouches : Touches r.next r asked := by
    refine ⟨fun n hn => ?_, fun _ _ => rfl⟩
    have hcarried : decide (n ∈ r.carried ++ [r.next]) = decide (n ∈ r.carried) := by simp [hn]
    rw [← (touches_setSession r r.next session).carrier n hn]
    unfold carrierView
    rw [show asked.carried = r.carried ++ [r.next] from rfl, hcarried]
    rfl
  have hview : asked.carrierView r.next = { r.carrierView r.next with
      reserve := some .waiting, settle := true, closed := false, carried := true } := by
    simp [carrierView, asked, setSession, session]
  refine ⟨hnumbered.send payload fun _ => h.next, htouches.trans (touches_send ..), ?_⟩
  change (r.carrierView r.next).Moves holder ((asked.send .OPEN r.next payload).carrierView r.next)
  rw [carrierView_send_self _ _ _ rfl, hview]
  exact .reserve (by simp [carrierView, hunborn])

/-! ### What one end does of its own -/

/-- **Every act at one end is moves of one session's handshake**, whichever end that session
belongs to. -/
theorem step_cases (h : r.Numbered side) {a : Act} (hs : r.step a = some r') :
    ∃ id, Own side id ∧ (∀ holder : HolderView,
        (a = .timeout id → ∀ session ∈ r.sessions id, session.reserve = .waiting →
          holder.hosted → holder.admitting ≠ some false) → Carries side id holder r r') ∨
      Own (!side) id ∧ (∀ carrier : CarrierView,
        (a = .admitted id true → id ∈ r.hosted → carrier.refused = false) →
          Hosts side id carrier r r') := by
  have hcarry : ∀ {id}, (Own side id ∧ ∀ holder, Carries side id holder r r') →
      Own side id ∧ ∀ holder : HolderView, (a = .timeout id → ∀ session ∈ r.sessions id,
        session.reserve = .waiting → holder.hosted → holder.admitting ≠ some false) →
          Carries side id holder r r' :=
    fun ⟨hown, hc⟩ => ⟨hown, fun holder _ => hc holder⟩
  have hhost : ∀ {id}, (Own (!side) id ∧ ∀ carrier, Hosts side id carrier r r') →
      Own (!side) id ∧ ∀ carrier : CarrierView, (a = .admitted id true → id ∈ r.hosted →
        carrier.refused = false) → Hosts side id carrier r r' :=
    fun ⟨hown, hc⟩ => ⟨hown, fun carrier _ => hc carrier⟩
  -- What a step carries is at our end of a session, what it hosts at the other.
  cases a with
  | timeout id =>
    obtain ⟨hown, hc⟩ := carries_timeout h hs
    exact ⟨id, .inl ⟨hown, fun holder hintime => hc holder (hintime rfl)⟩⟩
  | resume id => exact ⟨id, .inl (hcarry (carries_resume h hs))⟩
  | attach id => exact ⟨id, .inl (hcarry (carries_attach h hs))⟩
  | clientMessage id isBinary data =>
    refine ⟨id, .inl (hcarry ?_)⟩
    obtain ⟨session, hsession, hs⟩ := Option.bind_eq_some_iff.mp hs
    refine ⟨(h.sessions id session hsession).1, fun holder => ?_⟩
    split at hs
    · cases hs
      exact carries_forward h hsession (by cases isBinary <;> rfl)
    · cases hs
  | clientClosed id =>
    refine ⟨id, .inl (hcarry ?_)⟩
    obtain ⟨session, hsession, hs⟩ := Option.bind_eq_some_iff.mp hs
    refine ⟨(h.sessions id session hsession).1, fun holder => ?_⟩
    split at hs
    · exact Option.some.inj hs ▸ carries_closeCarried h hsession
    · cases hs
  | abandon id =>
    refine ⟨id, .inl (hcarry ?_)⟩
    obtain ⟨session, hsession, hs⟩ := Option.bind_eq_some_iff.mp hs
    refine ⟨(h.sessions id session hsession).1, fun holder => ?_⟩
    split at hs
    · exact Option.some.inj hs ▸ carries_closeCarried h hsession
    · cases hs
  | paid id ok => exact ⟨id, .inl (hcarry (carries_paid h hs))⟩
  | admitted id ok =>
    obtain ⟨hown, hc⟩ := hosts_admitted h hs
    refine ⟨id, .inr ⟨hown, fun carrier hintime => hc carrier fun hok => ?_⟩⟩
    exact hintime (by rw [hok])
  | hostSend id isBinary data => exact ⟨id, .inr (hhost (hosts_hostSend h hs))⟩
  | hostClose id => exact ⟨id, .inr (hhost (hosts_hostClose h hs))⟩

end Registration

end MediaCenterSync.PeerRelay
