import MediaCenterSync.PeerRelay.Correct.Handshake

/-!
# What one end of a link has of a session

The handshake of a session as its two ends have it (`carrierView`, `holderView`), read off a
registration.  Every operation is about one session and leaves the views of the others alone
(`Touches`); and each end has sessions of its own numbers only (`Numbered`).
-/

namespace MediaCenterSync.PeerRelay

/-- Bytes of a session, as opposed to the frames that open and close it. -/
def RelayOpcode.isData : RelayOpcode → Bool
  | .TEXT | .BINARY => true
  | .OPEN | .ACCEPT | .REFUSE | .CLOSE => false

/-- The session numbers a side gives out. -/
def Own (side : Bool) (n : ℕ) : Prop := n % 2 = if side then 0 else 1

theorem Own.not {side : Bool} {n : ℕ} (h : Own side n) : ¬ Own (!side) n := by
  cases side <;> simp_all [Own]

theorem own_or (side : Bool) (n : ℕ) : Own side n ∨ Own (!side) n := by
  cases side <;> simp only [Own, Bool.not_true, Bool.not_false, if_true, Bool.false_eq_true,
    if_false] <;> omega

/-- The handshake frames of session `n`. -/
def handshake (n : ℕ) (frames : List RelayFrame) : List RelayOpcode :=
  (frames.filter fun frame => frame.session = n && !frame.opcode.isData).map (·.opcode)

theorem handshake_append (n : ℕ) (frames : List RelayFrame) (frame : RelayFrame) :
    handshake n (frames ++ [frame]) = handshake n frames ++ handshake n [frame] := by
  simp [handshake]

theorem handshake_cons (n : ℕ) (frame : RelayFrame) (frames : List RelayFrame) :
    handshake n (frame :: frames) = handshake n [frame] ++ handshake n frames := by
  rw [handshake, List.filter_cons]
  split <;> simp_all [handshake]

theorem handshake_self {frame : RelayFrame} (h : frame.opcode.isData = false) :
    handshake frame.session [frame] = [frame.opcode] := by
  simp [handshake, h]

theorem handshake_ne {n : ℕ} {frame : RelayFrame} (h : n ≠ frame.session) :
    handshake n [frame] = [] := by
  simp [handshake, h.symm]

theorem handshake_data (n : ℕ) {frame : RelayFrame} (h : frame.opcode.isData) :
    handshake n [frame] = [] := by
  simp [handshake, h]

/-- What waits to be written is bytes. -/
structure CarriedSession.Bytes (session : CarriedSession) : Prop where
  inbox : ∀ frame ∈ session.inbox, frame.opcode.isData
  queue : ∀ write ∈ session.queue, write.opcode.isData

namespace Registration

variable {r r' r'' : Registration} {side : Bool} {id n : ℕ}

/-! ### One session at one end -/

/-- What the end that carries session `n` has of it. -/
def carrierView (r : Registration) (n : ℕ) : CarrierView :=
  { reserve := (r.sessions n).map (·.reserve)
    settle := (r.sessions n).any (·.settle)
    closed := (r.sessions n).any (·.closed)
    carried := n ∈ r.carried
    out := handshake n r.outbox }

/-- What the end that session `n` is carried to has of it. -/
def holderView (r : Registration) (n : ℕ) : HolderView :=
  { hosted := n ∈ r.hosted
    admitting := (r.sockets n).map (·.admitting)
    out := handshake n r.outbox }

theorem carrierView_setSession_self (r : Registration) (id : ℕ) (session : CarriedSession) :
    (r.setSession id session).carrierView id = { r.carrierView id with
      reserve := some session.reserve, settle := session.settle, closed := session.closed } := by
  unfold carrierView
  rw [show (r.setSession id session).sessions id = some session from Function.update_self ..]
  rfl

theorem handshake_send_self (r : Registration) {opcode : RelayOpcode} (id : ℕ)
    (payload : List UInt8) (h : opcode.isData = false) :
    handshake id (r.send opcode id payload).outbox = handshake id r.outbox ++ [opcode] := by
  rw [show (r.send opcode id payload).outbox = r.outbox ++ [⟨opcode, id, payload⟩] from rfl,
    handshake_append]
  exact congrArg _ (handshake_self h)

theorem handshake_send_data (r : Registration) {opcode : RelayOpcode} (h : opcode.isData)
    (id n : ℕ) (payload : List UInt8) :
    handshake n (r.send opcode id payload).outbox = handshake n r.outbox := by
  rw [show (r.send opcode id payload).outbox = r.outbox ++ [⟨opcode, id, payload⟩] from rfl,
    handshake_append, handshake_data n h, List.append_nil]

theorem carrierView_send_self (r : Registration) {opcode : RelayOpcode} (id : ℕ)
    (payload : List UInt8) (h : opcode.isData = false) :
    (r.send opcode id payload).carrierView id =
      { r.carrierView id with out := (r.carrierView id).out ++ [opcode] } := by
  unfold carrierView
  rw [handshake_send_self r id payload h]
  rfl

theorem holderView_send_self (r : Registration) {opcode : RelayOpcode} (id : ℕ)
    (payload : List UInt8) (h : opcode.isData = false) :
    (r.send opcode id payload).holderView id =
      { r.holderView id with out := (r.holderView id).out ++ [opcode] } := by
  unfold holderView
  rw [handshake_send_self r id payload h]
  rfl

theorem carrierView_forgetCarried_self (r : Registration) (id : ℕ) :
    (r.forgetCarried id).carrierView id = { r.carrierView id with carried := false } := by
  simp [carrierView, forgetCarried]

theorem holderView_forgetHosted_self (r : Registration) (id : ℕ) :
    (r.forgetHosted id).holderView id = { r.holderView id with hosted := false } := by
  simp [holderView, forgetHosted]

theorem holderView_host_self (r : Registration) (id : ℕ) :
    ({ r with hosted := r.hosted.filter (· ≠ id) ++ [id] } : Registration).holderView id =
      { r.holderView id with hosted := true } := by
  simp [holderView]

theorem holderView_setSocket_self (r : Registration) (id : ℕ) (socket : RelayedSocket) :
    (r.setSocket id socket).holderView id =
      { r.holderView id with admitting := some socket.admitting } := by
  unfold holderView
  rw [show (r.setSocket id socket).sockets id = some socket from Function.update_self ..]
  rfl

/-- No session but `id` is touched. -/
structure Touches (id : ℕ) (r r' : Registration) : Prop where
  carrier : ∀ n ≠ id, r'.carrierView n = r.carrierView n
  holder : ∀ n ≠ id, r'.holderView n = r.holderView n

theorem Touches.refl (id : ℕ) (r : Registration) : Touches id r r :=
  ⟨fun _ _ => rfl, fun _ _ => rfl⟩

theorem Touches.trans (h : Touches id r r') (h' : Touches id r' r'') : Touches id r r'' :=
  ⟨fun n hn => (h'.carrier n hn).trans (h.carrier n hn),
    fun n hn => (h'.holder n hn).trans (h.holder n hn)⟩

theorem touches_setSession (r : Registration) (id : ℕ) (session : CarriedSession) :
    Touches id r (r.setSession id session) where
  carrier n hn := by
    unfold carrierView
    rw [show (r.setSession id session).sessions n = r.sessions n from Function.update_of_ne hn ..]
    rfl
  holder n _ := rfl

theorem touches_setSocket (r : Registration) (id : ℕ) (socket : RelayedSocket) :
    Touches id r (r.setSocket id socket) where
  carrier n _ := rfl
  holder n hn := by
    unfold holderView
    rw [show (r.setSocket id socket).sockets n = r.sockets n from Function.update_of_ne hn ..]
    rfl

theorem touches_send (r : Registration) (opcode : RelayOpcode) (id : ℕ) (payload : List UInt8) :
    Touches id r (r.send opcode id payload) := by
  have hout : ∀ n ≠ id, handshake n (r.send opcode id payload).outbox = handshake n r.outbox := by
    intro n hn
    have : handshake n [⟨opcode, id, payload⟩] = [] := handshake_ne hn
    simp [send, handshake_append, this]
  constructor
  · intro n hn
    unfold carrierView
    rw [hout n hn]
    rfl
  · intro n hn
    unfold holderView
    rw [hout n hn]
    rfl

theorem touches_forgetCarried (r : Registration) (id : ℕ) : Touches id r (r.forgetCarried id) where
  carrier n hn := by simp [carrierView, forgetCarried, hn]
  holder n _ := rfl

theorem touches_forgetHosted (r : Registration) (id : ℕ) : Touches id r (r.forgetHosted id) where
  carrier n _ := rfl
  holder n hn := by simp [holderView, forgetHosted, hn]

theorem touches_host (r : Registration) (id : ℕ) :
    Touches id r { r with hosted := r.hosted.filter (· ≠ id) ++ [id] } where
  carrier n _ := rfl
  holder n hn := by simp [holderView, hn]

/-! ### Which session is whose -/

/-- Each end has its own sessions, and none of its numbers is given out before its turn. -/
structure Numbered (side : Bool) (r : Registration) : Prop where
  isOpen : r.isOpen
  next : Own side r.next
  sessions : ∀ n session, r.sessions n = some session →
    Own side n ∧ n < r.next ∧ session.Bytes
  carried : ∀ n ∈ r.carried, Own side n
  sockets : ∀ n socket, r.sockets n = some socket → Own (!side) n
  hosted : ∀ n ∈ r.hosted, Own (!side) n
  asked : ∀ frame ∈ r.outbox, frame.opcode = .OPEN → Own side frame.session

theorem numbered_create (peerId : String) (side : Bool) :
    (Registration.create peerId side).Numbered side where
  isOpen := rfl
  next := by cases side <;> simp [Own, create]
  sessions _ _ h := nomatch h
  carried _ h := nomatch h
  sockets _ _ h := nomatch h
  hosted _ h := nomatch h
  asked _ h := nomatch h

theorem Numbered.setSession (h : r.Numbered side) {old : CarriedSession}
    (hold : r.sessions id = some old) (session : CarriedSession) (hbytes : session.Bytes) :
    (r.setSession id session).Numbered side where
  __ := h
  sessions n other hother := by
    change Function.update r.sessions id (some session) n = some other at hother
    rcases eq_or_ne n id with rfl | hne
    · rw [Function.update_self] at hother
      cases hother
      obtain ⟨hown, hlt, -⟩ := h.sessions n old hold
      exact ⟨hown, hlt, hbytes⟩
    · rw [Function.update_of_ne hne] at hother
      exact h.sessions n other hother

theorem Numbered.forgetCarried (h : r.Numbered side) (id : ℕ) :
    (r.forgetCarried id).Numbered side where
  __ := h
  carried n hn := h.carried n (List.mem_of_mem_filter hn)

theorem Numbered.setSocket (h : r.Numbered side) (hown : Own (!side) id) (socket : RelayedSocket) :
    (r.setSocket id socket).Numbered side where
  __ := h
  sockets n other hother := by
    change Function.update r.sockets id (some socket) n = some other at hother
    rcases eq_or_ne n id with rfl | hne
    · exact hown
    · rw [Function.update_of_ne hne] at hother
      exact h.sockets n other hother

theorem Numbered.forgetHosted (h : r.Numbered side) (id : ℕ) :
    (r.forgetHosted id).Numbered side where
  __ := h
  hosted n hn := h.hosted n (List.mem_of_mem_filter hn)

theorem Numbered.send (h : r.Numbered side) {opcode : RelayOpcode} (payload : List UInt8)
    (hopen : opcode = .OPEN → Own side id) : (r.send opcode id payload).Numbered side where
  __ := h
  asked frame hframe hopcode := by
    rcases List.mem_append.mp hframe with hold | hnew
    · exact h.asked frame hold hopcode
    · obtain rfl := List.mem_singleton.mp hnew
      exact hopen hopcode

theorem Numbered.sendIfOpen_eq (h : r.Numbered side) (opcode : RelayOpcode) (id : ℕ)
    (payload : List UInt8) : r.sendIfOpen opcode id payload = r.send opcode id payload :=
  if_pos h.isOpen

end Registration

end MediaCenterSync.PeerRelay
