import MediaCenterSync.PeerRelay.Correct.Views

/-!
# The bytes of a carried session

What a session has received from each side is what it has written to the other, followed by what
waits, as long as the session and the far socket are open (`CarriedSession.Flows`); when they are
not, it is a prefix.  There is a lemma for each thing that can happen to a session: a message comes
and waits for the client (`Flows.waits`) or for the budget (`Flows.forwarded`), the client is
attached (`Flows.attach`), the budget pays (`Flows.paid`), and the session closes (`Flows.shut`).
-/

namespace MediaCenterSync.PeerRelay

/-- A message of the link that is carried. -/
abbrev Message := RelayOpcode × List UInt8

def RelayFrame.message (frame : RelayFrame) : Message := (frame.opcode, frame.payload)

def RelayFrame.messages (frame : RelayFrame) : List Message :=
  if frame.opcode.isData then [frame.message] else []

/-- The messages for one side, among those that wait. -/
def towards (toClient : Bool) (writes : List Write) : List Message :=
  (writes.filter (·.toClient == toClient)).map fun write => (write.opcode, write.payload)

theorem towards_append (toClient : Bool) (writes more : List Write) :
    towards toClient (writes ++ more) = towards toClient writes ++ towards toClient more := by
  simp [towards]

theorem towards_cons (toClient : Bool) (write : Write) (writes : List Write) :
    towards toClient (write :: writes) = towards toClient [write] ++ towards toClient writes :=
  towards_append toClient [write] writes

namespace CarriedSession

def inboxBytes (session : CarriedSession) : ℕ := (session.inbox.map (·.payload.length)).sum

def queuedBytes (session : CarriedSession) : ℕ := (session.queue.map (·.payload.length)).sum

/-- Between what was received from each side of a session and what was written to the other: as long
as the session and the far socket are open, the difference is what waits. -/
structure Flows (session : CarriedSession) (isOpen : Bool)
    (fromHolder fromClient toHolder : List Message) : Prop where
  bytes : session.Bytes
  waiting : session.client = none → session.queue = [] ∧ fromClient = [] ∧ toHolder = [] ∧
    (session.closed = false → fromHolder = session.inbox.map RelayFrame.message)
  attached : ∀ client ∈ session.client, session.inbox = [] ∧ client.received <+: fromHolder
  toClient : session.closed = false → ∀ client ∈ session.client, client.isOpen →
    fromHolder = client.received ++ towards true session.queue
  written : toHolder <+: fromClient
  toHolder : session.closed = false → isOpen →
    fromClient = toHolder ++ towards false session.queue
  pending : session.closed = false →
    session.pending = session.queuedBytes ∧ session.pending ≤ RELAY_MAX_BUFFERED_BYTES
  inboxFits : session.inboxBytes ≤ RELAY_MAX_BUFFERED_BYTES
  queueFits : session.queuedBytes ≤ RELAY_MAX_BUFFERED_BYTES

variable {session session' : CarriedSession} {isOpen : Bool}
  {fromHolder fromClient toHolder fromHolder' fromClient' : List Message}

theorem Flows.congr (h : session.Flows isOpen fromHolder fromClient toHolder)
    (hclient : session'.client = session.client) (hinbox : session'.inbox = session.inbox)
    (hqueue : session'.queue = session.queue) (hpending : session'.pending = session.pending)
    (hclosed : session'.closed = session.closed) :
    session'.Flows isOpen fromHolder fromClient toHolder := by
  obtain ⟨reserve, client, inbox, pending, queue, settle, timer, closed⟩ := session
  obtain ⟨reserve', client', inbox', pending', queue', settle', timer', closed'⟩ := session'
  dsimp only at hclient hinbox hqueue hpending hclosed
  subst hclient hinbox hqueue hpending hclosed
  exact ⟨⟨h.bytes.inbox, h.bytes.queue⟩, h.waiting, h.attached, h.toClient, h.written, h.toHolder,
    h.pending, h.inboxFits, h.queueFits⟩

theorem Flows.lost (h : session.Flows isOpen fromHolder fromClient toHolder) :
    session.Flows false fromHolder fromClient toHolder :=
  { h with toHolder := fun _ => nofun }

theorem Flows.closing (h : session.Flows isOpen fromHolder fromClient toHolder)
    {client : CarriedClient} (hclient : session.client = some client) :
    Flows { session with client := some { client with isOpen := false } } isOpen fromHolder
      fromClient toHolder := by
  refine { h with
    bytes := ⟨h.bytes.inbox, h.bytes.queue⟩
    waiting := nofun
    attached := fun other hother => ?_
    toClient := fun _ other hother hopen => ?_ }
  · cases hother
    exact h.attached client hclient
  · cases hother
    cases hopen

theorem Flows.shut (h : session.Flows isOpen fromHolder fromClient toHolder)
    (hclosed : session'.closed) (hinbox : session'.inbox = session.inbox)
    (hqueue : session'.queue <:+ session.queue)
    (hclient : session'.client.map (·.received) = session.client.map (·.received))
    (hholder : fromHolder <+: fromHolder') (hnone : session.client = none → fromClient' = [])
    (hmessages : fromClient <+: fromClient') :
    session'.Flows isOpen fromHolder' fromClient' toHolder := by
  have hopen : session'.closed = false → False := fun h => by
    rw [hclosed] at h
    cases h
  refine ⟨⟨hinbox ▸ h.bytes.inbox, fun write hw => h.bytes.queue write (hqueue.subset hw)⟩, ?_, ?_,
    fun h => (hopen h).elim, h.written.trans hmessages, fun h => (hopen h).elim,
    fun h => (hopen h).elim, ?_, ?_⟩
  · intro hnot
    have hnot' : session.client = none := by
      rw [hnot, Option.map_none] at hclient
      exact Option.map_eq_none_iff.mp hclient.symm
    obtain ⟨hempty, -, hnothing, -⟩ := h.waiting hnot'
    refine ⟨?_, hnone hnot', hnothing, fun h => (hopen h).elim⟩
    rw [hempty] at hqueue
    exact List.suffix_nil.mp hqueue
  · intro client hclient'
    rw [Option.mem_def] at hclient'
    rw [hclient', Option.map_some] at hclient
    obtain ⟨client', hwas, hreceived⟩ := Option.map_eq_some_iff.mp hclient.symm
    obtain ⟨hempty, hprefix⟩ := h.attached client' hwas
    exact ⟨hinbox.trans hempty, hreceived ▸ hprefix.trans hholder⟩
  · unfold inboxBytes
    rw [hinbox]
    exact h.inboxFits
  · obtain ⟨gone, hgone⟩ := hqueue
    have hfits := h.queueFits
    unfold queuedBytes at hfits ⊢
    rw [← hgone, List.map_append, List.sum_append] at hfits
    omega

/-- What `_closeCarried` makes of a session, unless it was closed. -/
def ended (session : CarriedSession) : CarriedSession :=
  if session.closed then session else session.close

theorem Flows.close (h : session.Flows isOpen fromHolder fromClient toHolder) :
    session.close.Flows isOpen fromHolder fromClient toHolder := by
  refine h.shut rfl rfl (List.suffix_refl _) ?_ (List.prefix_refl _) ?_ (List.prefix_refl _)
  · change (session.client.map _).map _ = _
    rw [Option.map_map]
    rfl
  · exact fun hnone => (h.waiting hnone).2.1

theorem Flows.ended (h : session.Flows isOpen fromHolder fromClient toHolder) :
    session.ended.Flows isOpen fromHolder fromClient toHolder := by
  unfold CarriedSession.ended
  split
  · exact h
  · exact h.close

/-- What `_forward` makes of a session. -/
def forwarded (session : CarriedSession) (write : Write) : CarriedSession :=
  if session.closed then session
  else
    let session := { session with pending := session.pending + write.payload.length }
    if RELAY_MAX_BUFFERED_BYTES < session.pending then session.ended
    else { session with queue := session.queue ++ [write] }

/-- **A message is queued for the other side, or the session ends.** -/
theorem Flows.forwarded (h : session.Flows isOpen fromHolder fromClient toHolder)
    (hclient : session.client.isSome) (write : Write) (hdata : write.opcode.isData) :
    (session.forwarded write).Flows isOpen (fromHolder ++ towards true [write])
      (fromClient ++ towards false [write]) toHolder := by
  have hnone : session.client = none → fromClient ++ towards false [write] = [] := fun hnot => by
    rw [hnot] at hclient
    cases hclient
  unfold CarriedSession.forwarded
  split
  · next hclosed =>
    exact h.shut hclosed rfl (List.suffix_refl _) rfl (List.prefix_append ..) hnone
      (List.prefix_append ..)
  next hclosed =>
  have hclosed : session.closed = false := Bool.eq_false_iff.mpr hclosed
  dsimp only
  split
  · -- Too much waits: the session is closed, and what it had written stays.
    refine h.shut ?_ ?_ ?_ ?_ (List.prefix_append ..) hnone (List.prefix_append ..)
    all_goals unfold CarriedSession.ended; rw [if_neg (by rw [hclosed]; exact Bool.false_ne_true)]
    · rfl
    · rfl
    · exact List.suffix_refl _
    · change (session.client.map _).map _ = _
      rw [Option.map_map]
      rfl
  · next hfits =>
    obtain ⟨hpending, -⟩ := h.pending hclosed
    -- The message goes to the end of the queue, and its bytes are counted.
    have hqueued : CarriedSession.queuedBytes { session with
        pending := session.pending + write.payload.length, queue := session.queue ++ [write] } =
          session.queuedBytes + write.payload.length := by
      simp [queuedBytes]
    refine ⟨⟨h.bytes.inbox, fun other hother => ?_⟩, fun hnot => ?_, fun client hc => ?_,
      fun _ client hc hopen => ?_, h.written.trans (List.prefix_append ..), fun _ hopen => ?_,
      fun _ => ⟨?_, Nat.not_lt.mp hfits⟩, h.inboxFits, ?_⟩
    · rcases List.mem_append.mp hother with hold | hnew
      · exact h.bytes.queue other hold
      · exact List.mem_singleton.mp hnew ▸ hdata
    · rw [show session.client = none from hnot] at hclient
      cases hclient
    · obtain ⟨hempty, hprefix⟩ := h.attached client hc
      exact ⟨hempty, hprefix.trans (List.prefix_append ..)⟩
    · rw [towards_append, ← List.append_assoc, ← h.toClient hclosed client hc hopen]
    · rw [towards_append, ← List.append_assoc, ← h.toHolder hclosed hopen]
    · rw [hqueued, ← hpending]
    · rw [hqueued, ← hpending]
      exact Nat.not_lt.mp hfits

theorem isSome_ended (h : session.client.isSome) : session.ended.client.isSome := by
  unfold CarriedSession.ended
  split
  · exact h
  · exact (Option.isSome_map ..).trans h

theorem isSome_forwarded (h : session.client.isSome) (write : Write) :
    (session.forwarded write).client.isSome := by
  unfold CarriedSession.forwarded
  split
  · exact h
  dsimp only
  split
  · exact isSome_ended h
  · exact h

/-- What `_toClient` makes of a session. -/
def told (session : CarriedSession) (frame : RelayFrame) : CarriedSession :=
  match frame.opcode with
  | .ACCEPT => session.answer none
  | .REFUSE => session.answer (some .DECLINED)
  | .CLOSE => session.ended
  | .OPEN => session
  | .TEXT | .BINARY =>
    match session.client with
    | none => { session with inbox := session.inbox ++ [frame] }
    | some _ => session.forwarded ⟨true, frame.opcode, frame.payload⟩

theorem Flows.answer (h : session.Flows isOpen fromHolder fromClient toHolder)
    (refusal : Option RelayRefusal) :
    (session.answer refusal).Flows isOpen fromHolder fromClient toHolder := by
  unfold CarriedSession.answer
  split
  · exact h.congr rfl rfl rfl rfl rfl
  · exact h

theorem Flows.waits (h : session.Flows isOpen fromHolder fromClient toHolder)
    (hclient : session.client = none) {frame : RelayFrame} (hdata : frame.opcode.isData)
    (hfits : session.inboxBytes + frame.payload.length ≤ RELAY_MAX_BUFFERED_BYTES) :
    Flows { session with inbox := session.inbox ++ [frame] } isOpen
      (fromHolder ++ [frame.message]) fromClient toHolder := by
  obtain ⟨hqueue, hmessages, hwritten, hinbox⟩ := h.waiting hclient
  have hno : ∀ client, client ∉ session.client := fun client hc => by
    rw [hclient] at hc
    cases hc
  refine { h with
    bytes := ⟨fun other hother => ?_, h.bytes.queue⟩
    waiting := fun _ => ⟨hqueue, hmessages, hwritten, fun hclosed => ?_⟩
    attached := fun client hc => (hno client hc).elim
    toClient := fun _ client hc => (hno client hc).elim
    inboxFits := ?_ }
  · rcases List.mem_append.mp hother with hold | hnew
    · exact h.bytes.inbox other hold
    · exact List.mem_singleton.mp hnew ▸ hdata
  · rw [hinbox hclosed, List.map_append]
    rfl
  · have hbytes : CarriedSession.inboxBytes { session with inbox := session.inbox ++ [frame] } =
        session.inboxBytes + frame.payload.length := by
      simp [inboxBytes]
    exact hbytes ▸ hfits

/-- **A frame from the holder waits for its client, or is queued for it.** -/
theorem Flows.told (h : session.Flows isOpen fromHolder fromClient toHolder) (frame : RelayFrame)
    (hfits : frame.opcode.isData → session.client = none →
      session.inboxBytes + frame.payload.length ≤ RELAY_MAX_BUFFERED_BYTES) :
    (session.told frame).Flows isOpen (fromHolder ++ frame.messages) fromClient toHolder := by
  have hbytes : frame.opcode.isData → Flows (match session.client with
      | none => { session with inbox := session.inbox ++ [frame] }
      | some _ => session.forwarded ⟨true, frame.opcode, frame.payload⟩) isOpen
        (fromHolder ++ [frame.message]) fromClient toHolder := by
    intro hdata
    split
    · next hclient => exact h.waits hclient hdata (hfits hdata hclient)
    · next hclient =>
      have hqueued :=
        h.forwarded (by rw [hclient]; rfl) ⟨true, frame.opcode, frame.payload⟩ hdata
      rw [show towards false [⟨true, frame.opcode, frame.payload⟩] = [] from rfl,
        List.append_nil] at hqueued
      exact hqueued
  have hother : ∀ {told : CarriedSession}, told.Flows isOpen fromHolder fromClient toHolder →
      told.Flows isOpen (fromHolder ++ []) fromClient toHolder := fun htold => by
    rwa [List.append_nil]
  obtain ⟨opcode, id, payload⟩ := frame
  cases opcode with
  | ACCEPT => exact hother (h.answer none)
  | REFUSE => exact hother (h.answer (some .DECLINED))
  | CLOSE => exact hother h.ended
  | OPEN => exact hother h
  | TEXT => exact hbytes rfl
  | BINARY => exact hbytes rfl

theorem isSome_told (h : session.client.isSome) (frame : RelayFrame) :
    (session.told frame).client.isSome := by
  have hanswer : ∀ refusal, (session.answer refusal).client.isSome := fun refusal => by
    unfold CarriedSession.answer
    split
    · exact h
    · exact h
  obtain ⟨client, hclient⟩ := Option.isSome_iff_exists.mp h
  unfold CarriedSession.told
  rw [hclient]
  cases frame.opcode with
  | ACCEPT => exact hanswer none
  | REFUSE => exact hanswer _
  | CLOSE => exact isSome_ended h
  | OPEN => exact h
  | TEXT => exact isSome_forwarded h _
  | BINARY => exact isSome_forwarded h _

/-- What `attach` makes of a session. -/
def attachedTo (session : CarriedSession) : CarriedSession :=
  if session.closed then session
  else session.inbox.foldl told { session with client := some ⟨true, []⟩, inbox := [] }

/-- The loop of `attach`, over frames that all were bytes. -/
theorem Flows.attachLoop (frames : List RelayFrame)
    (h : session.Flows isOpen fromHolder fromClient toHolder) (hclient : session.client.isSome)
    (hdata : ∀ frame ∈ frames, frame.opcode.isData) :
    (frames.foldl CarriedSession.told session).Flows isOpen
      (fromHolder ++ frames.map RelayFrame.message) fromClient toHolder := by
  induction frames generalizing session fromHolder with
  | nil =>
    rw [List.map_nil, List.append_nil]
    exact h
  | cons frame frames ih =>
    have hfirst := h.told frame fun _ hnone => by
      rw [hnone] at hclient
      cases hclient
    have hmessages : frame.messages = [frame.message] := if_pos (hdata frame List.mem_cons_self)
    have hrest := ih hfirst (isSome_told hclient frame) fun other hother =>
      hdata other (List.mem_cons_of_mem _ hother)
    rwa [hmessages, List.append_assoc] at hrest

/-- **What waited for a client goes before what comes after it.** -/
theorem Flows.attach (h : session.Flows isOpen fromHolder fromClient toHolder)
    (hclient : session.client = none) :
    session.attachedTo.Flows isOpen fromHolder fromClient toHolder := by
  unfold attachedTo
  split
  · exact h
  next hclosed =>
  have hclosed : session.closed = false := Bool.eq_false_iff.mpr hclosed
  obtain ⟨hqueue, hmessages, hwritten, hinbox⟩ := h.waiting hclient
  have hattached : Flows { session with client := some ⟨true, []⟩, inbox := [] } isOpen []
      fromClient toHolder := by
    refine { h with
      bytes := ⟨nofun, h.bytes.queue⟩
      waiting := nofun
      attached := fun client hc => ?_
      toClient := fun _ client hc _ => ?_
      inboxFits := Nat.zero_le _ }
    · cases hc
      exact ⟨rfl, List.prefix_refl _⟩
    · cases hc
      rw [hqueue]
      rfl
  have hall := hattached.attachLoop session.inbox rfl h.bytes.inbox
  rwa [List.nil_append, ← hinbox hclosed] at hall

/-- What a payment makes of a session, with the next message taken off its queue. -/
def paidFor (session : CarriedSession) (ok : Bool) (next : Write) (rest : List Write) :
    CarriedSession :=
  let session := { session with queue := rest }
  if ok then
    let session := { session with pending := session.pending - next.payload.length }
    if session.closed then session
    else if next.toClient then
      match session.client with
      | some client =>
        if client.isOpen then
          let data := if next.opcode = .BINARY then next.payload else Text.recode next.payload
          let received := client.received ++ [(next.opcode, data)]
          { session with client := some { client with received := received } }
        else session
      | none => session
    else session
  else session.ended

def handed (session : CarriedSession) (isOpen ok : Bool) (next : Write) : List Message :=
  if ok && !session.closed && !next.toClient && isOpen then [(next.opcode, next.payload)] else []

theorem ended_closed (session : CarriedSession) : session.ended.closed := by
  unfold CarriedSession.ended
  split
  · assumption
  · rfl

theorem ended_received (session : CarriedSession) :
    session.ended.client.map (·.received) = session.client.map (·.received) := by
  unfold CarriedSession.ended
  split
  · rfl
  · change (session.client.map _).map _ = _
    rw [Option.map_map]
    rfl

theorem ended_inbox (session : CarriedSession) : session.ended.inbox = session.inbox := by
  unfold CarriedSession.ended
  split <;> rfl

theorem ended_queue (session : CarriedSession) : session.ended.queue = session.queue := by
  unfold CarriedSession.ended
  split <;> rfl

theorem Flows.unpaid (h : session.Flows isOpen fromHolder fromClient toHolder) {next : Write}
    {rest : List Write} (hqueue : session.queue = next :: rest) :
    (session.paidFor false next rest).Flows isOpen fromHolder fromClient toHolder := by
  have hended : session.paidFor false next rest =
      CarriedSession.ended { session with queue := rest } := rfl
  rw [hended]
  refine h.shut (ended_closed _) (ended_inbox _) ?_ (ended_received _) (List.prefix_refl _)
    (fun hnone => (h.waiting hnone).2.1) (List.prefix_refl _)
  rw [ended_queue, hqueue]
  exact List.suffix_cons ..

/-- The head of the queue is taken off, and written to its side: what waits is what waited behind
it. -/
theorem Flows.taken (h : session.Flows isOpen fromHolder fromClient toHolder) {next : Write}
    {rest : List Write} (hqueue : session.queue = next :: rest) (hclosed : session.closed = false)
    {client : CarriedClient} (hclient : session.client = some client) (received more : List Message)
    (hreceived : client.received ++ received <+: fromHolder)
    (hopen : client.isOpen → fromHolder = client.received ++ received ++ towards true rest)
    (hwritten : toHolder ++ more <+: fromClient)
    (hhanded : isOpen → fromClient = toHolder ++ more ++ towards false rest) :
    Flows { session with
      queue := rest, pending := session.pending - next.payload.length
      client := some { client with received := client.received ++ received } } isOpen
      fromHolder fromClient (toHolder ++ more) := by
  obtain ⟨hpending, hfits⟩ := h.pending hclosed
  have hbytes : session.queuedBytes = next.payload.length + (rest.map (·.payload.length)).sum := by
    rw [queuedBytes, hqueue, List.map_cons, List.sum_cons]
  have hrest : ∀ write ∈ rest, write.opcode.isData := fun write hwrite =>
    h.bytes.queue write (hqueue ▸ List.mem_cons_of_mem _ hwrite)
  refine ⟨⟨h.bytes.inbox, hrest⟩, nofun, fun other hother => ?_, fun _ other hother ho => ?_,
    hwritten, fun _ => hhanded, fun _ => ⟨?_, ?_⟩, h.inboxFits, ?_⟩
  · cases hother
    exact ⟨(h.attached client hclient).1, hreceived⟩
  · cases hother
    exact hopen ho
  · change session.pending - next.payload.length = (rest.map (·.payload.length)).sum
    omega
  · exact Nat.le_trans (Nat.sub_le ..) hfits
  · change (rest.map (·.payload.length)).sum ≤ _
    omega

/-- A message that is paid for after the session has ended is not written. -/
theorem Flows.paidLate (h : session.Flows isOpen fromHolder fromClient toHolder) {next : Write}
    {rest : List Write} (hqueue : session.queue = next :: rest) (hclosed : session.closed) :
    (session.paidFor true next rest).Flows isOpen fromHolder fromClient
      (toHolder ++ session.handed isOpen true next) := by
  have hnothing : session.handed isOpen true next = [] := by simp [handed, hclosed]
  have hpaid : session.paidFor true next rest = { session with
      queue := rest, pending := session.pending - next.payload.length } := by
    simp [paidFor, hclosed]
  rw [hnothing, List.append_nil, hpaid]
  refine h.shut hclosed rfl ?_ rfl (List.prefix_refl _) (fun hnone => (h.waiting hnone).2.1)
    (List.prefix_refl _)
  rw [hqueue]
  exact List.suffix_cons ..

/-- **A message that is paid for is written to its side next**, if that is open. -/
theorem Flows.paid (h : session.Flows isOpen fromHolder fromClient toHolder) {next : Write}
    {rest : List Write} (hqueue : session.queue = next :: rest)
    (htext : session.closed = false → next.toClient → next.opcode = .TEXT →
      ∀ client ∈ session.client, client.isOpen → Text.recode next.payload = next.payload) :
    (session.paidFor true next rest).Flows isOpen fromHolder fromClient
      (toHolder ++ session.handed isOpen true next) := by
  cases hclosed : session.closed with
  | true => exact h.paidLate hqueue hclosed
  | false =>
  obtain ⟨client, hclient⟩ : ∃ client, session.client = some client := by
    cases hclient : session.client with
    | some client => exact ⟨client, rfl⟩
    | none =>
      rw [(h.waiting hclient).1] at hqueue
      cases hqueue
  have hholder := h.toHolder hclosed
  have hopens := h.toClient hclosed client hclient
  obtain ⟨-, hprefix⟩ := h.attached client hclient
  rw [hqueue, towards_cons] at hholder hopens
  -- What writes nothing to the client leaves it as it is.
  have hkept : { session with
        queue := rest, pending := session.pending - next.payload.length } = { session with
        queue := rest, pending := session.pending - next.payload.length
        client := some { client with received := client.received ++ [] } } := by
    rw [List.append_nil, ← hclient]
  cases hside : next.toClient with
  | true =>
    have hnothing : session.handed isOpen true next = [] := by simp [handed, hside]
    have hnot : towards false [next] = [] := by simp [towards, hside]
    have hnext : towards true [next] = [(next.opcode, next.payload)] := by simp [towards, hside]
    have hwritten : toHolder ++ [] <+: fromClient := by
      rw [List.append_nil]
      exact h.written
    rw [hnot, List.nil_append] at hholder
    rw [hnext, ← List.append_assoc] at hopens
    rw [hnothing]
    cases hopen : client.isOpen with
    | true =>
      have hsame : (if next.opcode = .BINARY then next.payload else Text.recode next.payload) =
          next.payload := by
        split
        · rfl
        · next hbinary =>
          have hdata := h.bytes.queue next (by rw [hqueue]; exact List.mem_cons_self)
          refine htext hclosed hside ?_ client hclient hopen
          cases hopcode : next.opcode with
          | TEXT => rfl
          | BINARY => exact absurd hopcode hbinary
          | _ => rw [hopcode] at hdata; cases hdata
      have hpaid : session.paidFor true next rest = { session with
          queue := rest, pending := session.pending - next.payload.length
          client := some { client with
            received := client.received ++ [(next.opcode, next.payload)] } } := by
        simp [paidFor, hclosed, hside, hclient, hopen, hsame]
      rw [hpaid]
      refine h.taken hqueue hclosed hclient _ [] ?_ hopens hwritten ?_
      · rw [hopens hopen]
        exact List.prefix_append ..
      · rw [List.append_nil]
        exact hholder
    | false =>
      have hpaid : session.paidFor true next rest = { session with
          queue := rest, pending := session.pending - next.payload.length } := by
        simp [paidFor, hclosed, hside, hclient, hopen]
      rw [hpaid, hkept]
      refine h.taken hqueue hclosed hclient [] [] ?_ ?_ hwritten ?_
      · rw [List.append_nil]
        exact hprefix
      · rw [hopen]
        exact nofun
      · rw [List.append_nil]
        exact hholder
  | false =>
    have hpaid : session.paidFor true next rest = { session with
        queue := rest, pending := session.pending - next.payload.length } := by
      simp [paidFor, hclosed, hside]
    have hnot : towards true [next] = [] := by simp [towards, hside]
    have hnext : towards false [next] = [(next.opcode, next.payload)] := by simp [towards, hside]
    rw [hnot, List.nil_append] at hopens
    rw [hnext, ← List.append_assoc] at hholder
    rw [hpaid, hkept]
    refine h.taken hqueue hclosed hclient [] _ ?_ ?_ ?_ ?_
    · rw [List.append_nil]
      exact hprefix
    · rw [List.append_nil]
      exact hopens
    · cases isOpen with
      | true =>
        rw [hholder rfl]
        simp [handed, hclosed, hside]
      | false => simpa [handed] using h.written
    · intro hisOpen
      rw [hholder hisOpen]
      simp [handed, hclosed, hside, hisOpen]

end CarriedSession

end MediaCenterSync.PeerRelay
