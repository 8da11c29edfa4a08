import MediaCenterSync.PeerRelay.Correct.Bytes
import MediaCenterSync.PeerRelay.Correct.Frames

/-!
# What a carried session delivers

Two sockets are joined by one queue: what comes from the holder waits for the client to be attached
(`inbox`), then for the budget, and is written if the far socket is open.  `Carriage` is a service
with a record of what crossed one session since it was asked for.  In whatever order frames,
messages, payments and closes come, what was received from a side is what was written to the other
followed by what waits (`CarriedSession.Flows`), as long as the session is open.

The queue is bounded and what waits for the client is not: a session delivers a prefix and holds its
bound exactly as long as each message that comes before its client finds room (`carriesFaithfully_iff`), and
what is written to the client as text is text.
-/

namespace MediaCenterSync.PeerRelay

open LabelledRun

/-- A service, and what has crossed one carried session since it was asked for: the messages that
came from the holder and from the client, and those handed to the transport of the link. -/
structure Carriage where
  service : Service
  fromHolder : List Message
  fromClient : List Message
  toHolder : List Message

namespace Carriage

inductive Act where
  | service (act : Service.Act)
  /-- The socket of the client is not open any more, before its `close` is heard. -/
  | clientClosing

def boot : Carriage := ⟨.boot, [], [], []⟩

section Steps

variable (parses : List UInt8 → Bool) (link id : ℕ)

def fromHolderBy (s : Service) : Service.Act → List Message
  | .dispatch l =>
    if l = link then
      (s.links[link]?.bind fun r => r.arrived.head?.map (r.brings id)).getD []
    else []
  | _ => []

def fromClientBy : Service.Act → List Message
  | .at l act => if l = link then Registration.clientBrings id act else []
  | _ => []

def toHolderBy (s s' : Service) : Service.Act → List Message
  | .at l act =>
    if l = link then
      match s.links[link]?, s'.links[link]? with
      | some r, some r' => Registration.hands id r r' act
      | _, _ => []
    else []
  | _ => []

def step (c : Carriage) : Act → Option Carriage
  -- A socket does not open again.
  | .service (.transport _ true) => none
  | .service act => do
    let service ← c.service.step parses act
    return {
      service := service
      fromHolder := c.fromHolder ++ fromHolderBy link id c.service act
      fromClient := c.fromClient ++ fromClientBy link id act
      toHolder := c.toHolder ++ toHolderBy link id c.service service act }
  | .clientClosing => do
    let r ← c.service.links[link]?
    let session ← r.sessions id
    let client ← session.client
    let session := { session with client := some { client with isOpen := false } }
    return { c with service := c.service.modifyLink link (·.setSession id session) }

/-- **Each side has had a prefix of what the other side sent**, and what is held keeps its bound. -/
def Delivers (c : Carriage) : Prop :=
  ∀ r ∈ c.service.links[link]?, ∀ session ∈ r.sessions id,
    (∀ client ∈ session.client, client.received <+: c.fromHolder) ∧
      c.toHolder <+: c.fromClient ∧
      session.inboxBytes + session.queuedBytes ≤ RELAY_MAX_BUFFERED_BYTES

/-- What is to wait for the client finds room, and what is written to it as text is text. -/
def Fits (c : Carriage) : Act → Prop
  | .service (.dispatch l) => l = link → ∀ r ∈ c.service.links[link]?, ∀ frame ∈ r.arrived.head?,
      r.HasRoom id frame
  | .service (.at l act) => l = link → ∀ r ∈ c.service.links[link]?, r.IsText id act
  | _ => True

/-- What has crossed the session, if its link is there. -/
def Flows (c : Carriage) : Prop :=
  (c.service.links[link]? = none → c.fromHolder = [] ∧ c.fromClient = [] ∧ c.toHolder = []) ∧
    ∀ r ∈ c.service.links[link]?, r.Flows id c.fromHolder c.fromClient c.toHolder

end Steps

variable {parses : List UInt8 → Bool} {link id : ℕ} {c c' : Carriage}

theorem Flows.delivers (h : c.Flows link id) : c.Delivers link id := by
  intro r hr session hsession
  have hflows := (h.2 r hr).flows session hsession
  refine ⟨fun client hc => (hflows.attached client hc).2, hflows.written, ?_⟩
  cases hclient : session.client with
  | none =>
    have hqueued : session.queuedBytes = 0 := by
      rw [CarriedSession.queuedBytes, (hflows.waiting hclient).1]
      rfl
    have hfits := hflows.inboxFits
    omega
  | some client =>
    have hinbox : session.inboxBytes = 0 := by
      rw [CarriedSession.inboxBytes, (hflows.attached client hclient).1]
      rfl
    have hfits := hflows.queueFits
    omega

theorem getElem?_modifyLink (s : Service) (l link : ℕ) (f : Registration → Registration) :
    (s.modifyLink l f).links[link]? = s.links[link]?.map fun r => if l = link then f r else r := by
  change (s.links.modify l f)[link]? = _
  rw [List.getElem?_modify]
  split <;> rfl

theorem Flows.quiet (h : c.Flows link id) {service : Service}
    (f : Registration → Registration)
    (hlink : service.links[link]? = c.service.links[link]?.map f)
    (hf : ∀ r ∈ c.service.links[link]?, r.Flows id c.fromHolder c.fromClient c.toHolder →
      (f r).Flows id c.fromHolder c.fromClient c.toHolder) :
    Flows link id ⟨service, c.fromHolder ++ [], c.fromClient ++ [], c.toHolder ++ []⟩ := by
  simp only [List.append_nil]
  refine ⟨fun hnone => ?_, fun r hr => ?_⟩
  · dsimp only at hnone
    rw [hlink, Option.map_eq_none_iff] at hnone
    exact h.1 hnone
  · dsimp only at hr
    rw [hlink] at hr
    obtain ⟨old, hold, rfl⟩ := Option.map_eq_some_iff.mp hr
    exact hf old hold (h.2 old hold)

theorem Flows.quietAt (h : c.Flows link id) {l : ℕ} {f : Registration → Registration}
    (hf : ∀ r : Registration, r.Flows id c.fromHolder c.fromClient c.toHolder →
      (f r).Flows id c.fromHolder c.fromClient c.toHolder) :
    Flows link id ⟨c.service.modifyLink l f, c.fromHolder ++ [], c.fromClient ++ [],
      c.toHolder ++ []⟩ := by
  refine h.quiet _ (getElem?_modifyLink ..) fun r _ hr => ?_
  split
  · exact hf r hr
  · exact hr

theorem Flows.receive {r : Registration} {data : List UInt8}
    (h : r.Flows id c.fromHolder c.fromClient c.toHolder) :
    (Service.receive r data).Flows id c.fromHolder c.fromClient c.toHolder := by
  unfold Service.receive
  dsimp only
  split
  · exact Registration.Flows.unregister (h.same rfl rfl rfl rfl)
  · exact h.same rfl rfl rfl rfl

theorem Flows.register (h : c.Flows link id) (peerId : String) (dialled : Bool) :
    Flows link id ⟨{ c.service with
      links := c.service.links ++ [Registration.create peerId dialled] }, c.fromHolder ++ [],
        c.fromClient ++ [], c.toHolder ++ []⟩ := by
  simp only [List.append_nil]
  refine ⟨fun hnone => h.1 ?_, fun r hr => ?_⟩
  · exact List.getElem?_eq_none (Nat.le_trans (by simp) (List.getElem?_eq_none_iff.mp hnone))
  · change (c.service.links ++ [_])[link]? = some r at hr
    rcases Nat.lt_or_ge link c.service.links.length with hlt | hge
    · rw [List.getElem?_append_left hlt] at hr
      exact h.2 r hr
    · obtain ⟨hholder, hclient, hwritten⟩ := h.1 (List.getElem?_eq_none hge)
      rw [List.getElem?_append_right hge] at hr
      obtain rfl := List.mem_singleton.mp (List.mem_of_getElem? hr)
      exact ⟨fun _ => rfl, fun _ => ⟨hholder, hclient, hwritten⟩, by rintro _ ⟨⟩, by rintro _ ⟨⟩⟩

/-- **The next frame of a link.** -/
theorem Flows.dispatch (h : c.Flows link id) {l : ℕ}
    (hfits : c.Fits link id (.service (.dispatch l))) (ready : Bool) (parses : List UInt8 → Bool) :
    Flows link id ⟨c.service.modifyLink l (Service.dispatchNext ready parses),
      c.fromHolder ++ fromHolderBy link id c.service (.dispatch l), c.fromClient ++ [],
      c.toHolder ++ []⟩ := by
  have hbrings : fromHolderBy link id c.service (.dispatch l) = if l = link then
      (c.service.links[link]?.bind fun r => r.arrived.head?.map (r.brings id)).getD []
    else [] := rfl
  rw [hbrings]
  split
  · next heq =>
    subst heq
    simp only [List.append_nil]
    refine ⟨fun hnone => ?_, fun r hr => ?_⟩
    · rw [getElem?_modifyLink, Option.map_eq_none_iff] at hnone
      obtain ⟨hholder, rest⟩ := h.1 hnone
      refine ⟨?_, rest⟩
      rw [hholder, hnone]
      rfl
    · rw [getElem?_modifyLink] at hr
      obtain ⟨old, hold, hr⟩ := Option.map_eq_some_iff.mp hr
      rw [if_pos rfl] at hr
      subst hr
      have hflows := h.2 old hold
      rw [hold, Option.bind_some]
      unfold Service.dispatchNext
      split
      · next harrived =>
        rw [harrived]
        change old.Flows id (c.fromHolder ++ []) _ _
        rwa [List.append_nil]
      · next frame rest harrived =>
        rw [harrived]
        have hrest : Registration.Flows { old with arrived := rest } id c.fromHolder c.fromClient
            c.toHolder := hflows.same rfl rfl rfl rfl
        exact hrest.dispatch ready parses (hfits rfl old hold frame (by rw [harrived]; rfl))
  · next hne =>
    refine h.quiet (fun r => r) ?_ fun _ _ hr => hr
    rw [getElem?_modifyLink]
    simp [hne]

/-- **An act at the end of a link.** -/
theorem Flows.at (h : c.Flows link id) {l : ℕ} {act : Registration.Act} {r r' : Registration}
    (hfits : c.Fits link id (.service (.at l act))) (hr : c.service.links[l]? = some r)
    (hs : r.step act = some r') :
    Flows link id ⟨{ c.service with links := c.service.links.set l r' }, c.fromHolder ++ [],
      c.fromClient ++ fromClientBy link id (.at l act), c.toHolder ++ toHolderBy link id c.service
        { c.service with links := c.service.links.set l r' } (.at l act)⟩ := by
  have hlt : l < c.service.links.length := (List.getElem?_eq_some_iff.mp hr).1
  rcases eq_or_ne l link with rfl | hne
  · have hset : (c.service.links.set l r')[l]? = some r' := List.getElem?_set_self hlt
    have hclient : fromClientBy l id (.at l act) = Registration.clientBrings id act := if_pos rfl
    have hholder : toHolderBy l id c.service { c.service with links := c.service.links.set l r' }
        (.at l act) = Registration.hands id r r' act := by
      simp only [toHolderBy, if_pos, hr, hset]
    rw [hclient, hholder, List.append_nil]
    refine ⟨fun hnone => ?_, fun other hother => ?_⟩
    · dsimp only at hnone
      rw [hset] at hnone
      cases hnone
    · dsimp only at hother
      rw [hset] at hother
      cases hother
      exact (h.2 r hr).step hs (hfits rfl r hr)
  · have hclient : fromClientBy link id (.at l act) = [] := if_neg hne
    have hholder : toHolderBy link id c.service { c.service with
        links := c.service.links.set l r' } (.at l act) = [] := if_neg hne
    rw [hclient, hholder]
    refine h.quiet (fun r => r) ?_ fun _ _ hr => hr
    rw [Option.map_id']
    exact List.getElem?_set_ne hne

/-- **A step that fits keeps what has crossed the session in order, and within its bound.** -/
theorem Flows.step {a : Act} (h : c.Flows link id) (hfits : c.Fits link id a)
    (hs : c.step parses link id a = some c') : c'.Flows link id := by
  cases a with
  | clientClosing =>
    obtain ⟨r, hr, hs⟩ := Option.bind_eq_some_iff.mp hs
    obtain ⟨session, hsession, hs⟩ := Option.bind_eq_some_iff.mp hs
    obtain ⟨client, hclient, hs⟩ := Option.bind_eq_some_iff.mp hs
    cases hs
    refine ⟨fun hnone => ?_, fun r' hr' => ?_⟩
    · rw [getElem?_modifyLink, Option.map_eq_none_iff] at hnone
      exact h.1 hnone
    · rw [getElem?_modifyLink, hr, Option.map_some, if_pos rfl] at hr'
      cases hr'
      exact (h.2 r hr).closing hsession hclient
  | service act =>
    cases act with
    | bind =>
      cases hs
      exact h.quiet (fun r => r) (Option.map_id' ..).symm fun _ _ hr => hr
    | register peerId dialled =>
      cases hs
      exact h.register peerId dialled
    | transport l isOpen =>
      cases isOpen with
      | true => cases hs
      | false =>
        cases hs
        exact h.quietAt fun r hr => hr.lost
    | unregister l =>
      cases hs
      exact h.quietAt fun r hr => hr.unregister
    | onModuleDestroy =>
      cases hs
      exact h.quiet Registration.unregister (List.getElem?_map ..) fun r _ hr => hr.unregister
    | reserve holderPeerId payload =>
      cases hs
      exact h.quiet (fun r => r) (Option.map_id' ..).symm fun _ _ hr => hr
    | carrying call relayForPeers throws =>
      obtain ⟨service, hservice, hs⟩ := Option.bind_eq_some_iff.mp hs
      cases hs
      obtain ⟨ask, -, hservice⟩ := Option.bind_eq_some_iff.mp hservice
      cases hservice
      have hasked : Flows link id ⟨{ c.service with asking := c.service.asking.eraseIdx call },
          c.fromHolder ++ [], c.fromClient ++ [], c.toHolder ++ []⟩ :=
        h.quiet (fun r => r) (Option.map_id' ..).symm fun _ _ hr => hr
      split
      · exact hasked
      split
      · exact hasked
      split
      · exact hasked
      · exact h.quiet _ (getElem?_modifyLink ..) fun r _ hr => by
          split
          · exact hr.reserve ask.payload throws
          · exact hr
    | receive l data =>
      cases hs
      exact h.quietAt fun r hr => Flows.receive hr
    | dispatch l =>
      cases hs
      exact h.dispatch hfits _ _
    | «at» l act =>
      obtain ⟨service, hservice, hs⟩ := Option.bind_eq_some_iff.mp hs
      cases hs
      obtain ⟨r, hr, hservice⟩ := Option.bind_eq_some_iff.mp hservice
      obtain ⟨r', hr', hservice⟩ := Option.bind_eq_some_iff.mp hservice
      cases hservice
      exact h.at hfits hr hr'

theorem not_delivers_dispatch {l : ℕ} (hfits : ¬ c.Fits link id (.service (.dispatch l)))
    (hs : c.step parses link id (.service (.dispatch l)) = some c') : ¬ c'.Delivers link id := by
  intro hdelivers
  refine hfits fun heq r hr frame hframe hours hcarried hdata session hsession hclient => ?_
  by_contra hover
  subst heq hours
  cases hs
  obtain ⟨rest, harrived⟩ : ∃ rest, r.arrived = frame :: rest := List.head?_eq_some_iff.mp hframe
  have hopen : frame.opcode ≠ .OPEN := by
    intro hopcode
    rw [hopcode] at hdata
    cases hdata
  have hdispatched : ∀ ready parses, (Service.dispatchNext ready parses r).sessions frame.session =
      some { session with inbox := session.inbox ++ [frame] } := by
    intro ready parses
    have hb := Registration.becomes_toClient { r with arrived := rest } frame.session frame.session
      frame
    unfold Service.dispatchNext
    rw [harrived]
    dsimp only
    unfold Registration.dispatch
    rw [if_neg hopen, if_pos hcarried, hb.session]
    change (r.sessions frame.session).map _ = _
    rw [hsession, Option.map_some, Registration.onlyAt, if_pos rfl, CarriedSession.told, hclient]
    cases hopcode : frame.opcode with
    | TEXT => rfl
    | BINARY => rfl
    | _ => rw [hopcode] at hdata; cases hdata
  obtain ⟨-, -, hheld⟩ := hdelivers _ (by
    rw [Option.mem_def]
    change (c.service.modifyLink l _).links[l]? = _
    rw [getElem?_modifyLink, hr, Option.map_some, if_pos rfl]) _ (hdispatched _ _)
  refine hover (Nat.le_trans ?_ (Nat.le_trans (Nat.le_add_right _ _) hheld))
  simp [CarriedSession.inboxBytes]

/-- What is not text is another text when the client has it. -/
theorem not_delivers_at (h : c.Flows link id) {l : ℕ} {act : Registration.Act}
    (hfits : ¬ c.Fits link id (.service (.at l act)))
    (hs : c.step parses link id (.service (.at l act)) = some c') : ¬ c'.Delivers link id := by
  intro hdelivers
  refine hfits fun heq r hr => ?_
  subst heq
  obtain ⟨service, hservice, hs⟩ := Option.bind_eq_some_iff.mp hs
  obtain rfl := Option.some.inj hs
  obtain ⟨old, hold, hservice⟩ := Option.bind_eq_some_iff.mp hservice
  obtain rfl := Option.some.inj (hr.symm.trans hold)
  obtain ⟨r', hr', hservice⟩ := Option.bind_eq_some_iff.mp hservice
  obtain rfl := Option.some.inj hservice
  have hlt : l < c.service.links.length := (List.getElem?_eq_some_iff.mp hr).1
  cases act with
  | paid k ok =>
    rintro rfl rfl session hsession hclosed next hnext hside hopcode client hclient hopen
    obtain ⟨other, next', rest, hother, hqueue, hb, -⟩ := Registration.paid_spec hr'
    obtain rfl := Option.some.inj (hsession.symm.trans hother)
    rw [hqueue] at hnext
    obtain rfl := Option.some.inj hnext
    have hflows := ((h.2 r hr).flows session hsession).toClient hclosed client hclient hopen
    have hwritten : (session.paidFor true next' rest).client = some { client with
        received := client.received ++ [(.TEXT, Text.recode next'.payload)] } := by
      rw [Option.mem_def] at hclient
      simp [CarriedSession.paidFor, hclosed, hside, hclient, hopen, hopcode]
    have hsession' : r'.sessions k = some (session.paidFor true next' rest) := by
      rw [(hb k).session, hsession, Option.map_some, Registration.onlyAt, if_pos rfl]
    obtain ⟨horder, -, -⟩ := hdelivers r' (List.getElem?_set_self hlt) _ hsession'
    have hprefix := horder _ hwritten
    dsimp only at hprefix
    rw [show fromHolderBy l k c.service (.at l (.paid k true)) = [] from rfl, List.append_nil,
      hflows, List.prefix_append_right_inj, hqueue, towards_cons,
      show towards true [next'] = [(next'.opcode, next'.payload)] by simp [towards, hside],
      List.cons_append, List.cons_prefix_cons] at hprefix
    exact (Prod.mk.inj hprefix.1).2
  | _ => exact trivial

/-- **A carried session delivers in order and within its bound exactly as long as what waits for its
client finds room**, and what it writes to the client as text is text. -/
theorem carriesFaithfully_iff (parses : List UInt8 → Bool) (link id : ℕ) {as : List Act}
    (h : Run (step parses link id) Free boot as c) :
    Always (step parses link id) (Delivers link id) boot as ↔
      Run (step parses link id) (Fits link id) boot as c := by
  refine h.always_iff_of_invariant (I := Flows link id) (fun _ hflows => hflows.delivers)
    (fun _ _ _ hflows hfits hs => hflows.step hfits hs) (fun s a s' hflows hfits hs => ?_)
    ⟨fun _ => ⟨rfl, rfl, rfl⟩, nofun⟩
  cases a with
  | clientClosing => exact absurd trivial hfits
  | service act =>
    cases act with
    | dispatch l => exact not_delivers_dispatch hfits hs
    | «at» l act => exact not_delivers_at hflows hfits hs
    | _ => exact absurd trivial hfits

instance (r : Registration) (frame : RelayFrame) : Decidable (r.HasRoom id frame) :=
  inferInstanceAs (Decidable (frame.session = id → id ∈ r.carried → frame.opcode.isData →
    ∀ session ∈ r.sessions id, session.client = none →
      session.inboxBytes + frame.payload.length ≤ RELAY_MAX_BUFFERED_BYTES))

/-- A write that is due to the client is text, if it is written as text. -/
instance (session : CarriedSession) : Decidable (∀ next ∈ session.queue.head?, next.toClient →
    next.opcode = .TEXT → ∀ client ∈ session.client, client.isOpen →
      Text.recode next.payload = next.payload) :=
  inferInstance

instance (r : Registration) : ∀ act : Registration.Act, Decidable (r.IsText id act)
  | .paid k ok => inferInstanceAs (Decidable (k = id → ok → ∀ session ∈ r.sessions id,
      session.closed = false → ∀ next ∈ session.queue.head?, next.toClient → next.opcode = .TEXT →
        ∀ client ∈ session.client, client.isOpen → Text.recode next.payload = next.payload))
  | .timeout _ | .resume _ | .attach _ | .clientMessage .. | .clientClosed _ | .abandon _
  | .admitted .. | .hostSend .. | .hostClose _ => .isTrue trivial

instance (c : Carriage) : ∀ a : Act, Decidable (c.Fits link id a)
  | .service (.dispatch l) => inferInstanceAs (Decidable (l = link →
      ∀ r ∈ c.service.links[link]?, ∀ frame ∈ r.arrived.head?, r.HasRoom id frame))
  | .service (.at l act) => inferInstanceAs (Decidable (l = link →
      ∀ r ∈ c.service.links[link]?, r.IsText id act))
  | .service .bind | .service (.register ..) | .service (.transport ..) | .service (.unregister _)
  | .service .onModuleDestroy | .service (.reserve ..) | .service (.carrying ..)
  | .service (.receive ..) | .clientClosing => .isTrue trivial

/-! ### A session that is carried, and one whose holder sends before its client is attached -/

def asked : List Act :=
  [.service (.register "holder" false), .service (.reserve "holder" []),
    .service (.carrying 0 true false)]

/-- The holder takes session 1 and says something before the client is attached; the client
answers, and the budget pays for both. -/
def spoken : List Act :=
  asked ++
    ([⟨.ACCEPT, 1, []⟩, ⟨.TEXT, 1, [104, 105]⟩] : List RelayFrame).flatMap (fun frame =>
      [.service (.receive 0 ((encodeRelayFrame frame).getD [])), .service (.dispatch 0)]) ++
    [.service (.at 0 (.resume 1)), .service (.at 0 (.attach 1)),
      .service (.at 0 (.clientMessage 1 true [1, 2])), .service (.at 0 (.paid 1 true)),
      .service (.at 0 (.paid 1 true))]

/-- What the client of session 1 has had. -/
def clientHad (c : Carriage) : Option (List Message) := do
  let r ← c.service.links[0]?
  let session ← r.sessions 1
  let client ← session.client
  return client.received

theorem carriesFaithfully_iff_spoken :
    (exec (step (fun _ => true) 0 1) Free boot spoken).bind clientHad = some [(.TEXT, [104, 105])] ∧
      (exec (step (fun _ => true) 0 1) Free boot spoken).map (·.toHolder) =
        some [(.BINARY, [1, 2])] ∧
      Always (step (fun _ => true) 0 1) (Delivers 0 1) boot spoken := by
  obtain ⟨c, hc⟩ : ∃ c, exec (step (fun _ => true) 0 1) (Fits 0 1) boot spoken = some c :=
    Option.isSome_iff_exists.mp (by decide +kernel)
  have hrun : Run (step (fun _ => true) 0 1) (Fits 0 1) boot spoken c := .ofExec hc
  exact ⟨by decide +kernel, by decide +kernel,
    (carriesFaithfully_iff _ 0 1 (hrun.mono fun _ _ _ => trivial)).mpr hrun⟩

theorem exists_receive {frame : RelayFrame} (hsession : frame.session < 2 ^ 32)
    (hpayload : frame.payload.length ≤ RELAY_MAX_FRAME_BYTES) :
    ∃ bytes, ∀ r : Registration, r.reader = Framing.Reader.fresh →
      Service.receive r bytes = { r with arrived := r.arrived ++ [frame] } := by
  obtain ⟨bytes, hbytes⟩ :=
    Option.isSome_iff_exists.mp (encodeRelayFrame_isSome hsession hpayload)
  refine ⟨bytes, fun r hr => ?_⟩
  have hall : Framing.decode scanRelayFrame [bytes].flatten = ([frame], some []) :=
    Framing.decode_flatten scanRelayFrame_lawful rfl
      (.cons (scanRelayFrame_encode hbytes hpayload) .nil)
  have hdecoded : Framing.decode scanRelayFrame bytes = ([frame], some []) := by
    simpa using hall
  have hpush : Framing.Reader.push scanRelayFrame Framing.Reader.fresh bytes =
      ([frame], Framing.Reader.fresh) := by
    unfold Framing.Reader.push Framing.Reader.fresh
    dsimp only
    rw [if_neg Bool.false_ne_true, List.nil_append, hdecoded]
  unfold Service.receive
  rw [hr, hpush]
  dsimp only
  rw [if_neg (by decide), ← hr]

/-- One byte more than a session may hold, in one message that a link may carry. -/
def tooMuch : RelayFrame := ⟨.BINARY, 1, List.replicate (RELAY_MAX_BUFFERED_BYTES + 1) 0⟩

/-- **What arrives before the client is attached is held whatever it weighs.** -/
theorem not_delivers_beforeAttach : ¬ ∀ (parses : List UInt8 → Bool) (link id : ℕ) (as : List Act)
    (c : Carriage), Run (step parses link id) Free boot as c → c.Delivers link id := by
  intro h
  have hsize : tooMuch.payload.length = RELAY_MAX_BUFFERED_BYTES + 1 := List.length_replicate ..
  obtain ⟨bytes, hbytes⟩ := @exists_receive tooMuch (by decide)
    (by rw [hsize]; decide)
  let first := (exec (step (fun _ => true) 0 1) Free boot asked).get (by decide +kernel)
  have hfirst : Run (step (fun _ => true) 0 1) Free boot asked first :=
    .ofExec (Option.some_get _).symm
  let second : Carriage := ⟨first.service.modifyLink 0 (Service.receive · bytes),
    first.fromHolder ++ [], first.fromClient ++ [], first.toHolder ++ []⟩
  let third : Carriage := ⟨second.service.modifyLink 0 (Service.dispatchNext false fun _ => true),
    second.fromHolder ++ fromHolderBy 0 1 second.service (.dispatch 0), second.fromClient ++ [],
    second.toHolder ++ []⟩
  have hsecond : step (fun _ => true) 0 1 first (.service (.receive 0 bytes)) = some second := rfl
  have hthird : step (fun _ => true) 0 1 second (.service (.dispatch 0)) = some third := rfl
  have hrun : Run (step (fun _ => true) 0 1) Free boot
      (asked ++ [.service (.receive 0 bytes), .service (.dispatch 0)]) third :=
    hfirst.append (.cons trivial hsecond (.cons trivial hthird (.nil _)))
  obtain ⟨r, hr, hreader, harrived, hcarried, session, hsession, hclient⟩ :
      ∃ r, first.service.links[0]? = some r ∧ r.reader = Framing.Reader.fresh ∧ r.arrived = [] ∧
        1 ∈ r.carried ∧ ∃ session, r.sessions 1 = some session ∧ session.client = none :=
    ⟨_, rfl, rfl, rfl, List.mem_cons_self, _, rfl, rfl⟩
  have hr' : second.service.links[0]? = some { r with arrived := [tooMuch] } := by
    change (first.service.modifyLink 0 _).links[0]? = _
    rw [getElem?_modifyLink, hr, Option.map_some, if_pos rfl, hbytes r hreader, harrived,
      List.nil_append]
  refine not_delivers_dispatch (fun hfits => ?_) hthird (h _ _ _ _ _ hrun)
  have hroom := hfits rfl _ hr' tooMuch rfl rfl hcarried rfl session hsession hclient
  rw [hsize] at hroom
  exact absurd hroom (by omega)

end Carriage

end MediaCenterSync.PeerRelay
