import MediaCenterSync.Lib.Text
import MediaCenterSync.PeerRelay.Frames

/-!
# One link and what rides on it

A registration is one live peer link with the sessions it carries for two friends (`carried`, asked
for by `reserve`) and those that are carried to this gateway (`hosted`, opened by an `OPEN` frame).
The operations are the service's on one registration; a frame handed to the transport goes to the
end of `outbox`.

The maps hold session numbers.  A session and a socket outlive their entries: whoever was handed one
keeps it, so `sessions` and `sockets` have every one there has been, by its number.
-/

namespace MediaCenterSync.PeerRelay

def RELAY_MAX_SESSIONS : ℕ := 4

/-- How many bytes one carried session may have waiting to be written. -/
def RELAY_MAX_BUFFERED_BYTES : ℕ := 4 * 1024 * 1024

inductive RelayRefusal where
  | NOT_CARRYING
  | AT_CAPACITY
  | NO_ROUTE
  | NOT_ADDRESSED
  | DECLINED
  | OVERFLOW
  | LINK_LOST
deriving DecidableEq

def RelayRefusal.value : RelayRefusal → String
  | .NOT_CARRYING => "not_carrying"
  | .AT_CAPACITY => "at_capacity"
  | .NO_ROUTE => "no_route"
  | .NOT_ADDRESSED => "not_addressed"
  | .DECLINED => "declined"
  | .OVERFLOW => "overflow"
  | .LINK_LOST => "link_lost"

/-- How far a `reserve` that has its session has come.  The answer `none` is no refusal. -/
inductive Reserve where
  | waiting
  /-- Its promise is resolved and it has not been resumed. -/
  | answered (refusal : Option RelayRefusal)
  | returned (refusal : Option RelayRefusal)
  | threw
deriving DecidableEq

/-- Resolving the promise, which happens once. -/
def Reserve.resolve (reserve : Reserve) (refusal : Option RelayRefusal) : Reserve :=
  match reserve with
  | .waiting => .answered refusal
  | reserve => reserve

structure CarriedClient where
  isOpen : Bool
  received : List (RelayOpcode × List UInt8)

/-- A frame that waits for the bandwidth budget, and which way it goes. -/
structure Write where
  toClient : Bool
  opcode : RelayOpcode
  payload : List UInt8

/-- One link this gateway is carrying for two friends. -/
structure CarriedSession where
  reserve : Reserve
  client : Option CarriedClient
  inbox : List RelayFrame
  pending : ℕ
  queue : List Write
  /-- Whether the callback is installed. -/
  settle : Bool
  timer : Bool
  closed : Bool

/-- `session.settle?.(refusal)` -/
def CarriedSession.answer (session : CarriedSession) (refusal : Option RelayRefusal) :
    CarriedSession :=
  if session.settle then { session with reserve := session.reserve.resolve refusal } else session

def CarriedSession.settled (session : CarriedSession) : CarriedSession :=
  { session with timer := false, settle := false }

/-- What `_closeCarried` makes of a session. -/
def CarriedSession.close (session : CarriedSession) : CarriedSession :=
  { session.settled with
    closed := true
    client := session.client.map fun client => { client with isOpen := false } }

/-- A socket that is really a session on somebody else's link. -/
structure RelayedSocket where
  isOpen : Bool
  /-- Whether the endpoint has still to answer for it. -/
  admitting : Bool
  received : List (RelayOpcode × List UInt8)

structure Registration where
  peerId : String
  dialled : Bool
  /-- `transport.open` -/
  isOpen : Bool
  /-- Whether the service still has it in `_links`. -/
  linked : Bool
  reader : RelayFrameReader
  /-- Frames that were read and are to be dispatched. -/
  arrived : List RelayFrame
  next : ℕ
  sessions : ℕ → Option CarriedSession
  carried : List ℕ
  sockets : ℕ → Option RelayedSocket
  hosted : List ℕ
  outbox : List RelayFrame

namespace Registration

/-- `register`: the side that dialled numbers from two, the side that answered from one. -/
def create (peerId : String) (dialled : Bool) : Registration :=
  { peerId := peerId, dialled := dialled, isOpen := true, linked := true, reader := .fresh
    arrived := [], next := if dialled then 2 else 1, sessions := fun _ => none, carried := []
    sockets := fun _ => none, hosted := [], outbox := [] }

def setSession (r : Registration) (id : ℕ) (session : CarriedSession) : Registration :=
  { r with sessions := Function.update r.sessions id (some session) }

def setSocket (r : Registration) (id : ℕ) (socket : RelayedSocket) : Registration :=
  { r with sockets := Function.update r.sockets id (some socket) }

/-- `transport.send` -/
def send (r : Registration) (opcode : RelayOpcode) (id : ℕ) (payload : List UInt8) :
    Registration :=
  { r with outbox := r.outbox ++ [⟨opcode, id, payload⟩] }

def sendIfOpen (r : Registration) (opcode : RelayOpcode) (id : ℕ) (payload : List UInt8) :
    Registration :=
  if r.isOpen then r.send opcode id payload else r

def forgetCarried (r : Registration) (id : ℕ) : Registration :=
  { r with carried := r.carried.filter (· ≠ id) }

def forgetHosted (r : Registration) (id : ℕ) : Registration :=
  { r with hosted := r.hosted.filter (· ≠ id) }

/-! ### Carrying -/

/-- `_closeCarried`: both ends are told, and told at most once. -/
def closeCarried (r : Registration) (id : ℕ) : Registration :=
  match r.sessions id with
  | none => r
  | some session =>
    if session.closed then r
    else ((r.setSession id session.close).forgetCarried id).sendIfOpen .CLOSE id []

/-- `_forward`, up to where it waits for the budget. -/
def forward (r : Registration) (id : ℕ) (write : Write) : Registration :=
  match r.sessions id with
  | none => r
  | some session =>
    if session.closed then r
    else
      let session := { session with pending := session.pending + write.payload.length }
      if RELAY_MAX_BUFFERED_BYTES < session.pending then (r.setSession id session).closeCarried id
      else r.setSession id { session with queue := session.queue ++ [write] }

/-- `_toClient`: a frame from the holder. -/
def toClient (r : Registration) (id : ℕ) (frame : RelayFrame) : Registration :=
  match r.sessions id with
  | none => r
  | some session =>
    match frame.opcode with
    | .ACCEPT => r.setSession id (session.answer none)
    | .REFUSE => r.setSession id (session.answer (some .DECLINED))
    | .CLOSE => r.closeCarried id
    | .OPEN => r
    | .TEXT | .BINARY =>
      match session.client with
      | none => r.setSession id { session with inbox := session.inbox ++ [frame] }
      | some _ => r.forward id ⟨true, frame.opcode, frame.payload⟩

/-- `reserve` once it has a route, up to where it waits for the holder.  The transport may throw. -/
def reserve (r : Registration) (payload : List UInt8) (throws : Bool) : Registration :=
  let id := r.next
  let session : CarriedSession :=
    { reserve := if throws then .threw else .waiting, client := none, inbox := [], pending := 0
      queue := [], settle := true, timer := true, closed := false }
  let r := { r.setSession id session with next := id + 2, carried := r.carried ++ [id] }
  if throws then r else r.send .OPEN id payload

/-- The timer of a `reserve` fires, unless it was cleared. -/
def timeout (r : Registration) (id : ℕ) : Option Registration := do
  let session ← r.sessions id
  if session.timer then
    r.setSession id
      { session with timer := false, reserve := session.reserve.resolve (some .DECLINED) }
  else none

/-- The rest of `reserve`, once its promise has resolved. -/
def resume (r : Registration) (id : ℕ) : Option Registration := do
  let session ← r.sessions id
  match session.reserve with
  | .answered refusal =>
    let session := { session.settled with reserve := .returned refusal }
    match refusal with
    | none => r.setSession id session
    | some _ => (r.setSession id { session with closed := true }).forgetCarried id
  | _ => none

/-- `attach`, called once for a session that was handed out. -/
def attach (r : Registration) (id : ℕ) : Option Registration := do
  let session ← r.sessions id
  if session.reserve = .returned none ∧ session.client = none then
    if session.closed then r
    else
      let attached := r.setSession id { session with client := some ⟨true, []⟩, inbox := [] }
      some (session.inbox.foldl (fun r frame => r.toClient id frame) attached)
  else none

/-- The dialler's socket has a message, for `_toHolder`. -/
def clientMessage (r : Registration) (id : ℕ) (isBinary : Bool) (data : List UInt8) :
    Option Registration := do
  let session ← r.sessions id
  if session.client.isSome then
    r.forward id ⟨false, if isBinary then .BINARY else .TEXT, data⟩
  else none

def clientClosed (r : Registration) (id : ℕ) : Option Registration := do
  let session ← r.sessions id
  if session.client.isSome then r.closeCarried id else none

/-- `abandon`, for a session that was handed out. -/
def abandon (r : Registration) (id : ℕ) : Option Registration := do
  let session ← r.sessions id
  if session.reserve = .returned none then r.closeCarried id else none

/-- The write itself, at the head of the queue; what is not binary goes to the client as text. -/
def write (r : Registration) (id : ℕ) (session : CarriedSession) (write : Write) : Registration :=
  if session.closed then r
  else if write.toClient then
    match session.client with
    | some client =>
      if client.isOpen then
        let data := if write.opcode = .BINARY then write.payload else Text.recode write.payload
        let received := client.received ++ [(write.opcode, data)]
        r.setSession id { session with client := some { client with received := received } }
      else r
    | none => r
  else r.sendIfOpen write.opcode id write.payload

/-- The budget has paid for the frame at the head of the queue, or failed. -/
def paid (r : Registration) (id : ℕ) (ok : Bool) : Option Registration := do
  let session ← r.sessions id
  match session.queue with
  | [] => none
  | next :: rest =>
    let session := { session with queue := rest }
    if ok then
      let session := { session with pending := session.pending - next.payload.length }
      (r.setSession id session).write id session next
    else (r.setSession id session).closeCarried id

/-! ### Being carried to -/

/-- The payload of a `REFUSE` frame. -/
def refusalPayload (reason : RelayRefusal) : List UInt8 :=
  ("\x7b\"reason\":\"" ++ reason.value ++ "\"\x7d").toUTF8.data.toList

/-- `_host`, up to where it waits for the endpoint.  `ready` is that there is one and that the
service is not stopping, `parses` that the payload can be read. -/
def host (r : Registration) (ready : Bool) (parses : List UInt8 → Bool) (frame : RelayFrame) :
    Registration :=
  let refuse (reason : RelayRefusal) := r.send .REFUSE frame.session (refusalPayload reason)
  if !ready then refuse .DECLINED
  else if RELAY_MAX_SESSIONS ≤ r.hosted.length then refuse .AT_CAPACITY
  else if !parses frame.payload then refuse .NOT_ADDRESSED
  else
    { r.setSocket frame.session ⟨true, true, []⟩ with
      hosted := r.hosted.filter (· ≠ frame.session) ++ [frame.session] }

/-- The rest of `_host`, once the endpoint has answered. -/
def admitted (r : Registration) (id : ℕ) (ok : Bool) : Option Registration := do
  let socket ← r.sockets id
  if socket.admitting then
    let r := r.setSocket id { socket with admitting := false }
    if ok then r.send .ACCEPT id []
    else (r.forgetHosted id).send .REFUSE id (refusalPayload .DECLINED)
  else none

/-- `RelayedSocket.send` -/
def hostSend (r : Registration) (id : ℕ) (isBinary : Bool) (data : List UInt8) :
    Option Registration := do
  let socket ← r.sockets id
  if socket.isOpen then r.sendIfOpen (if isBinary then .BINARY else .TEXT) id data else r

/-- `RelayedSocket.close` -/
def hostClose (r : Registration) (id : ℕ) : Option Registration := do
  let socket ← r.sockets id
  if socket.isOpen then
    ((r.setSocket id { socket with isOpen := false }).forgetHosted id).sendIfOpen .CLOSE id []
  else r

/-- `RelayedSocket.dropped`, with its entry gone. -/
def drop (r : Registration) (id : ℕ) : Registration :=
  match r.sockets id with
  | some socket => (r.setSocket id { socket with isOpen := false }).forgetHosted id
  | none => r.forgetHosted id

/-- `RelayedSocket.deliver` -/
def deliverTo (r : Registration) (id : ℕ) (opcode : RelayOpcode) (payload : List UInt8) :
    Registration :=
  match r.sockets id with
  | some socket =>
    if socket.isOpen then
      r.setSocket id { socket with received := socket.received ++ [(opcode, payload)] }
    else r
  | none => r

/-! ### The link -/

def dispatch (r : Registration) (ready : Bool) (parses : List UInt8 → Bool) (frame : RelayFrame) :
    Registration :=
  if frame.opcode = .OPEN then r.host ready parses frame
  else if frame.session ∈ r.carried then r.toClient frame.session frame
  else if frame.session ∈ r.hosted then
    match frame.opcode with
    | .CLOSE => r.drop frame.session
    | .TEXT | .BINARY => r.deliverTo frame.session frame.opcode frame.payload
    | .OPEN | .ACCEPT | .REFUSE => r
  else r

def unregister (r : Registration) : Registration :=
  if r.linked then
    let r := r.carried.foldl closeCarried { r with linked := false }
    r.hosted.foldl drop r
  else r

/-- What happens at one end of a link, apart from frames. -/
inductive Act where
  | timeout (id : ℕ)
  | resume (id : ℕ)
  | attach (id : ℕ)
  | clientMessage (id : ℕ) (isBinary : Bool) (data : List UInt8)
  | clientClosed (id : ℕ)
  | abandon (id : ℕ)
  | paid (id : ℕ) (ok : Bool)
  | admitted (id : ℕ) (ok : Bool)
  | hostSend (id : ℕ) (isBinary : Bool) (data : List UInt8)
  | hostClose (id : ℕ)

def step (r : Registration) : Act → Option Registration
  | .timeout id => r.timeout id
  | .resume id => r.resume id
  | .attach id => r.attach id
  | .clientMessage id isBinary data => r.clientMessage id isBinary data
  | .clientClosed id => r.clientClosed id
  | .abandon id => r.abandon id
  | .paid id ok => r.paid id ok
  | .admitted id ok => r.admitted id ok
  | .hostSend id isBinary data => r.hostSend id isBinary data
  | .hostClose id => r.hostClose id

end Registration

end MediaCenterSync.PeerRelay
