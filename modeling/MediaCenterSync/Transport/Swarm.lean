import Mathlib.Tactic.NormNum.Basic
import MediaCenterSync.TransferEngine.ChunkPlanner

/-!
# The swarm

A file is fetched from the gateways that hold it, each of which is asked once for the pieces it has
(`prepare`).  A fetch asks one peer after another, never one that was tried for it (`pick`), until
one answers with a stream.  Several fetches go on at a time over one session.

The peers of a session are a map by their identifier, kept as a list of distinct ones.  A set of
pieces is a list.
-/

namespace MediaCenterSync.Transport

open TransferEngine (ceilDiv)

/-- How many piece requests one peer may have outstanding at a time. -/
def PIPELINE_DEPTH : ℕ := 4

/-- Peers that fail this many pieces in a row are dropped from the set. -/
def FAILURE_LIMIT : ℕ := 3

structure ContentHolder where
  peerId : String
  peerName : String
  serviceId : String
  externalId : String
  depth : ℕ
deriving DecidableEq

structure ByteRange where
  start : ℕ
  last : ℕ

structure SwarmPeer where
  holder : ContentHolder
  available : List ℕ
  inFlight : ℕ
  failures : ℕ
  rate : ℚ
deriving DecidableEq

structure SwarmSession where
  contentId : String
  pieceLength : ℕ
  pieceCount : ℕ
  totalBytes : Option ℕ
  peers : List SwarmPeer
  delivered : List ℕ
deriving DecidableEq

structure TransferSourceRef where
  contentId : Option String
  sizeHint : Option ℕ
  holders : List ContentHolder

/-- The wire, as far as a session is prepared over it. -/
structure SwarmWire where
  usable : ContentHolder → Bool
  /-- Which pieces a peer says it holds. -/
  bitfield : ContentHolder → String → ℕ → Option (List ℕ)

inductive SwarmRefusal where
  | noContentId
  | noPeer
  | notHeld (pieceIndex : ℕ)
deriving DecidableEq

def pieceLengthOf (totalBytes : ℕ) : ℕ :=
  if 32 * 1024 * 1024 * 1024 < totalBytes then 16 * 1024 * 1024
  else if 8 * 1024 * 1024 * 1024 < totalBytes then 8 * 1024 * 1024
  else 4 * 1024 * 1024

/-! ### The session -/

/-- `Map.set`, under the identifier of the peer. -/
def setPeer (peers : List SwarmPeer) (peer : SwarmPeer) : List SwarmPeer :=
  if peers.any (·.holder.peerId = peer.holder.peerId) then
    peers.map fun one => if one.holder.peerId = peer.holder.peerId then peer else one
  else peers ++ [peer]

def freshPeer (pieceCount : ℕ) (holder : ContentHolder) (pieces : Option (List ℕ)) : SwarmPeer where
  holder := holder
  available := pieces.getD (List.range pieceCount)
  inFlight := 0
  failures := 0
  rate := 0

def hintOf (source : TransferSourceRef) : Option ℕ := source.sizeHint.filter (· ≠ 0)

/-- Build the peer set for a content identifier.  The holders are given in the order in which their
answers arrive. -/
def prepare (wire : SwarmWire) (source : TransferSourceRef) : Except SwarmRefusal SwarmSession :=
  match source.contentId.filter (· ≠ "") with
  | none => .error .noContentId
  | some contentId =>
    let pieceLength := ((hintOf source).map pieceLengthOf).getD (4 * 1024 * 1024)
    let pieceCount := ((hintOf source).map (ceilDiv · pieceLength)).getD 0
    let peers := (source.holders.filter wire.usable).foldl (fun peers holder =>
      setPeer peers (freshPeer pieceCount holder (wire.bitfield holder contentId pieceCount))) []
    if peers = [] then .error .noPeer
    else
      .ok { contentId, pieceLength, pieceCount, totalBytes := source.sizeHint, peers
            delivered := [] }

/-! ### The peer to ask -/

def candidates (session : SwarmSession) (pieceIndex : ℕ) (attempted : List String) :
    List SwarmPeer :=
  session.peers.filter fun peer =>
    peer.holder.peerId ∉ attempted ∧ peer.inFlight < PIPELINE_DEPTH ∧
      (peer.available = [] ∨ pieceIndex ∈ peer.available)

/-- The order of `sort`: nothing measured first, then the fastest, then the nearest. -/
def comesFirst (left right : SwarmPeer) : Bool :=
  if decide (left.rate = 0) ≠ decide (right.rate = 0) then left.rate = 0
  else if left.rate ≠ right.rate then right.rate < left.rate
  else left.holder.depth ≤ right.holder.depth

/-- `_pick`: the peer to ask for one piece. -/
def pick (session : SwarmSession) (pieceIndex : ℕ) (attempted : List String) : Option SwarmPeer :=
  ((candidates session pieceIndex attempted).insertionSort (comesFirst · ·)).head?

/-! ### Fetches -/

structure PieceRequest where
  holder : ContentHolder
  range : ByteRange
  pieceIndex : ℕ
  /-- The peers this fetch has tried, the holder among them. -/
  attempted : List String

/-- A session, with the requests that are out over it. -/
structure SwarmState where
  session : SwarmSession
  waiting : List PieceRequest
  streams : List PieceRequest
  /-- Every request that was made. -/
  asked : List PieceRequest

inductive SwarmEvent where
  /-- The engine asks for a range. -/
  | fetch (range : ByteRange) (chunkIndex : Option ℕ)
  /-- A peer answers a request with a stream, or rejects it. -/
  | opened (index : ℕ)
  | rejected (index : ℕ)
  /-- A stream comes to its end after so many milliseconds, or breaks. -/
  | ended (index elapsed : ℕ)
  | broken (index : ℕ)

namespace SwarmSession

variable (session : SwarmSession)

def update (peerId : String) (f : SwarmPeer → SwarmPeer) : SwarmSession :=
  { session with
    peers := session.peers.map fun peer => if peer.holder.peerId = peerId then f peer else peer }

def drop (peerId : String) : SwarmSession :=
  { session with peers := session.peers.filter (·.holder.peerId ≠ peerId) }

/-- A request that did not come through. -/
def fail (peerId : String) : SwarmSession :=
  session.update peerId fun peer =>
    { peer with inFlight := peer.inFlight - 1, failures := peer.failures + 1 }

def dropFailing (peerId : String) : SwarmSession :=
  if session.peers.any fun peer => peer.holder.peerId = peerId ∧ FAILURE_LIMIT ≤ peer.failures then
    session.drop peerId
  else session

end SwarmSession

/-- The loop of `fetch`, up to the next request. -/
def ask (state : SwarmState) (range : ByteRange) (pieceIndex : ℕ) (attempted : List String) :
    SwarmState :=
  match pick state.session pieceIndex attempted with
  | none => state
  | some peer =>
    let request : PieceRequest :=
      ⟨peer.holder, range, pieceIndex, attempted ++ [peer.holder.peerId]⟩
    { state with
      session := state.session.update peer.holder.peerId fun peer =>
        { peer with inFlight := peer.inFlight + 1 }
      waiting := state.waiting ++ [request]
      asked := state.asked ++ [request] }

def pieceIndexOf (session : SwarmSession) (range : ByteRange) (chunkIndex : Option ℕ) : ℕ :=
  chunkIndex.getD (range.start / session.pieceLength)

def step (state : SwarmState) : SwarmEvent → Option SwarmState
  | .fetch range chunkIndex =>
    some (ask state range (pieceIndexOf state.session range chunkIndex) [])
  | .opened index => do
    let request ← state.waiting[index]?
    return { state with
      waiting := state.waiting.eraseIdx index
      streams := state.streams ++ [request] }
  | .rejected index => do
    let request ← state.waiting[index]?
    let peerId := request.holder.peerId
    let session := (state.session.fail peerId).dropFailing peerId
    return ask { state with session := session, waiting := state.waiting.eraseIdx index }
      request.range request.pieceIndex request.attempted
  | .ended index elapsed => do
    let request ← state.streams[index]?
    let bytes : ℕ := request.range.last - request.range.start + 1
    let session := state.session.update request.holder.peerId fun peer =>
      { peer with
        rate := bytes / max 1 elapsed * 1000
        inFlight := peer.inFlight - 1
        failures := 0 }
    return { state with
      session := { session with delivered := session.delivered ++ [request.pieceIndex] }
      streams := state.streams.eraseIdx index }
  | .broken index => do
    let request ← state.streams[index]?
    return { state with
      session := state.session.fail request.holder.peerId
      streams := state.streams.eraseIdx index }

/-- A session nothing was asked over yet. -/
def opening (session : SwarmSession) : SwarmState := ⟨session, [], [], []⟩

def fetchChunk (chunk : TransferEngine.PlannedChunk) : SwarmEvent :=
  .fetch ⟨chunk.start, chunk.last⟩ (some chunk.index)

end MediaCenterSync.Transport

/-!
## The streams of a swarm

The session of `Swarm` again, at the grain its accounts are kept at: which fetch a request belongs
to, how many bytes of a stream the engine has read, and that the engine may destroy a stream it is
not done with.  A stream that is destroyed without an error (`destroy()`, a pause or a cancel) fires
neither `end` nor `error`, so nothing is entered for it.  A loop over it that is left early, by a
byte too many or a write that throws, destroys it with an error: it breaks.

What was read of a stream that is gone, and which fetches have been answered or refused, is kept for
the statements only.
-/

namespace MediaCenterSync.Transport

/-- One turn of the loop of a fetch. -/
structure Attempt where
  fetch : ℕ
  request : PieceRequest

def Attempt.peerId (attempt : Attempt) : String := attempt.request.holder.peerId

/-- A stream a peer answered with, and how many bytes of it were read. -/
structure PieceStream where
  attempt : Attempt
  received : ℕ

namespace PieceStream

def peerId (stream : PieceStream) : String := stream.attempt.peerId

def pieceIndex (stream : PieceStream) : ℕ := stream.attempt.request.pieceIndex

/-- The bytes that were asked for. -/
def length (stream : PieceStream) : ℕ :=
  stream.attempt.request.range.last - stream.attempt.request.range.start + 1

end PieceStream

structure Streams where
  session : SwarmSession
  fetches : ℕ
  waiting : List Attempt
  streams : List PieceStream
  /-- Every request that was made. -/
  asked : List Attempt
  answered : List ℕ
  refused : List ℕ
  /-- Streams that have ended, broken or been destroyed. -/
  gone : List PieceStream

inductive StreamEvent where
  | swarm (event : SwarmEvent)
  | read (index bytes : ℕ)
  /-- The engine destroys a stream without an error: `destroy()`, not a loop that is left. -/
  | destroyed (index : ℕ)

def SwarmSession.served (session : SwarmSession) (stream : PieceStream) (elapsed : ℕ) :
    SwarmSession :=
  let session := session.update stream.peerId fun peer =>
    { peer with
      rate := stream.length / max 1 elapsed * 1000
      inFlight := peer.inFlight - 1
      failures := 0 }
  { session with delivered := session.delivered ++ [stream.pieceIndex] }

namespace Streams

/-- A session nothing was asked over yet. -/
def opening (session : SwarmSession) : Streams where
  session := session
  fetches := 0
  waiting := []
  streams := []
  asked := []
  answered := []
  refused := []
  gone := []

/-- The loop of a fetch, up to the next request. -/
def ask (s : Streams) (fetch : ℕ) (range : ByteRange) (pieceIndex : ℕ) (attempted : List String) :
    Streams :=
  match pick s.session pieceIndex attempted with
  | none => { s with refused := s.refused ++ [fetch] }
  | some peer =>
    let attempt : Attempt :=
      ⟨fetch, peer.holder, range, pieceIndex, attempted ++ [peer.holder.peerId]⟩
    { s with
      session := s.session.update peer.holder.peerId fun peer =>
        { peer with inFlight := peer.inFlight + 1 }
      waiting := s.waiting ++ [attempt]
      asked := s.asked ++ [attempt] }

def close (s : Streams) (index : ℕ) (stream : PieceStream) (session : SwarmSession) : Streams :=
  { s with
    session := session
    streams := s.streams.eraseIdx index
    gone := s.gone ++ [stream] }

def step (s : Streams) : StreamEvent → Option Streams
  | .swarm (.fetch range chunkIndex) =>
    some (ask { s with fetches := s.fetches + 1 } s.fetches range
      (pieceIndexOf s.session range chunkIndex) [])
  | .swarm (.opened index) => do
    let attempt ← s.waiting[index]?
    return { s with
      waiting := s.waiting.eraseIdx index
      streams := s.streams ++ [⟨attempt, 0⟩]
      answered := s.answered ++ [attempt.fetch] }
  | .swarm (.rejected index) => do
    let attempt ← s.waiting[index]?
    let session := (s.session.fail attempt.peerId).dropFailing attempt.peerId
    return ask { s with session := session, waiting := s.waiting.eraseIdx index } attempt.fetch
      attempt.request.range attempt.request.pieceIndex attempt.request.attempted
  | .swarm (.ended index elapsed) => do
    let stream ← s.streams[index]?
    return s.close index stream (s.session.served stream elapsed)
  | .swarm (.broken index) => do
    let stream ← s.streams[index]?
    return s.close index stream (s.session.fail stream.peerId)
  | .read index bytes => do
    let stream ← s.streams[index]?
    return { s with
      streams := s.streams.set index { stream with received := stream.received + bytes } }
  | .destroyed index => do
    let stream ← s.streams[index]?
    return s.close index stream s.session

/-- The session, with the requests that are out over it. -/
def forget (s : Streams) : SwarmState where
  session := s.session
  waiting := s.waiting.map (·.request)
  streams := s.streams.map (·.attempt.request)
  asked := s.asked.map (·.request)

end Streams

end MediaCenterSync.Transport
