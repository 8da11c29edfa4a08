import Mathlib.Algebra.GroupWithZero.Nat
import MediaCenterSync.Lib.Framing

/-!
# The relay envelope

Relayed traffic shares the binary channel of a peer link: a frame is a marker, an opcode, a session,
a length and so many bytes of payload.  `encodeRelayFrame` writes one, and the reader of a link
takes them off the bytes as they come.
-/

namespace MediaCenterSync.PeerRelay

open Framing

def RELAY_CHANNEL_MARKER : ℕ := 0xffffffff

/-- Marker, opcode, session, length. -/
def RELAY_FRAME_HEADER_BYTES : ℕ := 13

def RELAY_MAX_FRAME_BYTES : ℕ := 8 * 1024 * 1024

inductive RelayOpcode where
  | OPEN
  | ACCEPT
  | REFUSE
  | TEXT
  | BINARY
  | CLOSE
deriving DecidableEq, Repr

def RelayOpcode.value : RelayOpcode → ℕ
  | .OPEN => 1
  | .ACCEPT => 2
  | .REFUSE => 3
  | .TEXT => 4
  | .BINARY => 5
  | .CLOSE => 6

/-- `KNOWN_OPCODES`, by their values. -/
def RelayOpcode.ofValue : ℕ → Option RelayOpcode
  | 1 => some .OPEN
  | 2 => some .ACCEPT
  | 3 => some .REFUSE
  | 4 => some .TEXT
  | 5 => some .BINARY
  | 6 => some .CLOSE
  | _ => none

structure RelayFrame where
  opcode : RelayOpcode
  session : ℕ
  payload : List UInt8
deriving DecidableEq, Repr

/-! ### Numbers -/

/-- `writeUInt32BE`, which throws what does not fit. -/
def writeUInt32BE (n : ℕ) : Option (List UInt8) :=
  if n < 2 ^ 32 then
    some [.ofNat (n / 2 ^ 24), .ofNat (n / 2 ^ 16), .ofNat (n / 2 ^ 8), .ofNat n]
  else none

def readUInt8 (buffer : List UInt8) (offset : ℕ) : ℕ := (buffer.getD offset 0).toNat

def readUInt32BE (buffer : List UInt8) (offset : ℕ) : ℕ :=
  ((buffer.drop offset).take 4).foldl (fun n byte => 256 * n + byte.toNat) 0

/-! ### Frames -/

def encodeRelayFrame (frame : RelayFrame) : Option (List UInt8) := do
  let marker ← writeUInt32BE RELAY_CHANNEL_MARKER
  let session ← writeUInt32BE frame.session
  let length ← writeUInt32BE frame.payload.length
  return marker ++ [.ofNat frame.opcode.value] ++ session ++ length ++ frame.payload

def encodeRelayFrames (frames : List RelayFrame) : Option (List UInt8) :=
  (frames.mapM encodeRelayFrame).map List.flatten

/-- Is this binary message relayed traffic rather than a byte range? -/
def isRelayFrame (data : List UInt8) : Bool :=
  4 ≤ data.length ∧ readUInt32BE data 0 = RELAY_CHANNEL_MARKER

/-- What `push` finds at the head of its buffer. -/
def scanRelayFrame (buffer : List UInt8) : Scan UInt8 RelayFrame :=
  if buffer.length < RELAY_FRAME_HEADER_BYTES then .more
  else if readUInt32BE buffer 0 ≠ RELAY_CHANNEL_MARKER then .bad
  else
    let session := readUInt32BE buffer 5
    let length := readUInt32BE buffer 9
    match RelayOpcode.ofValue (readUInt8 buffer 4) with
    | none => .bad
    | some opcode =>
      -- Refused on the header, before the payload is waited for.
      if RELAY_MAX_FRAME_BYTES < length then .bad
      else
        let total := RELAY_FRAME_HEADER_BYTES + length
        if buffer.length < total then .more
        else .frame ⟨opcode, session, (buffer.take total).drop RELAY_FRAME_HEADER_BYTES⟩
          (buffer.drop total)

/-- Bytes in, whole frames out, holding on to whatever was left over. -/
abbrev RelayFrameReader := Reader UInt8

def RelayFrameReader.pushAll (reader : RelayFrameReader) (chunks : List (List UInt8)) :
    List RelayFrame × RelayFrameReader :=
  Reader.pushAll scanRelayFrame reader chunks

end MediaCenterSync.PeerRelay
