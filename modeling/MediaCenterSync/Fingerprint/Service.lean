import MediaCenterSync.Lib.Text

/-!
# The identity of a file

A file is identified by its size and the bytes of at most three windows of it, hashed
(`fingerprintOf`).  The windows are a function of the size, so that two gateways that never speak
read the same bytes.  They are read from the disk (`fingerprint`), or fetched from a media server
that serves ranges (`remoteFingerprint`).

The hash is a parameter: `Sha256` is what is taken for granted of it.
-/

namespace MediaCenterSync.Fingerprint

open Text (utf8)

def SAMPLE_SIZE : ℕ := 256 * 1024

/-- The version marker in front of every identifier. -/
def FINGERPRINT_VERSION : String := "q1"

def READ_CEILING : ℕ := SAMPLE_SIZE * 2

structure FileFingerprint where
  size : ℕ
  quickHash : String
  contentId : String

/-- `createHash('sha256')`, of all that it is updated with, in hexadecimal. -/
structure Sha256 where
  digest : List UInt8 → String
  injective : Function.Injective digest
  hexadecimal : ∀ data, ∀ c ∈ (digest data).toList, c ∈ "0123456789abcdef".toList

structure Window where
  offset : ℕ
  length : ℕ
deriving DecidableEq

def sampleWindows (size : ℕ) : List Window :=
  if size ≤ SAMPLE_SIZE * 3 then [⟨0, size⟩]
  else
    [⟨0, SAMPLE_SIZE⟩, ⟨size / 2 - SAMPLE_SIZE / 2, SAMPLE_SIZE⟩, ⟨size - SAMPLE_SIZE, SAMPLE_SIZE⟩]

def contentId (sha : Sha256) (quickHash : String) (size : ℕ) : String :=
  FINGERPRINT_VERSION ++ "-" ++
    sha.digest (utf8 (FINGERPRINT_VERSION ++ ":" ++ quickHash ++ ":" ++ toString size))

/-- `fingerprintOf`: the same identity, computed from wherever the bytes can be read; `none` where a
read throws. -/
def fingerprintOf (sha : Sha256) (size : ℕ) (read : Window → Option (List UInt8)) :
    Option FileFingerprint := do
  let chunks ← ((sampleWindows size).filter (0 < ·.length)).mapM fun window => do
    return (← read window).take window.length
  let quickHash :=
    sha.digest (utf8 (FINGERPRINT_VERSION ++ ":" ++ toString size ++ ":") ++ chunks.flatten)
  return ⟨size, quickHash, contentId sha quickHash size⟩

def Window.of (window : Window) (content : List UInt8) : List UInt8 :=
  (content.drop window.offset).take window.length

/-- `FingerprintService.fingerprint`, of a file that is not written to. -/
def fingerprint (sha : Sha256) (content : List UInt8) : Option FileFingerprint :=
  fingerprintOf sha content.length fun window => some (window.of content)

/-! ### Over the network -/

/-- What a media server answers to a request for a range. -/
inductive Answer where
  | error
  /-- The response, by the buffers it comes in; `breaks` where it ends in an error. -/
  | opened (acceptsRanges : Bool) (buffers : List (List UInt8)) (breaks : Bool)

/-- The loop over the buffers of a response: it stops when it has the window, or has read more than
the ceiling. -/
def collect (length : ℕ) (breaks : Bool) : List (List UInt8) → List UInt8 → Option (List UInt8)
  | [], chunks => if breaks then none else some chunks
  | buffer :: rest, chunks =>
    let chunks := chunks ++ buffer
    if length ≤ chunks.length then some chunks
    else if READ_CEILING < chunks.length then some chunks
    else collect length breaks rest chunks

/-- The read of a window, from what is answered to `start` and `end`. -/
def fetch (openStream : ℕ → ℕ → Answer) (window : Window) : Option (List UInt8) :=
  match openStream window.offset (window.offset + window.length - 1) with
  | .error => none
  | .opened false _ _ => none
  | .opened true buffers breaks =>
    (collect window.length breaks buffers []).map (·.take window.length)

/-- `RemoteFingerprintService.fingerprint`, with the handler of the service when there is one. -/
def remoteFingerprint (sha : Sha256) (handler : Option (ℕ → ℕ → Answer)) (size : ℕ) :
    Option FileFingerprint :=
  if size = 0 then none
  else handler.bind fun openStream => fingerprintOf sha size (fetch openStream)

end MediaCenterSync.Fingerprint
