import Residiuum.Lib.Digest
import Residiuum.Format.Cbor

/-!
# Frames: the wire layout, the encoder and the verifier

A frame is a 64-byte prefix, an envelope, a body and a 56-byte suffix. CRC32C, BLAKE3 and the
thread-local diagnostic flag come from outside the crate; they are the fields of a `Runtime`.

* `verifyFrameAt`, `decodeFrame`: the reader, one check after the other.
-/

namespace Residiuum

open ByteLib

/-! ## What the codec takes from outside -/

/-- The digests and the diagnostic switch the codec runs with. -/
structure Runtime where
  crc32c : Bytes → UInt32
  crc32cAppend : UInt32 → Bytes → UInt32
  /-- The state of an incremental BLAKE3 computation. -/
  Hasher : Type
  hasherNew : Hasher
  update : Hasher → Bytes → Hasher
  finalize : Hasher → Arr 32
  /-- One-shot BLAKE3-256. -/
  blake3 : Bytes → Arr 32
  /-- Hashing in chunks is hashing the concatenation. -/
  finalize_foldl : ∀ chunks : List Bytes,
    finalize (chunks.foldl update hasherNew) = blake3 chunks.flatten
  /-- `DIAGNOSTIC_SKIP_BODY_HASH`; false in product code. -/
  diagnosticSkipBodyHash : Bool

def zeroHash : Arr 32 := ⟨List.replicate 32 0, rfl⟩

/-- CRC-32C and BLAKE3 as product code runs them. -/
def productRuntime : Runtime where
  crc32c := DigestLib.crc32c
  crc32cAppend := DigestLib.crc32cAppend
  Hasher := Bytes
  hasherNew := []
  update seen chunk := seen ++ chunk
  finalize := DigestLib.blake3
  blake3 := DigestLib.blake3
  finalize_foldl chunks := by
    have h : chunks.foldl (fun seen chunk => seen ++ id chunk) [] = [] ++ (chunks.map id).flatten :=
      List.foldl_append_eq_append
    rw [List.map_id, List.nil_append] at h
    exact congrArg DigestLib.blake3 h
  diagnosticSkipBodyHash := false

/-- Kinds of frames. -/
inductive FrameKind where
  | invalid
  | storeDescriptor
  | segmentDescriptor
  | itemEvent
  | payloadChunk
  | batchPrepare
  | batchCommit
  | segmentSummary
  | purgeAttestation
  | padding
  | heapDescriptor
  | collectionDescriptor
  | streamDescriptor
  | heapMigrationEvidence
  deriving DecidableEq, Repr

/-- Raw wire byte of a kind. -/
def FrameKind.asU8 : FrameKind → UInt8
  | .invalid => 0
  | .storeDescriptor => 1
  | .segmentDescriptor => 2
  | .itemEvent => 3
  | .payloadChunk => 4
  | .batchPrepare => 5
  | .batchCommit => 6
  | .segmentSummary => 7
  | .purgeAttestation => 8
  | .padding => 9
  | .heapDescriptor => 10
  | .collectionDescriptor => 11
  | .streamDescriptor => 12
  | .heapMigrationEvidence => 13

/-- The flags of a frame. -/
structure FrameFlags where
  raw : UInt8
  deriving DecidableEq, Repr

/-- Bounds applied when accepting or scanning frame candidates. -/
structure SafetyLimits where
  maxEnvelopeLen : UInt32
  maxBodyLen : UInt64
  maxFrameLen : UInt64
  deriving DecidableEq, Repr

def SafetyLimits.draftDefaults : SafetyLimits where
  maxEnvelopeLen := 64 * 1024
  maxBodyLen := 16 * 1024 * 1024
  maxFrameLen := 17 * 1024 * 1024

def checkedAdd (a b : UInt64) : Option UInt64 :=
  if a.toNat + b.toNat < 2 ^ 64 then some (a + b) else none

/-- `64 + envelope_len + body_len + 56` with overflow checks. -/
def checkedFrameLen (envelopeLen : UInt32) (bodyLen : UInt64) : Option UInt64 := do
  let fixed ← checkedAdd 64 56
  let env ← checkedAdd fixed envelopeLen.toUInt64
  checkedAdd env bodyLen

/-- Whether the declared lengths fit the limits and checked arithmetic. -/
def SafetyLimits.acceptsLengths (limits : SafetyLimits) (envelopeLen : UInt32)
    (bodyLen : UInt64) : Bool :=
  if envelopeLen > limits.maxEnvelopeLen ∨ bodyLen > limits.maxBodyLen then false
  else
    match checkedFrameLen envelopeLen bodyLen with
    | some frameLen => frameLen ≤ limits.maxFrameLen
    | none => false

/-! ## Headers, parts and errors -/

/-- Fixed prefix length in bytes. -/
def FRAME_PREFIX_LEN : ℕ := 64

/-- Fixed suffix length in bytes. -/
def FRAME_SUFFIX_LEN : ℕ := 56

/-- ASCII `RESIDFRM`. -/
def START_MAGIC : Bytes := [0x52, 0x45, 0x53, 0x49, 0x44, 0x46, 0x52, 0x4d]

/-- ASCII `RESIDEND`. -/
def END_MAGIC : Bytes := [0x52, 0x45, 0x53, 0x49, 0x44, 0x45, 0x4e, 0x44]

def WIRE_MAJOR : UInt8 := 1

def WIRE_MINOR : UInt8 := 0

/-- Logical header fields of the fixed prefix. -/
structure FrameHeader where
  wireMajor : UInt8
  wireMinor : UInt8
  frameKind : UInt8
  flags : FrameFlags
  envelopeLen : UInt32
  bodyLen : UInt64
  logicalLen : UInt64
  writerSequence : UInt64
  eventId : Arr 16
  deriving DecidableEq, Repr

def FrameHeader.newDraft (kind : FrameKind) (envelopeLen : UInt32) (bodyLen : UInt64)
    (eventId : Arr 16) : FrameHeader where
  wireMajor := WIRE_MAJOR
  wireMinor := WIRE_MINOR
  frameKind := kind.asU8
  flags := ⟨0⟩
  envelopeLen := envelopeLen
  bodyLen := bodyLen
  logicalLen := bodyLen
  writerSequence := 0
  eventId := eventId

/-- A frame to be encoded. -/
structure FrameParts where
  header : FrameHeader
  envelope : Bytes
  body : Bytes
  deriving DecidableEq, Repr

/-- A verified frame: the views of `verify_frame_at`, or their owned copies. -/
structure DecodedFrame where
  header : FrameHeader
  envelope : Bytes
  body : Bytes
  bodyHash : Arr 32
  frameLen : UInt64
  deriving DecidableEq, Repr

/-- Reasons a candidate fails structural verification. -/
inductive FrameVerifyError where
  | truncated (need have_ : ℕ)
  | badStartMagic
  | unsupportedWireMajor (major : UInt8)
  | lengthsOutOfLimits
  | badPrefixCrc
  | badEndMagic
  | badSuffixCrc
  | frameLenMismatch (suffixLen computed : UInt64)
  | badBodyHash
  | headerPayloadMismatch
  | reservedNonZero
  | trailingBytes (frameLen bufferLen : UInt64)
  | badEnvelopeCbor (e : CborEnvelopeError)
  deriving DecidableEq, Repr

/-- The `?` on a CBOR result inside the frame codec. -/
def liftCbor {α : Type} : Except CborEnvelopeError α → Except FrameVerifyError α
  | .ok a => .ok a
  | .error e => .error (.badEnvelopeCbor e)

variable (R : Runtime)

/-- CRC32C over the prefix with its CRC field zeroed, then the envelope. -/
def prefixCrc32c (pre envelope : Bytes) : UInt32 :=
  R.crc32cAppend (R.crc32c (copyAt pre 56 [0, 0, 0, 0])) envelope

/-- CRC32C over the suffix with its CRC field zeroed. -/
def suffixCrc32c (suf : Bytes) : UInt32 :=
  R.crc32c (copyAt suf 48 [0, 0, 0, 0])

def bodyHash (body : Bytes) : Arr 32 := R.blake3 body

/-! ## Encoding -/

def writePrefixFields (pre : Bytes) (header : FrameHeader) : Bytes :=
  let pre := copyAt pre 0 START_MAGIC
  let pre := copyAt pre 8 [header.wireMajor]
  let pre := copyAt pre 9 [header.wireMinor]
  let pre := copyAt pre 10 [header.frameKind]
  let pre := copyAt pre 11 [header.flags.raw]
  let pre := copyAt pre 12 (leBytes 4 header.envelopeLen.toNat)
  let pre := copyAt pre 16 (leBytes 8 header.bodyLen.toNat)
  let pre := copyAt pre 24 (leBytes 8 header.logicalLen.toNat)
  let pre := copyAt pre 32 (leBytes 8 header.writerSequence.toNat)
  copyAt pre 40 header.eventId.1

def encodePrefix (header : FrameHeader) (envelope : Bytes) : Bytes :=
  let pre := writePrefixFields (List.replicate FRAME_PREFIX_LEN 0) header
  copyAt pre 56 (leBytes 4 (prefixCrc32c R pre envelope).toNat)

def encodeSuffix (frameLen : UInt64) (hash : Arr 32) : Bytes :=
  let suf := List.replicate FRAME_SUFFIX_LEN 0
  let suf := copyAt suf 0 END_MAGIC
  let suf := copyAt suf 8 (leBytes 8 frameLen.toNat)
  let suf := copyAt suf 16 hash.1
  copyAt suf 48 (leBytes 4 (suffixCrc32c R suf).toNat)

/-- Bytes hashed and copied at a time. -/
def CHUNK : ℕ := 16 * 1024

/-- The loop of `append_body_hashed`: hash a chunk, copy it, move on. -/
def appendBodyLoop (R : Runtime) (body : Bytes) (offset : ℕ) (hasher : R.Hasher)
    (out : Bytes) : R.Hasher × Bytes :=
  if offset < body.length then
    let end_ := min (offset + CHUNK) body.length
    let chunk := slice body offset end_
    appendBodyLoop R body end_ (R.update hasher chunk) (out ++ chunk)
  else (hasher, out)
termination_by body.length - offset
decreasing_by simp only [CHUNK]; omega

def appendBodyHashed (out body : Bytes) : Arr 32 × Bytes :=
  if R.diagnosticSkipBodyHash then (zeroHash, out ++ body)
  else if body = [] then (bodyHash R body, out)
  else
    let (hasher, out) := appendBodyLoop R body 0 R.hasherNew out
    (R.finalize hasher, out)

def encodeFrameInto (out : Bytes) (header : FrameHeader)
    (envelope body : Bytes) : Except FrameVerifyError Bytes :=
  if UInt32.ofNat envelope.length ≠ header.envelopeLen ∨
      body.length ≠ header.bodyLen.toNat then
    throw .headerPayloadMismatch
  else if header.wireMajor ≠ WIRE_MAJOR then
    throw (.unsupportedWireMajor header.wireMajor)
  else do
    liftCbor (validateDeterministicCborEnvelope envelope)
    match checkedFrameLen header.envelopeLen header.bodyLen with
    | none => throw .lengthsOutOfLimits
    | some frameLen =>
      let out := out ++ encodePrefix R header envelope
      let out := out ++ envelope
      let (hash, out) := appendBodyHashed R out body
      return out ++ encodeSuffix R frameLen hash

def encodeFrame (parts : FrameParts) : Except FrameVerifyError Bytes :=
  match checkedFrameLen parts.header.envelopeLen parts.header.bodyLen with
  | none => throw .lengthsOutOfLimits
  | some _ => encodeFrameInto R [] parts.header parts.envelope parts.body

def readPrefixFields (pre : Bytes) : FrameHeader where
  wireMajor := pre.getD 8 0
  wireMinor := pre.getD 9 0
  frameKind := pre.getD 10 0
  flags := ⟨pre.getD 11 0⟩
  envelopeLen := UInt32.ofNat (ofLe (slice pre 12 16))
  bodyLen := UInt64.ofNat (ofLe (slice pre 16 24))
  logicalLen := UInt64.ofNat (ofLe (slice pre 24 32))
  writerSequence := UInt64.ofNat (ofLe (slice pre 32 40))
  eventId := toArr 16 (slice pre 40 56)

/-- The checks on envelope, body and suffix, once the candidate's regions are known. -/
def verifyRegions (header : FrameHeader) (frameLen : UInt64)
    (pre envelope body suf : Bytes) : Except FrameVerifyError DecodedFrame :=
  if prefixCrc32c R pre envelope ≠ UInt32.ofNat (ofLe (slice pre 56 60)) then
    throw .badPrefixCrc
  else do
    liftCbor (validateDeterministicCborEnvelope envelope)
    if slice suf 0 8 ≠ END_MAGIC then throw .badEndMagic
    else if suffixCrc32c R suf ≠ UInt32.ofNat (ofLe (slice suf 48 52)) then throw .badSuffixCrc
    else if UInt64.ofNat (ofLe (slice suf 8 16)) ≠ frameLen then
      throw (.frameLenMismatch (UInt64.ofNat (ofLe (slice suf 8 16))) frameLen)
    else if bodyHash R body ≠ toArr 32 (slice suf 16 48) then throw .badBodyHash
    else return ⟨header, envelope, body, bodyHash R body, frameLen⟩

/-- Verify a candidate at the start of `bytes`; bytes after the frame are not looked at. -/
def verifyFrameAt (bytes : Bytes) (limits : SafetyLimits) : Except FrameVerifyError DecodedFrame :=
  if bytes.length < FRAME_PREFIX_LEN then throw (.truncated FRAME_PREFIX_LEN bytes.length)
  else
    let pre := slice bytes 0 FRAME_PREFIX_LEN
    if slice pre 0 8 ≠ START_MAGIC then throw .badStartMagic
    else if pre.getD 8 0 ≠ WIRE_MAJOR then throw (.unsupportedWireMajor (pre.getD 8 0))
    else
      let header := readPrefixFields pre
      if limits.acceptsLengths header.envelopeLen header.bodyLen = false then
        throw .lengthsOutOfLimits
      else
        match checkedFrameLen header.envelopeLen header.bodyLen with
        | none => throw .lengthsOutOfLimits
        | some frameLen =>
          if bytes.length < frameLen.toNat then throw (.truncated frameLen.toNat bytes.length)
          else
            let envEnd := FRAME_PREFIX_LEN + header.envelopeLen.toNat
            let bodyEnd := envEnd + header.bodyLen.toNat
            verifyRegions R header frameLen pre (slice bytes FRAME_PREFIX_LEN envEnd)
              (slice bytes envEnd bodyEnd) (slice bytes bodyEnd frameLen.toNat)

/-- Verify a buffer that must be exactly one frame. -/
def decodeFrame (bytes : Bytes) (limits : SafetyLimits) :
    Except FrameVerifyError DecodedFrame := do
  let frame ← verifyFrameAt R bytes limits
  if bytes.length ≠ frame.frameLen.toNat then
    throw (.trailingBytes frame.frameLen (UInt64.ofNat bytes.length))
  else return frame

end Residiuum
