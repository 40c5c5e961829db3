import Residiuum.Format.FrameCodec

/-!
# Active segments: the append buffer and its seal

An `ActiveSegment` is a buffer of frames. Appends encode at its tail, write-through drops its head
and moves `baseOffset`, a checkpoint records four counters, and `sealSegment` appends a summary.

* **`decodeSummaryBody_encode`**: the summary body round trips.
-/

namespace Residiuum

open ByteLib

/-! ## Identities, errors and state -/

/-- Identity pair of a store segment. -/
structure SegmentId where
  storeId : Arr 16
  segmentId : Arr 16
  deriving DecidableEq, Repr

/-- Why a segment refuses a call. -/
inductive SegmentError where
  | frame (e : FrameVerifyError)
  | alreadySealed
  | missingDescriptor
  | reservedKind (kind : UInt8)
  | invalidEnvelope
  | checkpointMismatch
  deriving DecidableEq, Repr

/-- The `?` on a frame result inside the segment writer. -/
def liftFrame {α : Type} : Except FrameVerifyError α → Except SegmentError α
  | .ok a => .ok a
  | .error e => .error (.frame e)

theorem liftFrame_eq_ok {α : Type} {x : Except FrameVerifyError α} {a : α} :
    liftFrame x = .ok a ↔ x = .ok a := by
  cases x <;> simp [liftFrame]

/-- A point to return to. -/
structure ActiveSegmentCheckpoint where
  baseOffset : UInt64
  retainedLen : ℕ
  writerSequence : UInt64
  frameCount : UInt64
  isSealed : Bool
  deriving DecidableEq, Repr

/-- A segment that is written. -/
structure ActiveSegment where
  ids : SegmentId
  limits : SafetyLimits
  /-- The retained bytes, from `baseOffset` on. -/
  bytes : Bytes
  baseOffset : UInt64
  writerSequence : UInt64
  frameCount : UInt64
  isSealed : Bool
  createdNs : UInt64
  deriving DecidableEq, Repr

/-- A segment that is closed. -/
structure SealedSegment where
  ids : SegmentId
  limits : SafetyLimits
  bytes : Bytes
  frameCount : UInt64
  createdNs : UInt64
  deriving DecidableEq, Repr

def saturatingAdd (a b : UInt64) : UInt64 :=
  if a.toNat + b.toNat < 2 ^ 64 then a + b else UInt64.ofNat (2 ^ 64 - 1)

theorem toNat_saturatingAdd {a b : UInt64} (h : a.toNat + b.toNat < 2 ^ 64) :
    (saturatingAdd a b).toNat = a.toNat + b.toNat := by
  rw [saturatingAdd, if_pos h, UInt64.toNat_add, Nat.mod_eq_of_lt h]

/-! ## The fixed bodies -/

def DESCRIPTOR_BODY_LEN : ℕ := 16 + 16 + 8 + 4 + 8 + 8

def SUMMARY_BODY_LEN : ℕ := 16 + 16 + 8 + 8

def encodeDescriptorBody (ids : SegmentId) (createdNs : UInt64) (limits : SafetyLimits) : Bytes :=
  [ids.storeId.1, ids.segmentId.1, leBytes 8 createdNs.toNat,
    leBytes 4 limits.maxEnvelopeLen.toNat, leBytes 8 limits.maxBodyLen.toNat,
    leBytes 8 limits.maxFrameLen.toNat].flatten

def decodeDescriptorBody (body : Bytes) : Option (SegmentId × UInt64 × SafetyLimits) :=
  if body.length ≠ DESCRIPTOR_BODY_LEN then none
  else
    some (⟨toArr 16 (slice body 0 16), toArr 16 (slice body 16 32)⟩,
      UInt64.ofNat (ofLe (slice body 32 40)),
      ⟨UInt32.ofNat (ofLe (slice body 40 44)), UInt64.ofNat (ofLe (slice body 44 52)),
        UInt64.ofNat (ofLe (slice body 52 60))⟩)

def encodeSummaryBody (ids : SegmentId) (sealedByteLen frameCount : UInt64) : Bytes :=
  [ids.storeId.1, ids.segmentId.1, leBytes 8 sealedByteLen.toNat,
    leBytes 8 frameCount.toNat].flatten

def decodeSummaryBody (body : Bytes) : Option (SegmentId × UInt64 × UInt64) :=
  if body.length ≠ SUMMARY_BODY_LEN then none
  else
    some (⟨toArr 16 (slice body 0 16), toArr 16 (slice body 16 32)⟩,
      UInt64.ofNat (ofLe (slice body 32 40)), UInt64.ofNat (ofLe (slice body 40 48)))

theorem length_encodeSummaryBody (ids : SegmentId) (n k : UInt64) :
    (encodeSummaryBody ids n k).length = SUMMARY_BODY_LEN := by
  simp [encodeSummaryBody, SUMMARY_BODY_LEN, ids.storeId.2, ids.segmentId.2]

theorem decodeSummaryBody_encode (ids : SegmentId) (n k : UInt64) :
    decodeSummaryBody (encodeSummaryBody ids n k) = some (ids, n, k) := by
  have hs := ids.storeId.2
  have hg := ids.segmentId.2
  have h0 : slice (encodeSummaryBody ids n k) 0 16 = ids.storeId.1 :=
    slice_field _ (i := 0) (by simp) rfl (by simp [hs])
  have h1 : slice (encodeSummaryBody ids n k) 16 32 = ids.segmentId.1 :=
    slice_field _ (i := 1) (by simp) (by simp [fieldOffset, hs]) (by simp [hg])
  have h2 : slice (encodeSummaryBody ids n k) 32 40 = leBytes 8 n.toNat :=
    slice_field _ (i := 2) (by simp) (by simp [fieldOffset, hs, hg]) (by simp)
  have h3 : slice (encodeSummaryBody ids n k) 40 48 = leBytes 8 k.toNat :=
    slice_field _ (i := 3) (by simp) (by simp [fieldOffset, hs, hg]) (by simp)
  unfold decodeSummaryBody
  rw [if_neg (not_not.mpr (length_encodeSummaryBody ids n k)), h0, h1, h2, h3, toArr_val,
    toArr_val, ofLe_leBytes_u64, ofLe_leBytes_u64]

/-! ## The operations -/

namespace ActiveSegment

variable (seg : ActiveSegment) (R : Runtime)

/-- Logical byte length, the dropped head included. -/
def len : UInt64 :=
  saturatingAdd seg.baseOffset (UInt64.ofNat seg.bytes.length)

/-- The common end of `append_raw` and `append_parts`: encode at the tail, advance the counters.
The encoder checks everything before it writes, so an error leaves the segment as it was. -/
def appendEncoded (seg : ActiveSegment) (header : FrameHeader)
    (envelope body : Bytes) : Except SegmentError (ActiveSegment × UInt64) := do
  let offset := seg.len
  let bytes ← liftFrame (encodeFrameInto R seg.bytes header envelope body)
  return ({ seg with
    bytes := bytes
    writerSequence := saturatingAdd seg.writerSequence 1
    frameCount := saturatingAdd seg.frameCount 1 }, offset)

def rawHeader (kind : FrameKind) (envelope body : Bytes) (eventId : Arr 16) : FrameHeader where
  wireMajor := WIRE_MAJOR
  wireMinor := WIRE_MINOR
  frameKind := kind.asU8
  flags := ⟨0⟩
  -- `envelope.len() as u32`: a longer envelope is cut to its low 32 bits
  envelopeLen := UInt32.ofNat envelope.length
  bodyLen := UInt64.ofNat body.length
  logicalLen := UInt64.ofNat body.length
  writerSequence := seg.writerSequence
  eventId := eventId

def appendRaw (seg : ActiveSegment) (kind : FrameKind) (envelope body : Bytes)
    (eventId : Arr 16) : Except SegmentError (ActiveSegment × UInt64) :=
  let header := seg.rawHeader kind envelope body eventId
  if seg.limits.acceptsLengths header.envelopeLen header.bodyLen = false then
    throw (.frame .lengthsOutOfLimits)
  else seg.appendEncoded R header envelope body

/-- Append a content frame; the kinds of the segment's life cycle are refused. -/
def append (seg : ActiveSegment) (kind : FrameKind) (envelope body : Bytes)
    (eventId : Arr 16) : Except SegmentError (ActiveSegment × UInt64) :=
  if seg.isSealed then throw .alreadySealed
  else if kind = .segmentDescriptor ∨ kind = .segmentSummary then throw (.reservedKind kind.asU8)
  else seg.appendRaw R kind envelope body eventId

/-- Append a frame of any other kind byte. The limits are not consulted. -/
def appendParts (seg : ActiveSegment) (parts : FrameParts) :
    Except SegmentError (ActiveSegment × UInt64) :=
  if seg.isSealed then throw .alreadySealed
  else if parts.header.frameKind = FrameKind.segmentDescriptor.asU8 ∨
      parts.header.frameKind = FrameKind.segmentSummary.asU8 then
    throw (.reservedKind parts.header.frameKind)
  else
    seg.appendEncoded R { parts.header with writerSequence := seg.writerSequence } parts.envelope
      parts.body

/-- `create_with_descriptor_envelope`: an empty buffer, then the descriptor as frame 0. -/
def createWithDescriptorEnvelope (ids : SegmentId) (limits : SafetyLimits)
    (createdNs : UInt64) (envelope : Bytes) : Except SegmentError ActiveSegment :=
  match validateDeterministicCborEnvelope envelope with
  | .error _ => throw .invalidEnvelope
  | .ok () => do
    let seg : ActiveSegment := ⟨ids, limits, [], 0, 0, 0, false, createdNs⟩
    let body := encodeDescriptorBody ids createdNs limits
    let (seg, _) ← seg.appendRaw R .segmentDescriptor envelope body ids.segmentId
    return seg

def resumeUnsealed (ids : SegmentId) (limits : SafetyLimits) (bytes : Bytes)
    (frameCount writerSequence createdNs : UInt64) : Except SegmentError ActiveSegment :=
  if bytes = [] then throw .missingDescriptor
  else if frameCount = 0 then throw .missingDescriptor
  else return ⟨ids, limits, bytes, 0, writerSequence, frameCount, false, createdNs⟩

def checkpoint : ActiveSegmentCheckpoint :=
  ⟨seg.baseOffset, seg.bytes.length, seg.writerSequence, seg.frameCount, seg.isSealed⟩

/-- Restore a checkpoint: only the base offset and the retained length are compared. -/
def restoreCheckpoint (cp : ActiveSegmentCheckpoint) : Except SegmentError ActiveSegment :=
  if seg.baseOffset ≠ cp.baseOffset then throw .checkpointMismatch
  else if seg.bytes.length < cp.retainedLen then throw .checkpointMismatch
  else
    return { seg with
      bytes := seg.bytes.take cp.retainedLen
      writerSequence := cp.writerSequence
      frameCount := cp.frameCount
      isSealed := cp.isSealed }

/-- Drop the retained bytes below `absoluteEnd`. -/
def discardThrough (absoluteEnd : UInt64) : ActiveSegment :=
  if absoluteEnd ≤ seg.baseOffset then seg
  else
    let end_ := min absoluteEnd seg.len
    let dropN := (end_ - seg.baseOffset).toNat
    if dropN = 0 then seg
    else if dropN ≥ seg.bytes.length then { seg with bytes := [], baseOffset := end_ }
    else { seg with bytes := seg.bytes.drop dropN, baseOffset := end_ }

/-- The event id of a summary: the segment id with its last byte inverted. -/
def summaryEventId (ids : SegmentId) : Arr 16 :=
  ⟨ids.segmentId.1.set 15 (ids.segmentId.1.getD 15 0 ^^^ 0xff), by
    rw [List.length_set, ids.segmentId.2]⟩

def sealSegment (seg : ActiveSegment) : Except SegmentError SealedSegment :=
  if seg.isSealed then throw .alreadySealed
  else if seg.frameCount = 0 then throw .missingDescriptor
  else if seg.baseOffset ≠ 0 then throw .missingDescriptor
  else
    let framesAfter := seg.frameCount + 1
    let eventId := summaryEventId seg.ids
    match checkedFrameLen (UInt32.ofNat EMPTY_ENVELOPE.length) (UInt64.ofNat SUMMARY_BODY_LEN) with
    | none => throw (.frame .lengthsOutOfLimits)
    | some summaryFrameLen => do
      let sealedLen := UInt64.ofNat seg.bytes.length + summaryFrameLen
      let body := encodeSummaryBody seg.ids sealedLen framesAfter
      let (seg, _) ← seg.appendRaw R .segmentSummary EMPTY_ENVELOPE body eventId
      return ⟨seg.ids, seg.limits, seg.bytes, seg.frameCount, seg.createdNs⟩

end ActiveSegment

end Residiuum
