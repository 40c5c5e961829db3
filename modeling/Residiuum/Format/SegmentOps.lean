import Residiuum.Format.Segment

/-!
# Active segments: what each operation does

Every operation of the writer, as an equation on the segment it leaves behind.

* **`create_eq_ok`**, **`sealSegment_eq_ok`**: the life cycle frames are written through `push`.
* **`AppendCall.run_eq_ok`**: an accepted call puts one frame image at the end.
* **`discardThrough_eq`**: write-through moves a stretch of the buffer below `baseOffset`.
* **`accepted_readable_iff`**: which accepted frames can be read back.
-/

namespace Residiuum

open ByteLib

def FrameParts.image (R : Runtime) (parts : FrameParts) : Bytes :=
  frameImage R parts.header parts.envelope parts.body

/-- The parts pass the limits, as declared in their header, and the encoder. -/
structure FrameParts.Writable (limits : SafetyLimits) (parts : FrameParts) : Prop where
  accepted : limits.acceptsLengths parts.header.envelopeLen parts.header.bodyLen = true
  encodable : Encodable parts.header parts.envelope parts.body

variable {limits : SafetyLimits}

theorem Encodable.readable_iff {R : Runtime} {parts : FrameParts}
    (henc : Encodable parts.header parts.envelope parts.body)
    (hskip : R.diagnosticSkipBodyHash = false) :
    (∃ f, verifyFrameAt R (parts.image R) limits = .ok f) ↔
      limits.Accepts parts.envelope.length parts.body.length := by
  rw [← verify_frameImage_iff hskip henc [], List.append_nil]
  simp only [verifyFrameAt_eq_ok]
  rfl

/-! ## Creating and sealing -/

namespace ActiveSegment

/-- The segment with one more frame, whose bytes are `image`. -/
def push (seg : ActiveSegment) (image : Bytes) : ActiveSegment :=
  { seg with
    bytes := seg.bytes ++ image
    writerSequence := saturatingAdd seg.writerSequence 1
    frameCount := saturatingAdd seg.frameCount 1 }

variable {R : Runtime} {seg seg' : ActiveSegment} {offset : UInt64} {envelope body : Bytes}

theorem toNat_len (seg : ActiveSegment) (h : seg.baseOffset.toNat + seg.bytes.length < 2 ^ 64) :
    seg.len.toNat = seg.baseOffset.toNat + seg.bytes.length := by
  have hlt : (UInt64.ofNat seg.bytes.length).toNat = seg.bytes.length :=
    UInt64.toNat_ofNat_of_lt' (by change _ < 2 ^ 64; omega)
  unfold len
  rw [toNat_saturatingAdd (by rw [hlt]; exact h), hlt]

theorem appendEncoded_eq_ok {header : FrameHeader} :
    seg.appendEncoded R header envelope body = .ok (seg', offset) ↔
      Encodable header envelope body ∧ seg' = seg.push (frameImage R header envelope body) ∧
        offset = seg.len := by
  unfold appendEncoded
  simp only [bind_eq_ok, liftFrame_eq_ok, encodeFrameInto_eq_ok]
  constructor
  · rintro ⟨bytes, ⟨henc, rfl⟩, hrun⟩
    cases hrun
    exact ⟨henc, rfl, rfl⟩
  · rintro ⟨henc, rfl, rfl⟩
    exact ⟨_, ⟨henc, rfl⟩, rfl⟩

theorem appendRaw_eq_ok {kind : FrameKind} {eventId : Arr 16} :
    seg.appendRaw R kind envelope body eventId = .ok (seg', offset) ↔
      seg.limits.acceptsLengths (UInt32.ofNat envelope.length) (UInt64.ofNat body.length) = true ∧
      Encodable (seg.rawHeader kind envelope body eventId) envelope body ∧
      seg' = seg.push (frameImage R (seg.rawHeader kind envelope body eventId) envelope body) ∧
      offset = seg.len := by
  unfold appendRaw
  simp only [ite_throw_eq_ok, appendEncoded_eq_ok, Bool.not_eq_false]
  rfl

def blank (ids : SegmentId) (limits : SafetyLimits) (createdNs : UInt64) : ActiveSegment :=
  ⟨ids, limits, [], 0, 0, 0, false, createdNs⟩

def descriptorParts (ids : SegmentId) (limits : SafetyLimits) (createdNs : UInt64)
    (envelope : Bytes) : FrameParts :=
  let body := encodeDescriptorBody ids createdNs limits
  ⟨(blank ids limits createdNs).rawHeader .segmentDescriptor envelope body ids.segmentId,
    envelope, body⟩

/-- A segment that holds its descriptor and nothing else. -/
def created (R : Runtime) (ids : SegmentId) (limits : SafetyLimits) (createdNs : UInt64)
    (envelope : Bytes) : ActiveSegment :=
  (blank ids limits createdNs).push ((descriptorParts ids limits createdNs envelope).image R)

def summaryParts (seg : ActiveSegment) : FrameParts :=
  let body := encodeSummaryBody seg.ids (UInt64.ofNat seg.bytes.length + 169) (seg.frameCount + 1)
  ⟨seg.rawHeader .segmentSummary EMPTY_ENVELOPE body (summaryEventId seg.ids), EMPTY_ENVELOPE, body⟩

theorem create_eq_ok {ids : SegmentId} {createdNs : UInt64} :
    createWithDescriptorEnvelope R ids limits createdNs envelope = .ok seg ↔
      (descriptorParts ids limits createdNs envelope).Writable limits ∧
      seg = created R ids limits createdNs envelope := by
  have hraw := @appendRaw_eq_ok R (blank ids limits createdNs)
  constructor
  · intro hrun
    unfold createWithDescriptorEnvelope at hrun
    split at hrun
    · cases hrun
    · obtain ⟨⟨seg₁, offset⟩, happend, hret⟩ := bind_eq_ok.mp hrun
      cases hret
      obtain ⟨hacc, henc, hseg, -⟩ := hraw.mp happend
      exact ⟨⟨hacc, henc⟩, hseg⟩
  · intro ⟨hw, hseg⟩
    unfold createWithDescriptorEnvelope
    rw [show validateDeterministicCborEnvelope envelope = .ok () from hw.encodable.valid]
    refine bind_eq_ok.mpr ⟨(seg, (blank ids limits createdNs).len), ?_, rfl⟩
    exact hraw.mpr ⟨hw.accepted, hw.encodable, hseg, rfl⟩

theorem sealSegment_eq_ok {sealed_ : SealedSegment} : seg.sealSegment R = .ok sealed_ ↔
    seg.isSealed = false ∧ seg.frameCount ≠ 0 ∧ seg.baseOffset = 0 ∧
      seg.summaryParts.Writable seg.limits ∧
      sealed_ = ⟨seg.ids, seg.limits, seg.bytes ++ seg.summaryParts.image R,
        saturatingAdd seg.frameCount 1, seg.createdNs⟩ := by
  have hlen : checkedFrameLen (UInt32.ofNat EMPTY_ENVELOPE.length)
      (UInt64.ofNat SUMMARY_BODY_LEN) = some 169 := by decide
  unfold sealSegment
  simp only [ite_throw_eq_ok, not_not, hlen, Bool.not_eq_true]
  refine and_congr_right fun _ => and_congr_right fun _ => and_congr_right fun _ => ?_
  constructor
  · intro hrun
    obtain ⟨⟨seg₁, offset⟩, happend, hret⟩ := bind_eq_ok.mp hrun
    obtain ⟨hacc, henc, rfl, -⟩ := appendRaw_eq_ok.mp happend
    exact ⟨⟨hacc, henc⟩, (Except.ok.inj hret).symm⟩
  · rintro ⟨hw, rfl⟩
    exact bind_eq_ok.mpr
      ⟨(_, seg.len), appendRaw_eq_ok.mpr ⟨hw.accepted, hw.encodable, rfl, rfl⟩, rfl⟩

end ActiveSegment

/-! ## Appending -/

/-- The arguments of `append`. -/
structure ContentFrame where
  kind : FrameKind
  envelope : Bytes
  body : Bytes
  eventId : Arr 16
  deriving DecidableEq, Repr

/-- An append by its parts or its fields. -/
inductive AppendCall where
  | append (content : ContentFrame)
  | appendParts (parts : FrameParts)
  deriving DecidableEq, Repr

namespace AppendCall

def run (R : Runtime) (seg : ActiveSegment) :
    AppendCall → Except SegmentError (ActiveSegment × UInt64)
  | .append c => seg.append R c.kind c.envelope c.body c.eventId
  | .appendParts parts => seg.appendParts R parts

/-- The frame a call asks for, stamped with the writer's sequence. -/
def parts (seg : ActiveSegment) : AppendCall → FrameParts
  | .append c => ⟨seg.rawHeader c.kind c.envelope c.body c.eventId, c.envelope, c.body⟩
  | .appendParts p => ⟨{ p.header with writerSequence := seg.writerSequence }, p.envelope, p.body⟩

def envelope : AppendCall → Bytes
  | .append c => c.envelope
  | .appendParts p => p.envelope

def body : AppendCall → Bytes
  | .append c => c.body
  | .appendParts p => p.body

/-- What the writer checks of a call before it encodes. Only `append` looks at the limits. -/
def Admitted (limits : SafetyLimits) : AppendCall → Prop
  | .append c => (c.kind ≠ .segmentDescriptor ∧ c.kind ≠ .segmentSummary) ∧
      limits.acceptsLengths (UInt32.ofNat c.envelope.length) (UInt64.ofNat c.body.length) = true
  | .appendParts p => p.header.frameKind ≠ FrameKind.segmentDescriptor.asU8 ∧
      p.header.frameKind ≠ FrameKind.segmentSummary.asU8

/-- The call is accepted: everything the writer and the encoder check. -/
structure Accepted (seg : ActiveSegment) (call : AppendCall) : Prop where
  unsealed : seg.isSealed = false
  admitted : call.Admitted seg.limits
  encodable : Encodable (call.parts seg).header (call.parts seg).envelope (call.parts seg).body

variable {R : Runtime} {seg seg' : ActiveSegment} {offset : UInt64} {call : AppendCall}

theorem envelope_parts (seg : ActiveSegment) (call : AppendCall) :
    (call.parts seg).envelope = call.envelope := by
  cases call <;> rfl

theorem body_parts (seg : ActiveSegment) (call : AppendCall) :
    (call.parts seg).body = call.body := by
  cases call <;> rfl

theorem run_eq_ok : call.run R seg = .ok (seg', offset) ↔
    call.Accepted seg ∧ seg' = seg.push ((call.parts seg).image R) ∧ offset = seg.len := by
  cases call with
  | append c =>
    unfold run ActiveSegment.append
    simp only [ite_throw_eq_ok, ActiveSegment.appendRaw_eq_ok, Bool.not_eq_true, not_or]
    exact ⟨fun ⟨hs, hk, hacc, henc, h⟩ => ⟨⟨hs, ⟨hk, hacc⟩, henc⟩, h⟩,
      fun ⟨⟨hs, ⟨hk, hacc⟩, henc⟩, h⟩ => ⟨hs, hk, hacc, henc, h⟩⟩
  | appendParts p =>
    unfold run ActiveSegment.appendParts
    simp only [ite_throw_eq_ok, ActiveSegment.appendEncoded_eq_ok, Bool.not_eq_true, not_or]
    exact ⟨fun ⟨hs, hk, henc, h⟩ => ⟨⟨hs, hk, henc⟩, h⟩,
      fun ⟨⟨hs, hk, henc⟩, h⟩ => ⟨hs, hk, henc, h⟩⟩

theorem drop_bytes_run (hrun : call.run R seg = .ok (seg', offset)) :
    seg'.bytes.drop seg.bytes.length = (call.parts seg).image R := by
  obtain ⟨-, rfl, -⟩ := run_eq_ok.mp hrun
  exact List.drop_left

end AppendCall

/-- **Which accepted frames can be read back.** An accepted frame starts at the returned offset,
and verifies under the segment's limits exactly when its real lengths are within them. -/
theorem accepted_readable_iff (R : Runtime) (hskip : R.diagnosticSkipBodyHash = false)
    (seg seg' : ActiveSegment) (call : AppendCall) (offset : UInt64)
    (hrun : call.run R seg = .ok (seg', offset)) :
    (seg.baseOffset.toNat + seg.bytes.length < 2 ^ 64 →
      offset.toNat - seg.baseOffset.toNat = seg.bytes.length) ∧
    ((∃ f, verifyFrameAt R (seg'.bytes.drop seg.bytes.length) seg.limits = .ok f) ↔
      seg.limits.Accepts call.envelope.length call.body.length) := by
  obtain ⟨hacc, -, rfl⟩ := AppendCall.run_eq_ok.mp hrun
  constructor
  · intro hfit
    rw [seg.toNat_len hfit]
    exact Nat.add_sub_cancel_left _ _
  · rw [AppendCall.drop_bytes_run hrun, ← AppendCall.envelope_parts seg,
      ← AppendCall.body_parts seg]
    exact hacc.encodable.readable_iff hskip

def zeroId : Arr 16 := zeros 16

/-- A segment of the default limits that holds its descriptor. -/
def sampleSegment : ActiveSegment :=
  .created productRuntime ⟨zeroId, zeroId⟩ .draftDefaults 0 EMPTY_ENVELOPE

def sampleContent : ContentFrame := ⟨.itemEvent, EMPTY_ENVELOPE, [42], zeroId⟩

theorem sampleContent_run : (AppendCall.append sampleContent).run productRuntime sampleSegment =
    .ok (sampleSegment.push (((AppendCall.append sampleContent).parts sampleSegment).image
      productRuntime), sampleSegment.len) :=
  AppendCall.run_eq_ok.mpr ⟨⟨rfl, ⟨by decide, by decide⟩, ⟨by decide, by decide, rfl, by decide,
    by decide⟩⟩, rfl, rfl⟩

/-- The item event is read back. -/
theorem accepted_readable_sample : ∃ seg' offset,
    (AppendCall.append sampleContent).run productRuntime sampleSegment = .ok (seg', offset) ∧
    ∃ f, verifyFrameAt productRuntime (seg'.bytes.drop sampleSegment.bytes.length)
      .draftDefaults = .ok f :=
  ⟨_, _, sampleContent_run, (accepted_readable_iff productRuntime rfl sampleSegment _ _ _
    sampleContent_run).2.mpr ⟨by decide, by decide, by decide⟩⟩

/-- Limits that hold a descriptor frame and nothing longer. -/
def tightLimits : SafetyLimits := ⟨1, 60, 181⟩

def tightSegment : ActiveSegment :=
  .created productRuntime ⟨zeroId, zeroId⟩ tightLimits 0 EMPTY_ENVELOPE

/-- A frame whose envelope is longer than the tight limits allow. -/
def wideParts : FrameParts := ⟨.newDraft .itemEvent 3 0 zeroId, [0xa1, 0x01, 0x00], []⟩

/-- `append_parts` acknowledges a frame outside the segment's limits, which does not verify. -/
theorem appendParts_unreadable : ∃ seg seg' offset,
    ActiveSegment.createWithDescriptorEnvelope productRuntime ⟨zeroId, zeroId⟩ tightLimits 0
      EMPTY_ENVELOPE = .ok seg ∧
    (AppendCall.appendParts wideParts).run productRuntime seg = .ok (seg', offset) ∧
    ¬ ∃ f, verifyFrameAt productRuntime (seg'.bytes.drop seg.bytes.length) seg.limits = .ok f := by
  have hcreate : ActiveSegment.createWithDescriptorEnvelope productRuntime ⟨zeroId, zeroId⟩
      tightLimits 0 EMPTY_ENVELOPE = .ok tightSegment :=
    ActiveSegment.create_eq_ok.mpr ⟨⟨by decide, ⟨by decide, by decide, rfl, by decide,
      by decide⟩⟩, rfl⟩
  have henc : Encodable ((AppendCall.appendParts wideParts).parts tightSegment).header
      wideParts.envelope wideParts.body := ⟨by decide, by decide, rfl, by decide, by decide⟩
  have hrun : (AppendCall.appendParts wideParts).run productRuntime tightSegment =
      .ok (tightSegment.push _, tightSegment.len) :=
    AppendCall.run_eq_ok.mpr ⟨⟨rfl, ⟨by decide, by decide⟩, henc⟩, rfl, rfl⟩
  refine ⟨tightSegment, _, _, hcreate, hrun, ?_⟩
  rw [AppendCall.drop_bytes_run hrun, henc.readable_iff rfl]
  exact fun hacc => absurd hacc.1 (by decide)

namespace ActiveSegment

variable {seg seg' : ActiveSegment}

/-- **Write-through drops a stretch of the buffer and moves the base over it.** The stretch is what
lies below `absoluteEnd`, cut at the end of the buffer. -/
theorem discardThrough_eq (seg : ActiveSegment) (absoluteEnd : UInt64)
    (hfit : seg.baseOffset.toNat + seg.bytes.length < 2 ^ 64) :
    seg.discardThrough absoluteEnd =
      let n := min (absoluteEnd.toNat - seg.baseOffset.toNat) seg.bytes.length
      { seg with
        bytes := seg.bytes.drop n
        baseOffset := UInt64.ofNat (seg.baseOffset.toNat + n) } := by
  have hlen := seg.toNat_len hfit
  unfold discardThrough
  by_cases hle : absoluteEnd ≤ seg.baseOffset
  · have hn : absoluteEnd.toNat - seg.baseOffset.toNat = 0 := Nat.sub_eq_zero_of_le hle
    simp [if_pos hle, hn]
  rw [if_neg hle]
  rw [UInt64.le_iff_toNat_le, Nat.not_le] at hle
  have hmin : (min absoluteEnd seg.len).toNat =
      min absoluteEnd.toNat (seg.baseOffset.toNat + seg.bytes.length) := by
    rw [← hlen]
    show (if absoluteEnd ≤ seg.len then absoluteEnd else seg.len).toNat = _
    split_ifs with h <;> rw [UInt64.le_iff_toNat_le] at h <;> omega
  have hsub : (min absoluteEnd seg.len - seg.baseOffset).toNat =
      min (absoluteEnd.toNat - seg.baseOffset.toNat) seg.bytes.length := by
    rw [UInt64.toNat_sub_of_le _ _ (by rw [UInt64.le_iff_toNat_le]; omega)]
    omega
  have hend : min absoluteEnd seg.len = UInt64.ofNat (seg.baseOffset.toNat +
      min (absoluteEnd.toNat - seg.baseOffset.toNat) seg.bytes.length) := by
    rw [← UInt64.ofNat_toNat (x := min absoluteEnd seg.len), hmin]
    congr 1
    omega
  simp only [hsub, ← hend]
  split_ifs with h0 hall
  · -- nothing retained: the buffer is empty and the end is the base
    have hbase : min absoluteEnd seg.len = seg.baseOffset := by
      rw [hend, h0, Nat.add_zero, UInt64.ofNat_toNat]
    rw [hbase, h0, List.drop_zero]
  · rw [List.drop_of_length_le hall]
  · rfl

theorem restoreCheckpoint_eq_ok {cp : ActiveSegmentCheckpoint} :
    seg.restoreCheckpoint cp = .ok seg' ↔
      seg.baseOffset = cp.baseOffset ∧ cp.retainedLen ≤ seg.bytes.length ∧
      seg' = { seg with
        bytes := seg.bytes.take cp.retainedLen
        writerSequence := cp.writerSequence
        frameCount := cp.frameCount
        isSealed := cp.isSealed } := by
  unfold restoreCheckpoint
  simp only [ite_throw_eq_ok, not_not, not_lt]
  refine and_congr_right fun _ => and_congr_right fun _ => ?_
  exact ⟨fun h => (Except.ok.inj h).symm, fun h => h ▸ rfl⟩

end ActiveSegment

end Residiuum
