import Residiuum.Format.ScanForward
import Residiuum.Format.SegmentRun

/-!
# Sealed segments: the forward scan reads the log back

A segment is created, takes a sequence of `append` calls of which some are refused, and is sealed.

* **`sealed_segment_law_iff`**: the scan of the sealed image reports descriptor, appended frames and
  summary, without a hole, exactly when no accepted envelope was `2 ^ 32` bytes or longer.
-/

namespace Residiuum

open ActiveSegment AppendCall ByteLib List LogEntry LogLib LoopLib Nat UInt64

/-! ## Scanning a log -/

variable {R : Runtime} {entries : List LogEntry} {seg : ActiveSegment} {limits : SafetyLimits}
  {envelope : Bytes} {parts : FrameParts} {createdNs : UInt64} {ids : SegmentId}

section Scan

variable {bytes : Bytes}

def LogEntry.placed (R : Runtime) (e : LogEntry) : ℕ × DecodedFrame :=
  (e.offset.toNat, e.parts.decoded R)

def LogEntry.region (R : Runtime) (e : LogEntry) : ScanRegion :=
  .verifiedFrame ⟨e.offset.toNat, e.offset.toNat + (e.parts.decoded R).frameLen.toNat⟩
    (e.parts.decoded R)

/-- The parts can be written under the limits, and read back. -/
structure FrameParts.Readable (limits : SafetyLimits) (parts : FrameParts) : Prop where
  encodable : Encodable parts.header parts.envelope parts.body
  accepts : limits.Accepts parts.envelope.length parts.body.length

section

variable (hskip : R.diagnosticSkipBodyHash = false)

include hskip

theorem FrameParts.Readable.verified (h : parts.Readable limits) (rest : Bytes) :
    Verified R limits (parts.image R ++ rest) (parts.decoded R) ∧
      (parts.decoded R).frameLen.toNat = (parts.image R).length := by
  obtain ⟨hv, -, hlen⟩ := verify_encodeFrame hskip h.accepts
    (encodeFrame_eq_ok.mpr ⟨h.encodable, rfl⟩) rest
  exact ⟨hv, hlen⟩

theorem regionsFrom_log (hread : ∀ e ∈ entries, e.parts.Readable limits)
    {base : ℕ} (hstarts : Starts (fun e => e.parts.image R) (fun e => e.offset.toNat) base entries)
    : regionsFrom base (entries.map fun e => (e.parts.image R, e.parts.decoded R)) = entries.map
    (region R) := by
  induction entries generalizing base with
  | nil => rfl
  | cons e entries ih =>
    obtain ⟨he, hrest⟩ := forall_mem_cons.mp hread
    have hlen := (he.verified hskip []).2
    have hoff : e.offset.toNat = base := hstarts.1
    have hregion : region R e =
        .verifiedFrame ⟨base, base + (e.parts.image R).length⟩ (e.parts.decoded R) := by
      rw [region, hoff, hlen]
    rw [map_cons, regionsFrom, ih hrest hstarts.2, map_cons, hregion]

/-- **The forward scan of a log reports its entries and nothing else.** -/
theorem scanForward_log (hread : ∀ e ∈ entries, e.parts.Readable limits)
    (hstarts : Starts (fun e => e.parts.image R) (fun e => e.offset.toNat) 0 entries) :
    (scanForward R (logImage R entries) limits).regions = entries.map (region R) := by
  have himage : ((entries.map fun e => (e.parts.image R, e.parts.decoded R)).map Prod.fst).flatten =
      logImage R entries := by
    rw [map_map, logImage, flatMap_def]
    rfl
  have hblocks : ∀ x ∈ entries.map fun e => (e.parts.image R, e.parts.decoded R),
      decodeFrame R x.1 limits = .ok x.2 := by
    intro x hx
    obtain ⟨e, he, rfl⟩ := mem_map.mp hx
    obtain ⟨hv, hlen⟩ := (hread e he).verified hskip []
    rw [append_nil] at hv
    exact decodeFrame_eq_ok.mpr ⟨hv, hlen.symm⟩
  rw [← himage, scanForward_blocks hblocks, regionsFrom_log hskip hread hstarts]

end

end Scan

/-! ## A sequence of appends -/

/-- Run `append` calls in order; refused ones leave the segment as it is. Returns the segment and
the accepted calls with their offsets. -/
def appendAll (R : Runtime) :
    ActiveSegment → List ContentFrame → ActiveSegment × List (ContentFrame × UInt64)
  | seg, [] => (seg, [])
  | seg, c :: cs =>
    match seg.append R c.kind c.envelope c.body c.eventId with
    | .error _ => appendAll R seg cs
    | .ok (seg, offset) =>
      let (seg, accepted) := appendAll R seg cs
      (seg, (c, offset) :: accepted)

/-- What `append` checks of its arguments, on an unsealed segment with these limits. -/
structure ContentFrame.Acceptable (limits : SafetyLimits) (c : ContentFrame) : Prop where
  content_kind : c.kind ≠ .segmentDescriptor ∧ c.kind ≠ .segmentSummary
  lengths : limits.acceptsLengths (UInt32.ofNat c.envelope.length)
    (UInt64.ofNat c.body.length) = true
  valid : validateDeterministicCborEnvelope c.envelope = .ok ()
  body_lt : c.body.length < 2 ^ 64

theorem rawHeader_encodable {kind : FrameKind} {body : Bytes} {eventId : Arr 16}
    (hacc : limits.acceptsLengths (UInt32.ofNat envelope.length) (ofNat body.length) =
      true) :
    Encodable (seg.rawHeader kind envelope body eventId) envelope body ↔
      validateDeterministicCborEnvelope envelope = .ok () ∧ body.length < 2 ^ 64 := by
  constructor
  · intro h
    refine ⟨h.valid, ?_⟩
    rw [h.body_len]
    exact toNat_lt _
  · intro ⟨hvalid, hlt⟩
    refine ⟨rfl, (toNat_ofNat_of_lt' hlt).symm, rfl, hvalid, ?_⟩
    exact lt_of_le_of_lt (acceptsLengths_iff.mp hacc).2.2 limits.maxFrameLen.toNat_lt

theorem accepted_iff (hseg : seg.isSealed = false) (c : ContentFrame) :
    (append c).Accepted seg ↔ c.Acceptable seg.limits := by
  constructor
  · intro ⟨_, ⟨hkind, hacc⟩, henc⟩
    obtain ⟨hvalid, hlt⟩ := (rawHeader_encodable hacc).mp henc
    exact ⟨hkind, hacc, hvalid, hlt⟩
  · intro h
    exact ⟨hseg, ⟨h.content_kind, h.lengths⟩,
      (rawHeader_encodable h.lengths).mpr ⟨h.valid, h.body_lt⟩⟩

section Appends

variable {seg' : ActiveSegment} {c : ContentFrame} {cs : List ContentFrame}

theorem append_ok (hseg : seg.isSealed = false) (hc : c.Acceptable seg.limits) :
    seg.append R c.kind c.envelope c.body c.eventId =
      .ok (seg.push (((append c).parts seg).image R), seg.len) := by
  exact run_eq_ok.mpr ⟨(accepted_iff hseg c).mpr hc, rfl, rfl⟩

theorem appendAll_cons_ok (hseg : seg.isSealed = false) (hc : c.Acceptable seg.limits) :
    let next := appendAll R (seg.push (((append c).parts seg).image R)) cs
    appendAll R seg (c :: cs) = (next.1, (c, seg.len) :: next.2) := by
  rw [appendAll, append_ok hseg hc]

theorem appendAll_cons_error (hseg : seg.isSealed = false) (hc : ¬ c.Acceptable seg.limits) :
    appendAll R seg (c :: cs) = appendAll R seg cs := by
  rw [appendAll]
  cases hrun : seg.append R c.kind c.envelope c.body c.eventId with
  | error e => rfl
  | ok r =>
    have hrun : (append c).run R seg = .ok (r.1, r.2) := hrun
    obtain ⟨hacc, -⟩ := run_eq_ok.mp hrun
    exact absurd ((accepted_iff hseg c).mp hacc) hc

variable (R seg cs)

theorem forall_accepted_iff (hseg : seg.isSealed = false) {P : ContentFrame → Prop} :
    (∀ x ∈ (appendAll R seg cs).2, P x.1) ↔ ∀ c ∈ cs, c.Acceptable seg.limits → P c := by
  induction cs generalizing seg with
  | nil => simp [appendAll]
  | cons c cs ih =>
    by_cases hc : c.Acceptable seg.limits
    · rw [appendAll_cons_ok hseg hc, forall_mem_cons, forall_mem_cons]
      refine and_congr ⟨fun h _ => h, fun h => h hc⟩ ?_
      exact ih (seg.push _) hseg
    · rw [appendAll_cons_error hseg hc, forall_mem_cons, ih seg hseg]
      exact ⟨fun h => ⟨fun hc' => absurd hc' hc, h⟩, fun h => h.2⟩

theorem length_le_appendAll (hseg : seg.isSealed = false) :
    seg.bytes.length ≤ (appendAll R seg cs).1.bytes.length := by
  induction cs generalizing seg with
  | nil => exact le_rfl
  | cons c cs ih =>
    by_cases hc : c.Acceptable seg.limits
    · rw [appendAll_cons_ok hseg hc]
      refine le_trans ?_ (ih (seg.push _) hseg)
      show seg.bytes.length ≤ (seg.bytes ++ _).length
      rw [length_append]
      exact le_add_right _ _
    · rw [appendAll_cons_error hseg hc]
      exact ih seg hseg

end Appends

/-- A segment that was only appended to, and its log. -/
structure Writing (R : Runtime) (seg : ActiveSegment) (entries : List LogEntry) : Prop where
  booked : Booked R seg [] entries
  unsealed : seg.isSealed = false
  next : seg.writerSequence.toNat = entries.length
  sequence : entries.map (fun e => e.parts.header.writerSequence.toNat) =
    List.range entries.length
  writable : ∀ e ∈ entries, e.parts.Writable seg.limits

namespace Writing

/-- **One more frame**: it gets the next sequence number, and starts at the present length. -/
theorem push (h : Writing R seg entries) (hw : parts.Writable seg.limits)
    (hseq : parts.header.writerSequence = seg.writerSequence)
    (hfit : (seg.push (parts.image R)).bytes.length < 2 ^ 64) :
    Writing R (seg.push (parts.image R)) (entries ++ [⟨seg.len, parts⟩]) := by
  have hroom : ([] : Bytes).length + seg.bytes.length + (parts.image R).length < 2 ^ 64 := by
    rw [length_nil, zero_add, ← length_append]
    exact hfit
  refine ⟨h.booked.push parts hroom, h.unsealed, h.booked.counter_succ hroom h.next _, ?_, ?_⟩
  · rw [map_append, h.sequence, length_append, length_singleton, range_succ,
      map_singleton, hseq, h.next]
  · intro e he
    rcases mem_append.mp he with he | he
    · exact h.writable e he
    · obtain rfl := mem_singleton.mp he
      exact hw

theorem created (hw : (descriptorParts ids limits createdNs envelope).Writable limits)
    (hfit : (created R ids limits createdNs envelope).bytes.length < 2 ^ 64) :
    Writing R (created R ids limits createdNs envelope)
      [⟨0, descriptorParts ids limits createdNs envelope⟩] := by
  have hblank : Writing R (blank ids limits createdNs) [] :=
    ⟨⟨rfl, rfl, Nat.two_pow_pos 64, rfl, trivial⟩, rfl, rfl, rfl,
      fun e he => absurd he not_mem_nil⟩
  exact hblank.push hw rfl hfit

end Writing

/-- A verified frame, at its offset, is what the accepted call asked for. -/
def IsContent (x : ContentFrame × UInt64) (y : ℕ × DecodedFrame) : Prop :=
  y.1 = x.2.toNat ∧ y.2.header.frameKind = x.1.kind.asU8 ∧ y.2.envelope = x.1.envelope ∧
    y.2.body = x.1.body ∧ y.2.header.eventId = x.1.eventId

theorem appendAll_writing (h : Writing R seg entries) (cs : List ContentFrame)
    (hfit : (appendAll R seg cs).1.bytes.length < 2 ^ 64) :
    ∃ added, Writing R (appendAll R seg cs).1 (entries ++ added) ∧
      List.Forall₂ IsContent (appendAll R seg cs).2 (added.map (placed R)) ∧
      (appendAll R seg cs).1.ids = seg.ids ∧ (appendAll R seg cs).1.limits = seg.limits := by
  induction cs generalizing seg entries with
  | nil =>
    refine ⟨[], ?_, .nil, rfl, rfl⟩
    rw [append_nil]
    exact h
  | cons c cs ih =>
    by_cases hc : c.Acceptable seg.limits
    · rw [appendAll_cons_ok h.unsealed hc] at hfit ⊢
      have hlen := length_le_appendAll R (seg.push (((append c).parts seg).image R)) cs
        h.unsealed
      have hw : ((append c).parts seg).Writable seg.limits :=
        ⟨hc.lengths, ((accepted_iff h.unsealed c).mpr hc).encodable⟩
      have hpush := h.push hw rfl (lt_of_le_of_lt hlen hfit)
      obtain ⟨added, hwriting, hcontent, hids, hlimits⟩ := ih hpush hfit
      refine ⟨⟨seg.len, (append c).parts seg⟩ :: added, ?_, ?_, hids, hlimits⟩
      · rw [append_cons]
        exact hwriting
      · exact .cons ⟨rfl, rfl, rfl, rfl, rfl⟩ hcontent
    · rw [appendAll_cons_error h.unsealed hc] at hfit ⊢
      exact ih h hfit

/-! ## The law -/

/-- **The sealed segment law**: what the forward scan of a sealed image reports. -/
structure SealedLaw (R : Runtime) (ids : SegmentId) (limits : SafetyLimits) (createdNs : UInt64)
    (envelope : Bytes) (accepted : List (ContentFrame × UInt64)) (bytes : Bytes) :
    Prop where
  no_hole : ∀ r ∈ (scanForward R bytes limits).regions, ∃ range f, r = .verifiedFrame range f
  /-- The descriptor first, the accepted frames in call order, one summary last. -/
  frames : ∃ descriptor appended summary,
    (scanForward R bytes limits).verifiedFrames = (0, descriptor) :: appended ++ [summary] ∧
    descriptor.header.frameKind = FrameKind.segmentDescriptor.asU8 ∧
    descriptor.envelope = envelope ∧
    descriptor.body = encodeDescriptorBody ids createdNs limits ∧
    List.Forall₂ IsContent accepted appended ∧
    summary.2.header.frameKind = FrameKind.segmentSummary.asU8 ∧
    ∃ sealedLen frameCount, decodeSummaryBody summary.2.body = some (ids, sealedLen, frameCount) ∧
      sealedLen.toNat = bytes.length ∧
      frameCount.toNat = (scanForward R bytes limits).verifiedFrames.length
  /-- The sequence numbers are `0, 1, 2, …`. -/
  sequence : (scanForward R bytes limits).verifiedFrames.map (·.2.header.writerSequence.toNat) =
    List.range (scanForward R bytes limits).verifiedFrames.length

section Law

variable {bytes : Bytes} {f : DecodedFrame} {e : LogEntry}

theorem verified_of_mem {o : ℕ} (h : (o, f) ∈ (scanForward R bytes limits).verifiedFrames) :
    Verified R limits (bytes.drop o) f := by
  obtain ⟨range, hr, rfl⟩ := mem_verified.mp h
  exact ((scanForward_inv R limits bytes).sound range f hr).1

theorem filterMap_region (entries : List LogEntry) :
    (entries.map (region R)).filterMap ScanRegion.verified? =
      entries.map (placed R) := by
  induction entries with
  | nil => rfl
  | cons e entries ih => exact congrArg (placed R e :: ·) ih

theorem drop_logImage (he : e ∈ entries)
    (hstarts : Starts (fun e => e.parts.image R) (fun e => e.offset.toNat) 0 entries) :
    ∃ rest, (logImage R entries).drop e.offset.toNat = e.parts.image R ++ rest := by
  obtain ⟨before, after, rfl⟩ := append_of_mem he
  have hoff : e.offset.toNat = (logImage R before).length := by
    rw [starts_iff.mp hstarts before e after rfl, zero_add]
    rfl
  have hsplit : logImage R (before ++ e :: after) =
      logImage R before ++ (e.parts.image R ++ logImage R after) := by
    rw [logImage, flatMap_append, flatMap_cons]
    rfl
  rw [hsplit, hoff, drop_left]
  exact ⟨_, rfl⟩

theorem envelope_lt_of_reported (hskip : R.diagnosticSkipBodyHash = false) (he : e ∈ entries)
    (hstarts : Starts (fun e => e.parts.image R) (fun e => e.offset.toNat) 0 entries)
    (hw : e.parts.Writable limits)
    (hmem : (e.offset.toNat, f) ∈ (scanForward R (logImage R entries) limits).verifiedFrames) :
    e.parts.envelope.length < 2 ^ 32 := by
  obtain ⟨rest, hdrop⟩ := drop_logImage he hstarts
  have hv := verified_of_mem hmem
  rw [hdrop] at hv
  have hacc := (verify_frameImage_iff hskip hw.encodable rest).mp ⟨f, hv⟩
  exact (hw.encodable.accepts_iff.mp hacc).1

end Law

/-- The log of a sealed segment: descriptor, accepted frames, summary. -/
structure SealedLog (R : Runtime) (ids : SegmentId) (limits : SafetyLimits) (createdNs : UInt64)
    (envelope : Bytes) (accepted : List (ContentFrame × UInt64)) (bytes : Bytes)
    (added : List LogEntry) (summary : LogEntry) : Prop where
  writing : ∃ seg, Writing R seg
    (⟨0, ActiveSegment.descriptorParts ids limits createdNs envelope⟩ :: added ++ [summary]) ∧
    seg.limits = limits ∧ seg.bytes = bytes
  content : List.Forall₂ IsContent accepted (added.map (LogEntry.placed R))
  kind : summary.parts.header.frameKind = FrameKind.segmentSummary.asU8
  envelope_eq : summary.parts.envelope = EMPTY_ENVELOPE
  body : ∃ sealedLen frameCount,
    decodeSummaryBody summary.parts.body = some (ids, sealedLen, frameCount) ∧
    sealedLen.toNat = bytes.length ∧ frameCount.toNat = added.length + 2

theorem length_summaryImage (R : Runtime) (seg : ActiveSegment) :
    (seg.summaryParts.image R).length = 169 := by
  have henv : seg.summaryParts.envelope.length = 1 := rfl
  have hbody : seg.summaryParts.body.length = 48 := length_encodeSummaryBody _ _ _
  rw [FrameParts.length_image, henv, hbody]

theorem Writing.summary (h : Writing R seg entries) (hvec : seg.bytes.length + 169 < 2 ^ 63) :
    ∃ sealedLen frameCount,
      decodeSummaryBody seg.summaryParts.body = some (seg.ids, sealedLen, frameCount) ∧
      sealedLen.toNat = seg.bytes.length + 169 ∧ frameCount.toNat = entries.length + 1 := by
  have hlen : (ofNat seg.bytes.length).toNat = seg.bytes.length :=
    toNat_ofNat_of_lt' (by change _ < 2 ^ 64; omega)
  have hle := length_le_logImage R entries
  have h169 : (169 : UInt64).toNat = 169 := rfl
  have hone : (1 : UInt64).toNat = 1 := rfl
  rw [← h.booked.image, nil_append] at hle
  refine ⟨ofNat seg.bytes.length + 169, seg.frameCount + 1, decodeSummaryBody_encode _ _ _,
    ?_, ?_⟩
  · rw [UInt64.toNat_add, hlen, h169, Nat.mod_eq_of_lt (by omega)]
  · rw [UInt64.toNat_add, h.booked.count, hone, Nat.mod_eq_of_lt (by omega)]

theorem sealed_log {cs : List ContentFrame} {seg₀ : ActiveSegment} {sealed_ : SealedSegment}
    (hcreate : createWithDescriptorEnvelope R ids limits createdNs envelope =
      .ok seg₀)
    (hseal : (appendAll R seg₀ cs).1.sealSegment R = .ok sealed_)
    (hvec : sealed_.bytes.length < 2 ^ 63) :
    ∃ added summary, SealedLog R ids limits createdNs envelope (appendAll R seg₀ cs).2
      sealed_.bytes added summary := by
  obtain ⟨hw, rfl⟩ := create_eq_ok.mp hcreate
  have hlen := length_le_appendAll R (.created R ids limits createdNs envelope) cs rfl
  generalize hrun : appendAll R (.created R ids limits createdNs envelope) cs = run at *
  obtain ⟨-, -, -, hsummary, rfl⟩ := sealSegment_eq_ok.mp hseal
  have hbytes : (run.1.bytes ++ run.1.summaryParts.image R).length = run.1.bytes.length + 169 := by
    rw [length_append, length_summaryImage]
  have hvec' : run.1.bytes.length + 169 < 2 ^ 63 := hbytes ▸ hvec
  have hstart := Writing.created (R := R) hw (by omega)
  obtain ⟨added, hwriting, hcontent, hids, hlimits⟩ :=
    appendAll_writing hstart cs (by rw [hrun]; omega)
  rw [hrun] at hwriting hcontent hids hlimits
  have hsealed := hwriting.push hsummary rfl (by
    show (run.1.bytes ++ _).length < _
    omega)
  obtain ⟨sealedLen, frameCount, hdecode, hsealedLen, hframes⟩ := hwriting.summary hvec'
  refine ⟨added, ⟨run.1.len, run.1.summaryParts⟩, ⟨_, hsealed, hlimits, rfl⟩, hcontent, rfl, rfl,
    sealedLen, frameCount, ?_, ?_, ?_⟩
  · rw [hdecode, hids]
    rfl
  · rw [hsealedLen, hbytes]
  · rw [hframes, length_append, length_singleton]
    omega

section Law

variable {accepted : List (ContentFrame × UInt64)} {bytes : Bytes} {added : List LogEntry}
  {summary : LogEntry}

theorem SealedLog.law (hskip : R.diagnosticSkipBodyHash = false)
    (h : SealedLog R ids limits createdNs envelope accepted bytes added summary)
    (henv : envelope.length < 2 ^ 32) (hacc : ∀ x ∈ accepted, x.1.envelope.length < 2 ^ 32) :
    SealedLaw R ids limits createdNs envelope accepted bytes := by
  obtain ⟨seg, hwriting, rfl, rfl⟩ := h.writing
  set entries := (⟨0, descriptorParts ids seg.limits createdNs envelope⟩ ::
    added ++ [summary] : List LogEntry) with hentries
  have hshort : ∀ e ∈ entries, e.parts.envelope.length < 2 ^ 32 := by
    intro e he
    rw [hentries, cons_append, mem_cons, mem_append, mem_singleton] at he
    rcases he with rfl | he | rfl
    · exact henv
    · obtain ⟨x, hx, hex⟩ := exists_partner (List.Forall₂.flip (R := flip IsContent) h.content)
        (mem_map_of_mem he)
      have := hacc x hx
      rwa [← hex.2.2.1] at this
    · rw [h.envelope_eq]
      decide
  have hread : ∀ e ∈ entries, e.parts.Readable seg.limits := fun e he =>
    have hw := hwriting.writable e he
    ⟨hw.encodable, hw.encodable.accepts_iff.mpr ⟨hshort e he, hw.accepted⟩⟩
  have hregions : (scanForward R seg.bytes seg.limits).regions =
      entries.map (region R) := by
    have himage := hwriting.booked.image
    rw [nil_append] at himage
    rw [himage]
    exact scanForward_log hskip hread hwriting.booked.starts
  have hframes : (scanForward R seg.bytes seg.limits).verifiedFrames =
      entries.map (placed R) := by
    rw [ScanReport.verifiedFrames, hregions, filterMap_region]
  refine ⟨?_, ?_, ?_⟩
  · intro r hr
    rw [hregions] at hr
    obtain ⟨e, -, rfl⟩ := mem_map.mp hr
    exact ⟨_, _, rfl⟩
  · obtain ⟨sealedLen, frameCount, hdecode, hlen, hcount⟩ := h.body
    refine ⟨(descriptorParts ids seg.limits createdNs envelope).decoded R,
      added.map (placed R), summary.placed R, ?_, rfl, rfl, rfl, h.content, h.kind,
      sealedLen, frameCount, hdecode, hlen, ?_⟩
    · rw [hframes, hentries, map_append]
      rfl
    · rw [hframes, hcount, hentries]
      simp
  · rw [hframes, map_map, length_map]
    exact hwriting.sequence

theorem SealedLog.envelope_lt (hskip : R.diagnosticSkipBodyHash = false)
    (h : SealedLog R ids limits createdNs envelope accepted bytes added summary)
    (hlaw : SealedLaw R ids limits createdNs envelope accepted bytes) :
    envelope.length < 2 ^ 32 ∧ ∀ x ∈ accepted, x.1.envelope.length < 2 ^ 32 := by
  obtain ⟨seg, hwriting, rfl, rfl⟩ := h.writing
  obtain ⟨descriptor, appended, last, hframes, -, -, -, hcontent, -⟩ := hlaw.frames
  have himage := hwriting.booked.image
  rw [nil_append] at himage
  rw [himage] at hframes
  constructor
  · have he : (⟨0, descriptorParts ids seg.limits createdNs envelope⟩ : LogEntry) ∈
        ⟨0, descriptorParts ids seg.limits createdNs envelope⟩ ::
          added ++ [summary] := mem_cons_self
    apply envelope_lt_of_reported hskip he hwriting.booked.starts (hwriting.writable _ he)
      (f := descriptor)
    rw [hframes]
    exact mem_cons_self
  · intro x hx
    obtain ⟨y, hy, hxy⟩ := exists_partner hcontent hx
    obtain ⟨z, hz, hxz⟩ := exists_partner h.content hx
    obtain ⟨e, he, rfl⟩ := mem_map.mp hz
    have he' : e ∈ ⟨0, descriptorParts ids seg.limits createdNs envelope⟩ ::
        added ++ [summary] := mem_append_left _ (mem_cons_of_mem _ he)
    rw [← hxz.2.2.1]
    apply envelope_lt_of_reported hskip he' hwriting.booked.starts (hwriting.writable e he')
      (f := y.2)
    have hoff : e.offset.toNat = y.1 := hxz.1.trans hxy.1.symm
    rw [hframes, hoff]
    exact mem_append_left _ (mem_cons_of_mem _ hy)

end Law

/-- **The sealed segment law holds exactly when no accepted envelope is `2 ^ 32` bytes or
longer.** `hvec` is the bound every buffer of the program satisfies. -/
theorem sealed_segment_law_iff (R : Runtime) (hskip : R.diagnosticSkipBodyHash = false)
    (ids : SegmentId) (limits : SafetyLimits) (createdNs : UInt64) (envelope : Bytes)
    (cs : List ContentFrame) (seg₀ : ActiveSegment) (sealed_ : SealedSegment)
    (hcreate : ActiveSegment.createWithDescriptorEnvelope R ids limits createdNs envelope =
      .ok seg₀)
    (hseal : (appendAll R seg₀ cs).1.sealSegment R = .ok sealed_)
    (hvec : sealed_.bytes.length < 2 ^ 63) :
    SealedLaw R ids limits createdNs envelope (appendAll R seg₀ cs).2 sealed_.bytes ↔
      envelope.length < 2 ^ 32 ∧
        ∀ c ∈ cs, c.Acceptable limits → c.envelope.length < 2 ^ 32 := by
  obtain ⟨added, summary, hlog⟩ := sealed_log hcreate hseal hvec
  obtain ⟨-, rfl⟩ := create_eq_ok.mp hcreate
  have haccepted := forall_accepted_iff R (.created R ids limits createdNs envelope) cs rfl
    (P := fun c => c.envelope.length < 2 ^ 32)
  constructor
  · intro hlaw
    obtain ⟨henv, hall⟩ := hlog.envelope_lt hskip hlaw
    exact ⟨henv, haccepted.mp hall⟩
  · intro ⟨henv, hall⟩
    exact hlog.law hskip henv (haccepted.mpr hall)

/-! ## Two sealed segments -/

theorem summaryParts_writable (seg : ActiveSegment) (limits : SafetyLimits)
    (h : limits.acceptsLengths 1 48 = true) : seg.summaryParts.Writable limits := by
  have hbody : ofNat seg.summaryParts.body.length = 48 :=
    congrArg ofNat (length_encodeSummaryBody _ _ _)
  have hacc : limits.acceptsLengths (UInt32.ofNat EMPTY_ENVELOPE.length)
      (ofNat seg.summaryParts.body.length) = true := by
    rw [hbody]
    exact h
  refine ⟨hacc, (rawHeader_encodable hacc).mpr ⟨by decide, ?_⟩⟩
  rw [show seg.summaryParts.body.length = SUMMARY_BODY_LEN from length_encodeSummaryBody _ _ _]
  decide

def sampleSealed (c : ContentFrame) : SealedSegment :=
  let seg := sampleSegment.push (((AppendCall.append c).parts sampleSegment).image productRuntime)
  ⟨seg.ids, seg.limits, seg.bytes ++ seg.summaryParts.image productRuntime,
    saturatingAdd seg.frameCount 1, seg.createdNs⟩

section Sample

variable {c : ContentFrame} (hc : c.Acceptable .draftDefaults)

include hc

theorem sampleSealed_appends : appendAll productRuntime sampleSegment [c] =
    (sampleSegment.push (((append c).parts sampleSegment).image productRuntime),
      [(c, sampleSegment.len)]) :=
  appendAll_cons_ok rfl hc

theorem sampleSealed_eq :
    (appendAll productRuntime sampleSegment [c]).1.sealSegment productRuntime =
      .ok (sampleSealed c) := by
  rw [sampleSealed_appends hc]
  exact sealSegment_eq_ok.mpr
    ⟨rfl, (by decide : saturatingAdd (saturatingAdd 0 1) 1 ≠ 0), rfl,
      summaryParts_writable _ .draftDefaults (by decide), rfl⟩

omit hc in
theorem length_sampleSealed :
    (sampleSealed c).bytes.length = 181 + (120 + c.envelope.length + c.body.length) + 169 := by
  have hdescriptor : sampleSegment.bytes.length = 181 := by decide +kernel
  show ((sampleSegment.bytes ++ _) ++ _).length = _
  rw [length_append, length_append, hdescriptor, length_summaryImage,
    FrameParts.length_image]
  rfl

end Sample

theorem sampleContent_acceptable : sampleContent.Acceptable .draftDefaults :=
  ⟨by decide, by decide, by decide, by decide⟩

theorem sampleSegment_created :
    createWithDescriptorEnvelope productRuntime ⟨zeroId, zeroId⟩ .draftDefaults 0
      EMPTY_ENVELOPE = .ok sampleSegment :=
  create_eq_ok.mpr
    ⟨⟨by decide, ⟨by decide, by decide, rfl, by decide, by decide⟩⟩, rfl⟩

/-- The law on a segment with one item event. -/
theorem sealed_segment_law_sample :
    SealedLaw productRuntime ⟨zeroId, zeroId⟩ .draftDefaults 0 EMPTY_ENVELOPE
      (appendAll productRuntime sampleSegment [sampleContent]).2
      (sampleSealed sampleContent).bytes := by
  refine (sealed_segment_law_iff productRuntime rfl ⟨zeroId, zeroId⟩ .draftDefaults 0 EMPTY_ENVELOPE
    [sampleContent] sampleSegment _ sampleSegment_created
    (sampleSealed_eq sampleContent_acceptable) ?_).mpr ⟨by decide, fun c hc _ => ?_⟩
  · rw [length_sampleSealed]
    decide
  · obtain rfl := mem_singleton.mp hc
    decide

theorem wire_huge {b : Bytes} (hb : b.length = 2 ^ 32 - 7) :
    validateDeterministicCborEnvelope (wire (.map [(1, .bytes b)])) = .ok () ∧
      (wire (.map [(1, .bytes b)])).length = 2 ^ 32 := by
  constructor
  · apply validate_eq_ok.mpr
    refine ⟨_, everywhere_map.mpr ⟨⟨?_, pairwise_singleton _ _⟩, fun e he => ?_⟩, rfl⟩
    · exact Nat.one_lt_two_pow (by decide)
    · obtain rfl := mem_singleton.mp he
      refine ⟨?_, trivial⟩
      show b.length < 2 ^ 64
      rw [hb]
      decide
  · have hmap : (writeTypeArg 5 (ofNat 1)).length = 1 := by decide
    have hkey : (writeUint 1).length = 1 := by decide
    have hbytes : (writeTypeArg 2 (ofNat (2 ^ 32 - 7))).length = 5 := by decide
    simp only [wire, wireEntries, length_append, length_cons, length_nil, hb,
      zero_add, hmap, hkey, hbytes]
    omega

/-- A valid envelope of exactly `2 ^ 32` bytes. -/
@[irreducible] def hugeEnvelope : Bytes :=
  wire (.map [(1, .bytes (List.replicate (2 ^ 32 - 7) 0))])

theorem hugeEnvelope_spec : validateDeterministicCborEnvelope hugeEnvelope = .ok () ∧
    hugeEnvelope.length = 2 ^ 32 := by
  unfold hugeEnvelope
  exact wire_huge length_replicate

def hugeContent : ContentFrame := ⟨.itemEvent, hugeEnvelope, [], zeroId⟩

theorem hugeContent_acceptable : hugeContent.Acceptable .draftDefaults := by
  refine ⟨⟨by decide, by decide⟩, ?_, hugeEnvelope_spec.1, by decide⟩
  show SafetyLimits.acceptsLengths _ (UInt32.ofNat hugeEnvelope.length) _ = true
  rw [hugeEnvelope_spec.2]
  decide

/-- `append` accepts the huge envelope as one of length 0, the segment is sealed, and the law
fails. -/
theorem sealed_segment_law_fails_huge :
    ActiveSegment.createWithDescriptorEnvelope productRuntime ⟨zeroId, zeroId⟩ .draftDefaults 0
      EMPTY_ENVELOPE = .ok sampleSegment ∧
    (appendAll productRuntime sampleSegment [hugeContent]).1.sealSegment productRuntime =
      .ok (sampleSealed hugeContent) ∧
    ¬ SealedLaw productRuntime ⟨zeroId, zeroId⟩ .draftDefaults 0 EMPTY_ENVELOPE
      (appendAll productRuntime sampleSegment [hugeContent]).2
      (sampleSealed hugeContent).bytes := by
  have henv : hugeContent.envelope.length = 2 ^ 32 := hugeEnvelope_spec.2
  have hseal := sampleSealed_eq hugeContent_acceptable
  refine ⟨sampleSegment_created, hseal, fun hlaw => ?_⟩
  have hvec : (sampleSealed hugeContent).bytes.length < 2 ^ 63 := by
    rw [length_sampleSealed, henv]
    decide
  obtain ⟨added, summary, hlog⟩ := sealed_log sampleSegment_created hseal hvec
  obtain ⟨-, hall⟩ := hlog.envelope_lt rfl hlaw
  have hlt := hall (hugeContent, sampleSegment.len) (by
    rw [sampleSealed_appends hugeContent_acceptable]
    exact mem_singleton_self _)
  exact absurd (henv ▸ hlt) (lt_irrefl _)

end Residiuum
