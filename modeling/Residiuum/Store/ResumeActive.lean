import Residiuum.Format.ScanForward
import Residiuum.Format.SegmentOps
import Residiuum.Store.ChunkPayload

/-!
# Resuming an active segment file

Opening a store scans the file of each active segment, cuts it after the first frames that follow
each other without a gap, and writes these frames again under new sequence numbers.

* `leadingFrames`: the frames before the first gap; `evidence`: item events and payload chunks.
* **`resumed_frames`**: the frames of the file afterwards are those before the first gap.
* **`evidence_kept_iff`**: all evidence is kept exactly when none of it lies behind a gap.
-/

namespace Residiuum

open ActiveSegment ByteLib DecodedFrame FrameKind List TileLib

variable (f : DecodedFrame)

def DecodedFrame.isKind (kind : FrameKind) : Bool :=
  f.header.frameKind = kind.asU8

/-! ## The cut -/

/-- What the loop over the regions has found. -/
structure Recovered where
  stop : ℕ
  segmentId : Option (Arr 16)
  foreignSegmentId : Option (Arr 16)

section Resume

variable (R : Runtime) (limits : SafetyLimits) (storeId : Arr 16) (acceptForeign : Bool)

/-- A frame that follows without a gap. -/
def Recovered.note (r : Recovered) (range : ByteRange) (f : DecodedFrame) : Recovered :=
  let r := { r with stop := range.stop }
  match if f.isKind .segmentDescriptor then decodeDescriptorBody f.body else none with
  | none => r
  | some (ids, _, _) =>
    if ids.storeId = storeId then { r with segmentId := some ids.segmentId }
    else if acceptForeign ∧ r.foreignSegmentId = none then
      { r with foreignSegmentId := some ids.segmentId }
    else r

def recoverLoop : Recovered → List ScanRegion → Recovered
  | r, [] => r
  | r, .hole _ _ :: _ => r
  | r, .verifiedFrame range f :: regions =>
    if range.start ≠ r.stop then r
    else recoverLoop (r.note storeId acceptForeign range f) regions

/-- The bytes that are kept, and the id of the segment; `fresh` is a new random id. -/
def recoverActiveBytes (fresh : Arr 16) (bytes : Bytes) : Except StoreError (Bytes × Arr 16) :=
  if bytes = [] then .ok ([], fresh)
  else
    let r := recoverLoop storeId acceptForeign ⟨0, none, none⟩ (scanForward R bytes limits).regions
    match r.segmentId.or r.foreignSegmentId with
    | some id => .ok (bytes.take r.stop, id)
    | none =>
      if bytes.take r.stop = [] then
        .error (.corruptMeta "active segment has no recoverable segment_id")
      else .error (.corruptMeta "active segment missing SegmentDescriptor; refuse resume")

/-- The kinds of frames that are appended again. -/
def DecodedFrame.isReplayed : Bool :=
  f.isKind .itemEvent || f.isKind .payloadChunk || f.isKind .batchPrepare || f.isKind .batchCommit

/-- The time of the last descriptor. -/
def createdNsOf (now : UInt64) (frames : List DecodedFrame) : UInt64 :=
  frames.foldl (fun ns f =>
    match if f.isKind .segmentDescriptor then decodeDescriptorBody f.body else none with
    | none => ns
    | some (_, created, _) => created) now

def replayFrame (seg : ActiveSegment) (f : DecodedFrame) : Except SegmentError ActiveSegment :=
  (seg.appendParts R ⟨{ f.header with writerSequence := 0 }, f.envelope, f.body⟩).map Prod.fst

def rebuildActive (now : UInt64) (segmentId : Arr 16) (kept : Bytes) :
    Except SegmentError ActiveSegment :=
  let frames := (scanForward R kept limits).verifiedFrames.map Prod.snd
  match ActiveSegment.createWithDescriptorEnvelope R ⟨storeId, segmentId⟩ limits
      (createdNsOf now frames) EMPTY_ENVELOPE with
  | .error e => .error e
  | .ok seg => (frames.filter DecodedFrame.isReplayed).foldlM (replayFrame R) seg

/-- `resume_or_start_active_shard` on a file that is there: its bytes afterwards. An id that another
file has is refused before the file is touched, and the cut is made before the new segment is
built. -/
def resumeActive (taken : Arr 16 → Bool) (fresh : Arr 16) (now : UInt64) (bytes : Bytes) : Bytes :=
  match recoverActiveBytes R limits storeId acceptForeign fresh bytes with
  | .error _ => bytes
  | .ok (kept, segmentId) =>
    if taken segmentId then bytes
    else
      match rebuildActive R limits storeId now segmentId kept with
      | .error _ => kept
      | .ok seg => seg.bytes

/-! ## Evidence -/

/-- Item events and payload chunks. -/
def DecodedFrame.isEvidence : Bool :=
  f.isKind .itemEvent || f.isKind .payloadChunk

/-- The evidence that a scan verifies in a file. -/
def evidence (bytes : Bytes) : List DecodedFrame :=
  ((scanForward R bytes limits).verifiedFrames.map Prod.snd).filter DecodedFrame.isEvidence

/-- The same frame, up to its sequence number. -/
structure SameFrame (f g : DecodedFrame) : Prop where
  header : ∃ n, g.header = { f.header with writerSequence := n }
  envelope : g.envelope = f.envelope
  body : g.body = f.body

/-- The frames that follow each other from an offset on. -/
def leading : ℕ → List ScanRegion → List DecodedFrame
  | _, [] => []
  | _, .hole _ _ :: _ => []
  | p, .verifiedFrame range f :: regions =>
    if range.start ≠ p then [] else f :: leading range.stop regions

/-- The frames before the first gap of a file. -/
def leadingFrames (bytes : Bytes) : List DecodedFrame :=
  leading 0 (scanForward R bytes limits).regions

/-- The segment that a descriptor of the store names. -/
def DecodedFrame.ownSegment : Option (Arr 16) :=
  match if f.isKind .segmentDescriptor then decodeDescriptorBody f.body else none with
  | some (ids, _, _) => if ids.storeId = storeId then some ids.segmentId else none
  | none => none

/-- The segments of the store that are named before the first gap. -/
def ownSegments (bytes : Bytes) : List (Arr 16) :=
  (leadingFrames R limits bytes).filterMap fun f => f.ownSegment storeId

/-- The file starts with a descriptor of the store. -/
def HasDescriptor (bytes : Bytes) : Prop :=
  ∃ d ids createdNs lims, Verified R limits bytes d ∧ d.isKind .segmentDescriptor = true ∧
    decodeDescriptorBody d.body = some (ids, createdNs, lims) ∧ ids.storeId = storeId

end Resume

/-! ## Frames that are read and written again -/

variable {fs : List DecodedFrame} {r : Recovered}

section Frames

variable {R : Runtime} {limits : SafetyLimits} {bytes : Bytes} {f g : DecodedFrame}

theorem Verified.encodable (hv : Verified R limits bytes f) :
    Encodable f.header f.envelope f.body ∧ limits.Accepts f.envelope.length f.body.length := by
  have hlen := hv.frame_len
  have hfits := hv.fits
  rw [declaredLen] at hlen
  obtain ⟨hf, -, hvalid, -⟩ := verifyRegions_eq_ok.mp hv.regions
  have henv : f.envelope.length = f.header.envelopeLen.toNat := by
    rw [congrArg envelope hf, length_slice (by omega) (by omega)]
    omega
  have hbody : f.body.length = f.header.bodyLen.toNat := by
    rw [congrArg body hf, length_slice (by omega) (by omega)]
    omega
  replace hvalid : validateDeterministicCborEnvelope f.envelope = .ok () := by
    rw [congrArg envelope hf]
    exact hvalid
  refine ⟨⟨?_, hbody, hv.major, hvalid, hv.frame_len ▸ f.frameLen.toNat_lt⟩, ?_⟩
  · rw [henv, UInt32.ofNat_toNat]
  · rw [henv, hbody]
    exact acceptsLengths_iff.mp hv.accepted

theorem SameFrame.isKind (h : SameFrame f g) (kind : FrameKind) :
    g.isKind kind = f.isKind kind := by
  obtain ⟨n, hn⟩ := h.header
  simp [DecodedFrame.isKind, hn]

theorem SameFrame.isEvidence (h : SameFrame f g) : g.isEvidence = f.isEvidence := by
  simp [DecodedFrame.isEvidence, h.isKind]

theorem SameFrame.symm (h : SameFrame f g) : SameFrame g f := by
  obtain ⟨n, hn⟩ := h.header
  exact ⟨⟨f.header.writerSequence, by rw [hn]⟩, h.envelope.symm, h.body.symm⟩

theorem SameFrame.trans {k : DecodedFrame} (h : SameFrame f g) (h' : SameFrame g k) :
    SameFrame f k := by
  obtain ⟨n, hn⟩ := h.header
  obtain ⟨m, hm⟩ := h'.header
  exact ⟨⟨m, by rw [hm, hn]⟩, h'.envelope.trans h.envelope, h'.body.trans h.body⟩

/-- The bytes of frames one after the other, as the scanner reads them. -/
def Blocks (R : Runtime) (limits : SafetyLimits) (bytes : Bytes) (fs : List DecodedFrame) : Prop :=
  ∃ blocks : List (Bytes × DecodedFrame), (blocks.map Prod.fst).flatten = bytes ∧
    blocks.map Prod.snd = fs ∧ ∀ x ∈ blocks, decodeFrame R x.1 limits = .ok x.2

theorem Blocks.scan (h : Blocks R limits bytes fs) :
    (scanForward R bytes limits).verifiedFrames.map Prod.snd = fs := by
  obtain ⟨blocks, rfl, rfl, hblocks⟩ := h
  rw [ScanReport.verifiedFrames, scanForward_blocks hblocks, verified_regionsFrom]

theorem Blocks.append {bytes' : Bytes} {gs : List DecodedFrame}
    (h : Blocks R limits bytes fs) (h' : Blocks R limits bytes' gs) :
    Blocks R limits (bytes ++ bytes') (fs ++ gs) := by
  obtain ⟨blocks, rfl, rfl, hblocks⟩ := h
  obtain ⟨blocks', rfl, rfl, hblocks'⟩ := h'
  refine ⟨blocks ++ blocks', by simp, by simp, fun x hx => ?_⟩
  exact (mem_append.mp hx).elim (hblocks x) (hblocks' x)

theorem blocks_nil : Blocks R limits [] [] := ⟨[], rfl, rfl, by simp⟩

theorem blocks_of_decode (h : decodeFrame R bytes limits = .ok f) : Blocks R limits bytes [f] :=
  ⟨[(bytes, f)], by simp, rfl, by simpa using h⟩

/-- The image of a frame is read back. -/
theorem blocks_image (hskip : R.diagnosticSkipBodyHash = false) {parts : FrameParts}
    (henc : Encodable parts.header parts.envelope parts.body)
    (hacc : limits.Accepts parts.envelope.length parts.body.length) :
    Blocks R limits (parts.image R) [parts.decoded R] :=
  blocks_of_decode (decodeFrame_encodeFrame hskip hacc (encodeFrame_eq_ok.mpr ⟨henc, rfl⟩))

/-! ## The cut -/

variable {storeId : Arr 16} {acceptForeign : Bool} {regions : List ScanRegion} {kept : Bytes}

theorem stop_note (r : Recovered) (range : ByteRange) :
    (r.note storeId acceptForeign range f).stop = range.stop := by
  unfold Recovered.note
  dsimp only
  split
  · rfl
  · split_ifs <;> rfl

theorem segmentId_note (r : Recovered) (range : ByteRange) :
    (r.note storeId acceptForeign range f).segmentId =
      (f.ownSegment storeId).or r.segmentId := by
  unfold Recovered.note ownSegment
  generalize (if f.isKind segmentDescriptor then decodeDescriptorBody f.body else none) = named
  cases named with
  | none => rfl
  | some ids =>
    dsimp only
    split_ifs <;> rfl

/-- The last descriptor of the store names the segment. -/
theorem segmentId_recoverLoop :
    (recoverLoop storeId acceptForeign r regions).segmentId =
      ((leading r.stop regions).filterMap fun f => f.ownSegment storeId).getLast?.or
        r.segmentId := by
  induction regions generalizing r with
  | nil => rfl
  | cons region regions ih =>
    cases region with
    | hole range reason => rfl
    | verifiedFrame range f =>
      unfold recoverLoop leading
      split_ifs
      · rfl
      · rw [ih, stop_note, segmentId_note, filterMap_cons]
        cases f.ownSegment storeId <;> simp [getLast?_cons]

/-- The bytes up to the cut are the leading frames. -/
theorem blocks_recoverLoop (hsound : ∀ range f, .verifiedFrame range f ∈ regions →
      Verified R limits (bytes.drop range.start) f ∧ range.stop = range.start + f.frameLen.toNat)
    (h : Blocks R limits (bytes.take r.stop) fs) :
    Blocks R limits (bytes.take (recoverLoop storeId acceptForeign r regions).stop)
      (fs ++ leading r.stop regions) := by
  induction regions generalizing r fs with
  | nil => simpa [recoverLoop, leading] using h
  | cons region regions ih =>
    cases region with
    | hole range reason => simpa [recoverLoop, leading] using h
    | verifiedFrame range f =>
      unfold recoverLoop leading
      split_ifs with hstart
      · simpa using h
      rw [not_not] at hstart
      obtain ⟨hv, hstop⟩ := hsound range f mem_cons_self
      have hdecode : decodeFrame R ((bytes.drop range.start).take f.frameLen.toNat) limits =
          .ok f := by
        rw [decodeFrame_eq_ok]
        exact ⟨hv.congr (by rw [take_take, min_self]), length_take_of_le hv.fits⟩
      have hnext := h.append (blocks_of_decode hdecode)
      have hnote : range.stop = (r.note storeId acceptForeign range f).stop :=
        (stop_note r range).symm
      rw [← hstart, ← take_add, ← hstop, hnote] at hnext
      have := ih (fun range g hmem => hsound range g (mem_cons_of_mem _ hmem)) hnext
      rwa [stop_note, append_assoc] at this

/-- The regions of a scan start with the frame at the start of the file. -/
theorem regions_of_verified (h : Verified R limits bytes f) :
    ∃ range regions, (scanForward R bytes limits).regions = .verifiedFrame range f :: regions ∧
      range.start = 0 := by
  have hinv := scanForward_inv R limits bytes
  have hlen : 0 < bytes.length := by
    have := h.fits
    have := h.le_frameLen
    omega
  obtain ⟨range, hmem, hstart⟩ : ∃ range,
      .verifiedFrame range f ∈ (scanForward R bytes limits).regions ∧ range.start = 0 := by
    rcases hinv.complete 0 f hlen h with hmem | ⟨range, g, -, hlt, -⟩
    · exact hmem
    · omega
  have htiles := hinv.tiles
  cases hregions : (scanForward R bytes limits).regions with
  | nil =>
    rw [hregions] at hmem
    cases hmem
  | cons region regions =>
    rw [hregions] at hmem htiles
    obtain ⟨hlo, hlt, htail⟩ := htiles
    rcases mem_cons.mp hmem with heq | hmem
    · exact ⟨range, regions, by rw [heq], hstart⟩
    · have := (htail.bounds hmem).1
      have : ScanRegion.range (.verifiedFrame range f) = range := rfl
      simp only [this, hstart] at *
      omega

/-- **A file that starts with a descriptor of the store is cut after its leading frames.** -/
theorem recoverActiveBytes_eq_ok (h : HasDescriptor R limits storeId bytes) (fresh : Arr 16) :
    ∃ kept id, recoverActiveBytes R limits storeId acceptForeign fresh bytes = .ok (kept, id) ∧
      (ownSegments R limits storeId bytes).getLast? = some id ∧
      Blocks R limits kept (leadingFrames R limits bytes) ∧
      limits.Accepts 1 DESCRIPTOR_BODY_LEN := by
  obtain ⟨d, ids, createdNs, lims, hv, hkind, hdecode, hstore⟩ := h
  obtain ⟨range, regions, hregions, hstart⟩ := regions_of_verified hv
  have hne : bytes ≠ [] := by
    rintro rfl
    have := hv.fits
    have := hv.le_frameLen
    simp at *
    omega
  have hblocks : Blocks R limits (bytes.take (recoverLoop storeId acceptForeign ⟨0, none, none⟩
      (scanForward R bytes limits).regions).stop) ([] ++ leadingFrames R limits bytes) :=
    blocks_recoverLoop (scanForward_inv R limits bytes).sound (by simpa using blocks_nil)
  have hrecovered : (recoverLoop storeId acceptForeign ⟨0, none, none⟩
      (scanForward R bytes limits).regions).segmentId =
      (ownSegments R limits storeId bytes).getLast? := by
    rw [segmentId_recoverLoop, Option.or_none]
    rfl
  obtain ⟨id, hid⟩ : ∃ id, (ownSegments R limits storeId bytes).getLast? = some id := by
    simp [ownSegments, leadingFrames, hregions, leading, hstart, ownSegment, hkind, hdecode,
      hstore, getLast?_cons]
  rw [hid] at hrecovered
  refine ⟨_, id, ?_, hid, hblocks, ?_⟩
  · simp [recoverActiveBytes, hne, hrecovered]
  · obtain ⟨henc, hacc⟩ := hv.encodable
    have hlen : d.body.length = DESCRIPTOR_BODY_LEN := by
      by_contra hne
      simp [decodeDescriptorBody, hne] at hdecode
    have hpos : 1 ≤ d.envelope.length := by
      by_contra hzero
      have hvalid := henc.valid
      rw [length_eq_zero_iff.mp (by omega : d.envelope.length = 0)] at hvalid
      cases hvalid
    rw [hlen] at hacc
    exact ⟨hpos.trans hacc.1, hacc.2.1, by have := hacc.2.2; omega⟩

/-! ## The new segment -/

theorem descriptor_writable (ids : SegmentId) (createdNs : UInt64)
    (h : limits.Accepts 1 DESCRIPTOR_BODY_LEN) :
    (descriptorParts ids limits createdNs EMPTY_ENVELOPE).Writable limits := by
  have hlen : (encodeDescriptorBody ids createdNs limits).length = DESCRIPTOR_BODY_LEN := by
    simp [encodeDescriptorBody, DESCRIPTOR_BODY_LEN, ids.storeId.2, ids.segmentId.2]
  have hbody : (UInt64.ofNat (encodeDescriptorBody ids createdNs limits).length).toNat =
      DESCRIPTOR_BODY_LEN := by rw [hlen]; decide
  have henv : (UInt32.ofNat EMPTY_ENVELOPE.length).toNat = 1 := by decide
  have hvalid : validateDeterministicCborEnvelope EMPTY_ENVELOPE = .ok () := by decide
  refine ⟨acceptsLengths_iff.mpr ?_, rfl, hlen.trans hbody.symm, rfl, hvalid, ?_⟩
  · simpa only [descriptorParts, rawHeader, hbody, henv] using h
  · simp only [declaredLen, descriptorParts, rawHeader, hbody]
    decide

section

variable (hskip : R.diagnosticSkipBodyHash = false) {seg : ActiveSegment}

include hskip

/-- A frame that was read is appended again, under the next sequence number. -/
theorem replayFrame_eq_ok (hseg : seg.isSealed = false) (hv : Verified R limits bytes f)
    (hkind : f.isReplayed = true) :
    ∃ seg' image g, replayFrame R seg f = .ok seg' ∧ seg'.isSealed = false ∧
      seg'.bytes = seg.bytes ++ image ∧ Blocks R limits image [g] ∧ SameFrame f g := by
  obtain ⟨henc, hacc⟩ := hv.encodable
  have henc' : Encodable { f.header with writerSequence := seg.writerSequence } f.envelope f.body :=
    ⟨henc.envelope_len, henc.body_len, henc.major, henc.valid, henc.len_lt⟩
  have hreserved : ¬(f.header.frameKind = segmentDescriptor.asU8 ∨
      f.header.frameKind = segmentSummary.asU8) := by
    rintro (h | h) <;>
      simp [isReplayed, isKind, h, asU8] at hkind
  let parts : FrameParts :=
    ⟨{ f.header with writerSequence := seg.writerSequence }, f.envelope, f.body⟩
  refine ⟨seg.push (parts.image R), parts.image R, parts.decoded R, ?_, hseg, rfl,
    blocks_image hskip henc' hacc, ⟨⟨_, rfl⟩, rfl, rfl⟩⟩
  have happend : seg.appendEncoded R parts.header parts.envelope parts.body =
      .ok (seg.push (parts.image R), seg.len) :=
    appendEncoded_eq_ok.mpr ⟨henc', rfl, rfl⟩
  simp only [replayFrame, appendParts, hseg, Bool.false_eq_true, if_false, hreserved]
  exact congrArg (Except.map Prod.fst) happend

theorem replayAll_eq_ok (hfs : ∀ f ∈ fs, f.isReplayed = true ∧ ∃ bytes, Verified R limits bytes f)
    (hseg : seg.isSealed = false) :
    ∃ seg' image gs, fs.foldlM (replayFrame R) seg = .ok seg' ∧ seg'.bytes = seg.bytes ++ image ∧
      Blocks R limits image gs ∧ (∀ f ∈ fs, ∃ g ∈ gs, SameFrame f g) ∧
      ∀ g ∈ gs, ∃ f ∈ fs, SameFrame f g := by
  induction fs generalizing seg with
  | nil => exact ⟨seg, [], [], rfl, by simp, blocks_nil, by simp, by simp⟩
  | cons f fs ih =>
    obtain ⟨hf, hrest⟩ := forall_mem_cons.mp hfs
    obtain ⟨hkind, bytes, hv⟩ := hf
    obtain ⟨seg₁, image₁, g, hrun₁, hseg₁, hbytes₁, hblocks₁, hsame⟩ :=
      replayFrame_eq_ok hskip hseg hv hkind
    obtain ⟨seg', image, gs, hrun, hbytes, hblocks, hforth, hback⟩ := ih hrest hseg₁
    refine ⟨seg', image₁ ++ image, g :: gs, ?_, ?_, hblocks₁.append hblocks, ?_, ?_⟩
    · rw [foldlM_cons, hrun₁]
      exact hrun
    · rw [hbytes, hbytes₁, append_assoc]
    · simp only [forall_mem_cons, exists_mem_cons_iff]
      exact ⟨.inl hsame, fun f hf => .inr (hforth f hf)⟩
    · simp only [forall_mem_cons, exists_mem_cons_iff]
      exact ⟨.inl hsame, fun g hg => .inr (hback g hg)⟩

theorem resumed_frames (hblocks : Blocks R limits kept fs)
    (hacc : limits.Accepts 1 DESCRIPTOR_BODY_LEN) (now : UInt64) (segmentId : Arr 16) :
    ∃ seg d gs, rebuildActive R limits storeId now segmentId kept = .ok seg ∧
      Blocks R limits seg.bytes (d :: gs) ∧ d.isKind .segmentDescriptor = true ∧
      (∀ f ∈ fs, f.isReplayed = true → ∃ g ∈ gs, SameFrame f g) ∧
      ∀ g ∈ gs, ∃ f ∈ fs, SameFrame f g := by
  have hw := descriptor_writable ⟨storeId, segmentId⟩ (createdNsOf now fs) hacc
  have hcreate := (create_eq_ok (R := R)).mpr ⟨hw, rfl⟩
  have hverified : ∀ f ∈ fs.filter isReplayed, f.isReplayed = true ∧
      ∃ bytes, Verified R limits bytes f := by
    intro f hf
    obtain ⟨hmem, hkind⟩ := mem_filter.mp hf
    obtain ⟨blocks, -, rfl, hdecode⟩ := hblocks
    obtain ⟨x, hx, rfl⟩ := mem_map.mp hmem
    exact ⟨hkind, x.1, (decodeFrame_eq_ok.mp (hdecode x hx)).1⟩
  have hunsealed : (created R ⟨storeId, segmentId⟩ limits (createdNsOf now fs)
      EMPTY_ENVELOPE).isSealed = false := rfl
  obtain ⟨seg, image, gs, hrun, hbytes, himage, hforth, hback⟩ :=
    replayAll_eq_ok hskip hverified hunsealed
  have hshort : EMPTY_ENVELOPE.length < 2 ^ 32 := by decide
  have hdescriptor := blocks_image hskip hw.encodable
    (hw.encodable.accepts_iff.mpr ⟨hshort, hw.accepted⟩)
  refine ⟨seg, (descriptorParts ⟨storeId, segmentId⟩ limits (createdNsOf now fs)
    EMPTY_ENVELOPE).decoded R, gs, ?_, ?_, rfl, fun f hf hkind =>
      hforth f (mem_filter.mpr ⟨hf, hkind⟩), fun g hg => ?_⟩
  · simp only [rebuildActive, hblocks.scan, hcreate]
    exact hrun
  · rw [hbytes]
    exact hdescriptor.append himage
  · obtain ⟨f, hf, hsame⟩ := hback g hg
    exact ⟨f, mem_of_mem_filter hf, hsame⟩

end

theorem Blocks.evidence (h : Blocks R limits bytes fs) :
    evidence R limits bytes = fs.filter isEvidence := by
  rw [Residiuum.evidence, h.scan]

theorem isReplayed_of_evidence (h : f.isEvidence = true) : f.isReplayed = true := by
  simp only [isEvidence, Bool.or_eq_true] at h
  simp [isReplayed, h]

/-- **An item event or a payload chunk is kept exactly when it has a copy before the first gap.** -/
theorem kept_iff_leading (hskip : R.diagnosticSkipBodyHash = false)
    (h : HasDescriptor R limits storeId bytes) {taken : Arr 16 → Bool} {fresh : Arr 16}
    {id : Arr 16}
    (hrecover : recoverActiveBytes R limits storeId acceptForeign fresh bytes = .ok (kept, id))
    (htaken : taken id = false) (now : UInt64) (hf : f.isEvidence = true) :
    (∃ g ∈ evidence R limits (resumeActive R limits storeId acceptForeign taken fresh now bytes),
      SameFrame f g) ↔ ∃ g ∈ leadingFrames R limits bytes, SameFrame f g := by
  obtain ⟨kept', id', hrecover', -, hblocks, hacc⟩ := recoverActiveBytes_eq_ok h fresh
  cases hrecover.symm.trans hrecover'
  obtain ⟨seg, d, gs, hrebuild, hseg, hd, hforth, hback⟩ :
      ∃ seg d gs, rebuildActive R limits storeId now id kept = .ok seg ∧ _ :=
    resumed_frames hskip hblocks hacc now id
  have hresumed :
      resumeActive R limits storeId acceptForeign taken fresh now bytes = seg.bytes := by
    simp [resumeActive, hrecover, htaken, hrebuild]
  rw [hresumed, hseg.evidence]
  constructor
  · rintro ⟨g, hg, hsame⟩
    obtain ⟨hmem, hge⟩ := mem_filter.mp hg
    rcases mem_cons.mp hmem with rfl | hmem
    · rw [isKind, decide_eq_true_eq] at hd
      simp [isEvidence, isKind, hd, asU8] at hge
    · obtain ⟨k, hk, hkg⟩ := hback g hmem
      exact ⟨k, hk, hsame.trans hkg.symm⟩
  · rintro ⟨k, hk, hsame⟩
    have hke : k.isEvidence = true := hsame.isEvidence.trans hf
    obtain ⟨g, hg, hkg⟩ := hforth k hk (isReplayed_of_evidence hke)
    exact ⟨g, mem_filter.mpr ⟨mem_cons_of_mem _ hg, hkg.isEvidence.trans hke⟩,
      hsame.trans hkg⟩

end Frames

/-- **All evidence is kept exactly when it has a copy before the first gap of the file**, or the
last segment of the store that is named there is taken. -/
theorem evidence_kept_iff (R : Runtime) (hskip : R.diagnosticSkipBodyHash = false)
    (limits : SafetyLimits) (storeId : Arr 16) (acceptForeign : Bool) (taken : Arr 16 → Bool)
    (fresh : Arr 16) (now : UInt64) (bytes : Bytes) (h : HasDescriptor R limits storeId bytes) :
    (∀ f ∈ evidence R limits bytes, ∃ g ∈ evidence R limits
        (resumeActive R limits storeId acceptForeign taken fresh now bytes), SameFrame f g) ↔
      (∃ id, (ownSegments R limits storeId bytes).getLast? = some id ∧ taken id = true) ∨
      ∀ f ∈ evidence R limits bytes, ∃ g ∈ leadingFrames R limits bytes, SameFrame f g := by
  obtain ⟨kept, id, hrecover, hid, -⟩ :
      ∃ kept id, recoverActiveBytes R limits storeId acceptForeign fresh bytes = .ok (kept, id) ∧
        _ := recoverActiveBytes_eq_ok h fresh
  cases htaken : taken id with
  | true =>
    simp only [resumeActive, hrecover, htaken, if_true]
    exact iff_of_true (fun f hf => ⟨f, hf, ⟨f.header.writerSequence, rfl⟩, rfl, rfl⟩)
      (.inl ⟨id, hid, htaken⟩)
  | false =>
    have hfalse : ¬∃ id', (ownSegments R limits storeId bytes).getLast? = some id' ∧
        taken id' = true := by
      rintro ⟨id', heq, htaken'⟩
      cases hid.symm.trans heq
      simp [htaken] at htaken'
    rw [or_iff_right hfalse]
    exact forall₂_congr fun f hf =>
      kept_iff_leading hskip h hrecover htaken now (mem_filter.mp hf).2

/-! ### A gap of one byte -/

/-- The bytes of a new segment. -/
def freshImage : Bytes :=
  (ActiveSegment.descriptorParts ⟨zeros 16, zeros 16⟩ .draftDefaults 0 EMPTY_ENVELOPE).image
    productRuntime

theorem freshImage_decoded : ∃ d, decodeFrame productRuntime freshImage .draftDefaults = .ok d ∧
    d.isKind .segmentDescriptor = true ∧ decodeDescriptorBody d.body =
      some (⟨zeros 16, zeros 16⟩, 0, .draftDefaults) := by
  have hw := descriptor_writable ⟨zeros 16, zeros 16⟩ 0
    (⟨by decide, by decide, by decide⟩ : SafetyLimits.draftDefaults.Accepts 1 DESCRIPTOR_BODY_LEN)
  exact ⟨_, decodeFrame_encodeFrame rfl (hw.encodable.accepts_iff.mpr ⟨by decide, hw.accepted⟩)
    (encodeFrame_eq_ok.mpr ⟨hw.encodable, rfl⟩), rfl, by decide +kernel⟩

/-- A file that starts with the new segment. -/
theorem freshImage_descriptor (rest : Bytes) :
    HasDescriptor productRuntime .draftDefaults (zeros 16) (freshImage ++ rest) := by
  obtain ⟨d, hdecode, hkind, hbody⟩ := freshImage_decoded
  obtain ⟨hv, hlen⟩ := decodeFrame_eq_ok.mp hdecode
  have hverified : Verified productRuntime .draftDefaults (freshImage ++ rest) d :=
    hv.congr (by rw [← hlen, take_left, take_length])
  exact ⟨d, _, _, _, hverified, hkind, hbody, rfl⟩

/-- A file without a gap. -/
theorem evidence_kept_sample :
    HasDescriptor productRuntime .draftDefaults (zeros 16) (freshImage ++ sampleBlock) ∧
      ∀ f ∈ evidence productRuntime .draftDefaults (freshImage ++ sampleBlock),
        ∃ g ∈ evidence productRuntime .draftDefaults (resumeActive productRuntime .draftDefaults
          (zeros 16) false (fun _ => false) (zeros 16) 0 (freshImage ++ sampleBlock)),
          SameFrame f g := by
  have hdescriptor := freshImage_descriptor sampleBlock
  have hleading : ∀ f ∈ evidence productRuntime .draftDefaults (freshImage ++ sampleBlock),
      f ∈ leadingFrames productRuntime .draftDefaults (freshImage ++ sampleBlock) := by
    decide +kernel
  refine ⟨hdescriptor, (evidence_kept_iff productRuntime rfl .draftDefaults (zeros 16) false
    (fun _ => false) (zeros 16) 0 _ hdescriptor).mpr (.inr fun f hf => ?_)⟩
  exact ⟨f, hleading f hf, ⟨f.header.writerSequence, rfl⟩, rfl, rfl⟩

/-- The item behind a byte of zero. -/
def gapImage : Bytes := freshImage ++ ([0] ++ sampleBlock)

/-- **A frame that is found behind one damaged byte is gone after the store was opened.** -/
theorem frame_behind_gap_lost :
    sampleParts.decoded productRuntime ∈ evidence productRuntime .draftDefaults gapImage ∧
      ¬∃ g ∈ evidence productRuntime .draftDefaults (resumeActive productRuntime .draftDefaults
        (zeros 16) false (fun _ => false) (zeros 16) 0 gapImage),
        SameFrame (sampleParts.decoded productRuntime) g := by
  have hgone : evidence productRuntime .draftDefaults (resumeActive productRuntime .draftDefaults
      (zeros 16) false (fun _ => false) (zeros 16) 0 gapImage) = [] := by
    decide +kernel
  refine ⟨by decide +kernel, ?_⟩
  rw [hgone]
  rintro ⟨g, hg, -⟩
  cases hg

end Residiuum
