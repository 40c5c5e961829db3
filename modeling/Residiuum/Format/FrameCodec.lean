import Residiuum.Format.CborValidate
import Residiuum.Format.FrameLayout

/-!
# Frames: the encoder, the verifier and the round trip

* **`encodeFrameInto_eq_ok`**: the encoder appends `frameImage`, exactly on `Encodable` arguments.
* **`verifyFrameAt_eq_ok`**: `verifyFrameAt` accepts exactly the `Verified` candidates;
  `Verified.congr`: it reads the frame's own bytes only.
* **`verify_frameImage_iff`**, **`frame_roundtrip`**: an image verifies in front of any bytes,
  exactly when its lengths are within the limits, and decodes when nothing follows.
-/

namespace Residiuum

open ByteLib List

/-! ## The encoder -/

theorem appendBodyLoop_eq (R : Runtime) (body : Bytes) (offset : ℕ) (hasher : R.Hasher)
    (out : Bytes) : ∃ chunks : List Bytes, chunks.flatten = body.drop offset ∧
      appendBodyLoop R body offset hasher out =
        (chunks.foldl R.update hasher, out ++ body.drop offset) := by
  fun_induction appendBodyLoop R body offset hasher out with
  | case1 offset hasher out hlt end_ chunk ih =>
    obtain ⟨chunks, hflat, hrun⟩ := ih
    have hsplit : chunk ++ body.drop end_ = body.drop offset := by
      have hle : offset ≤ end_ := by simp only [end_]; omega
      rw [← take_append_drop (end_ - offset) (body.drop offset), drop_drop]
      congr 2
      omega
    refine ⟨chunk :: chunks, ?_, ?_⟩
    · rw [flatten_cons, hflat, hsplit]
    · rw [hrun, append_assoc, hsplit, foldl_cons]
  | case2 offset hasher out hge =>
    exact ⟨[], by rw [drop_of_length_le (Nat.le_of_not_lt hge)]; rfl,
      by rw [drop_of_length_le (Nat.le_of_not_lt hge), append_nil]; rfl⟩

def storedHash (R : Runtime) (body : Bytes) : Arr 32 :=
  if R.diagnosticSkipBodyHash then zeroHash else bodyHash R body

theorem appendBodyHashed_eq (R : Runtime) (out body : Bytes) :
    appendBodyHashed R out body = (storedHash R body, out ++ body) := by
  rw [appendBodyHashed, storedHash]
  split_ifs with hskip hempty
  · rfl
  · rw [hempty, append_nil]
  · obtain ⟨chunks, hflat, hrun⟩ := appendBodyLoop_eq R body 0 R.hasherNew out
    rw [drop_zero] at hflat hrun
    simp [hrun, R.finalize_foldl, hflat, bodyHash]

def declaredLen (h : FrameHeader) : ℕ := 120 + h.envelopeLen.toNat + h.bodyLen.toNat

/-- What `encode_frame` requires of its arguments. -/
structure Encodable (h : FrameHeader) (envelope body : Bytes) : Prop where
  envelope_len : UInt32.ofNat envelope.length = h.envelopeLen
  body_len : body.length = h.bodyLen.toNat
  major : h.wireMajor = WIRE_MAJOR
  valid : validateDeterministicCborEnvelope envelope = .ok ()
  len_lt : declaredLen h < 2 ^ 64

@[irreducible] def frameImage (R : Runtime) (h : FrameHeader) (envelope body : Bytes) :
    Bytes :=
  encodePrefix R h envelope ++ (envelope ++ (body ++
    encodeSuffix R (UInt64.ofNat (declaredLen h)) (storedHash R body)))

theorem length_frameImage (R : Runtime) (h : FrameHeader) (envelope body : Bytes) :
    (frameImage R h envelope body).length = 120 + envelope.length + body.length := by
  simp only [frameImage, length_append, length_encodePrefix, length_encodeSuffix]
  omega

theorem liftCbor_eq_ok {α : Type} {x : Except CborEnvelopeError α} {a : α} :
    liftCbor x = .ok a ↔ x = .ok a := by
  cases x <;> simp [liftCbor]

theorem checkedFrameLen_eq (h : FrameHeader) :
    checkedFrameLen h.envelopeLen h.bodyLen =
      if declaredLen h < 2 ^ 64 then some (UInt64.ofNat (declaredLen h)) else none := by
  split_ifs with hlt
  · exact checkedFrameLen_eq_some.mpr (UInt64.toNat_ofNat_of_lt' hlt)
  · cases hc : checkedFrameLen h.envelopeLen h.bodyLen with
    | none => rfl
    | some n =>
      have hn := n.toNat_lt
      rw [checkedFrameLen_eq_some.mp hc] at hn
      exact absurd hn hlt

variable {R : Runtime} {envelope body : Bytes} {h : FrameHeader}

theorem encodeFrameInto_eq_ok {out out' : Bytes} :
    encodeFrameInto R out h envelope body = .ok out' ↔
      Encodable h envelope body ∧ out' = out ++ frameImage R h envelope body := by
  rw [encodeFrameInto, ite_throw_eq_ok, ite_throw_eq_ok, bind_eq_ok]
  simp only [liftCbor_eq_ok, checkedFrameLen_eq]
  constructor
  · rintro ⟨hlen, hmajor, _, hvalid, hrun⟩
    split_ifs at hrun with hlt
    rw [appendBodyHashed_eq] at hrun
    cases hrun
    rw [not_or, not_not, not_not] at hlen
    refine ⟨⟨hlen.1, hlen.2, not_not.mp hmajor, hvalid, hlt⟩, ?_⟩
    simp [frameImage]
  · rintro ⟨henc, rfl⟩
    refine ⟨by simp [henc.envelope_len, henc.body_len], not_not.mpr henc.major, (), henc.valid, ?_⟩
    rw [if_pos henc.len_lt]
    simp only [appendBodyHashed_eq, frameImage, append_assoc]
    rfl

variable {parts : FrameParts} {limits : SafetyLimits} {bytes : Bytes} {f : DecodedFrame}

theorem encodeFrame_eq_ok :
    encodeFrame R parts = .ok bytes ↔ Encodable parts.header parts.envelope parts.body ∧
      bytes = frameImage R parts.header parts.envelope parts.body := by
  rw [encodeFrame, checkedFrameLen_eq]
  split_ifs with hlt
  · simp [encodeFrameInto_eq_ok]
  · refine ⟨fun hrun => ?_, fun hrun => absurd hrun.1.len_lt hlt⟩
    cases hrun

/-! ## The verifier -/

theorem verifyRegions_eq_ok {n : UInt64} {pre suf : Bytes} :
    verifyRegions R h n pre envelope body suf = .ok f ↔
      f = ⟨h, envelope, body, bodyHash R body, n⟩ ∧
      prefixCrc32c R pre envelope = UInt32.ofNat (ofLe (slice pre 56 60)) ∧
      validateDeterministicCborEnvelope envelope = .ok () ∧ slice suf 0 8 = END_MAGIC ∧
      suffixCrc32c R suf = UInt32.ofNat (ofLe (slice suf 48 52)) ∧
      UInt64.ofNat (ofLe (slice suf 8 16)) = n ∧
      bodyHash R body = toArr 32 (slice suf 16 48) := by
  rw [verifyRegions, ite_throw_eq_ok, bind_eq_ok]
  simp only [liftCbor_eq_ok, ite_throw_eq_ok, not_not]
  constructor
  · rintro ⟨hp, _, hv, he, hs, hl, hh, hf⟩
    exact ⟨(Except.ok.inj hf).symm, hp, hv, he, hs, hl, hh⟩
  · rintro ⟨rfl, hp, hv, he, hs, hl, hh⟩
    exact ⟨hp, (), hv, he, hs, hl, hh, rfl⟩

/-- What a verified candidate `f` at the start of `bytes` satisfies. -/
structure Verified (R : Runtime) (limits : SafetyLimits) (bytes : Bytes) (f : DecodedFrame) :
    Prop where
  start_magic : slice bytes 0 8 = START_MAGIC
  header : readPrefixFields (slice bytes 0 64) = f.header
  major : f.header.wireMajor = WIRE_MAJOR
  accepted : limits.acceptsLengths f.header.envelopeLen f.header.bodyLen = true
  frame_len : f.frameLen.toNat = declaredLen f.header
  fits : f.frameLen.toNat ≤ bytes.length
  regions : verifyRegions R f.header f.frameLen (slice bytes 0 64)
    (slice bytes 64 (64 + f.header.envelopeLen.toNat))
    (slice bytes (64 + f.header.envelopeLen.toNat) (f.frameLen.toNat - 56))
    (slice bytes (f.frameLen.toNat - 56) f.frameLen.toNat) = .ok f

theorem declaredLen_sub (h : FrameHeader) :
    64 + h.envelopeLen.toNat + h.bodyLen.toNat = declaredLen h - 56 := by
  rw [declaredLen]
  omega

theorem verifyFrameAt_eq_ok : verifyFrameAt R bytes limits = .ok f ↔ Verified R limits bytes f := by
  have hmagic : slice (slice bytes 0 64) 0 8 = slice bytes 0 8 :=
    slice_slice bytes 0 64 0 8 (by omega)
  have hmajor : (slice bytes 0 64).getD 8 0 = (readPrefixFields (slice bytes 0 64)).wireMajor := rfl
  rw [verifyFrameAt, FRAME_PREFIX_LEN, ite_throw_eq_ok]
  simp only [ite_throw_eq_ok, checkedFrameLen_eq, not_not, not_lt, Bool.not_eq_false, hmagic,
    hmajor, declaredLen_sub]
  constructor
  · rintro ⟨-, hstart, hmaj, hacc, hrun⟩
    split_ifs at hrun with hlt
    have hn := UInt64.toNat_ofNat_of_lt' hlt
    simp only [ite_throw_eq_ok, not_lt, hn] at hrun
    obtain ⟨hfits, hreg⟩ := hrun
    obtain ⟨rfl, -⟩ := verifyRegions_eq_ok.mp hreg
    exact ⟨hstart, rfl, hmaj, hacc, hn, hn.symm ▸ hfits, by simpa only [hn] using hreg⟩
  · intro hv
    have hn := hv.frame_len
    have hlt : declaredLen f.header < 2 ^ 64 := hn ▸ f.frameLen.toNat_lt
    have hlen : UInt64.ofNat (declaredLen f.header) = f.frameLen := by rw [← hn, UInt64.ofNat_toNat]
    have hfits := hv.fits
    have hreg := hv.regions
    rw [hv.header, if_pos hlt, hlen]
    rw [hn, declaredLen] at hfits
    refine ⟨by omega, hv.start_magic, hv.major, hv.accepted, ?_⟩
    simp only [ite_throw_eq_ok, not_lt]
    rw [← hn]
    exact ⟨hv.fits, hreg⟩

namespace Verified

variable {R : Runtime} {limits : SafetyLimits} {bytes : Bytes} {f : DecodedFrame}

theorem le_frameLen (hv : Verified R limits bytes f) : 120 ≤ f.frameLen.toNat := by
  rw [hv.frame_len, declaredLen]
  omega

theorem unique {g : DecodedFrame} (hf : Verified R limits bytes f)
    (hg : Verified R limits bytes g) : f = g :=
  Except.ok.inj ((verifyFrameAt_eq_ok.mpr hf).symm.trans (verifyFrameAt_eq_ok.mpr hg))

theorem suffix_eq (hv : Verified R limits bytes f) :
    slice bytes (f.frameLen.toNat - 56) (f.frameLen.toNat - 48) = END_MAGIC ∧
      UInt64.ofNat (ofLe (slice bytes (f.frameLen.toNat - 48) (f.frameLen.toNat - 40))) =
        f.frameLen := by
  have hle := hv.le_frameLen
  obtain ⟨-, -, -, hend, -, hlen, -⟩ := verifyRegions_eq_ok.mp hv.regions
  rw [slice_slice _ _ _ _ _ (by omega)] at hend hlen
  have h48 : f.frameLen.toNat - 56 + 8 = f.frameLen.toNat - 48 := by omega
  have h40 : f.frameLen.toNat - 56 + 16 = f.frameLen.toNat - 40 := by omega
  rw [h48] at hend hlen
  rw [h40] at hlen
  exact ⟨hend, hlen⟩

theorem congr {bytes' : Bytes} (hv : Verified R limits bytes f)
    (h : bytes'.take f.frameLen.toNat = bytes.take f.frameLen.toNat) :
    Verified R limits bytes' f := by
  have hle := hv.le_frameLen
  have hlen := hv.frame_len
  have hfits := hv.fits
  have hs : ∀ a b, b ≤ f.frameLen.toNat → slice bytes' a b = slice bytes a b := by
    intro a b hb
    rw [← slice_take bytes' a hb, h, slice_take bytes a hb]
  have hfits' : f.frameLen.toNat ≤ bytes'.length := by
    have := congrArg List.length h
    rw [length_take, length_take] at this
    omega
  have henv : 64 + f.header.envelopeLen.toNat ≤ f.frameLen.toNat := by
    rw [hlen, declaredLen]
    omega
  refine ⟨?_, ?_, hv.major, hv.accepted, hlen, hfits', ?_⟩
  · rw [hs 0 8 (by omega)]
    exact hv.start_magic
  · rw [hs 0 64 (by omega)]
    exact hv.header
  · rw [hs 0 64 (by omega), hs 64 _ henv, hs _ _ (Nat.sub_le _ _), hs _ _ le_rfl]
    exact hv.regions

end Verified

/-! ## The round trip -/

section Image

variable (R : Runtime) (h : FrameHeader) (envelope body r : Bytes)

theorem image_head :
    slice (frameImage R h envelope body ++ r) 0 64 = encodePrefix R h envelope := by
  rw [frameImage, append_assoc]
  exact slice_left _ _ (length_encodePrefix R h envelope)

theorem image_startMagic : slice (frameImage R h envelope body ++ r) 0 8 = START_MAGIC := by
  rw [← slice_slice _ 0 64 0 8 (by omega), image_head, encodePrefix_eq, slice_startMagic]

theorem image_header : readPrefixFields (slice (frameImage R h envelope body ++ r) 0 64) = h := by
  rw [image_head, encodePrefix_eq, readPrefixFields_eq]

theorem image_envelope :
    slice (frameImage R h envelope body ++ r) 64 (64 + envelope.length) = envelope := by
  rw [frameImage, append_assoc, append_assoc]
  exact slice_middle _ _ _ (length_encodePrefix R h envelope) rfl

theorem image_body : slice (frameImage R h envelope body ++ r) (64 + envelope.length)
    (64 + envelope.length + body.length) = body := by
  have hsplit : frameImage R h envelope body ++ r = (encodePrefix R h envelope ++ envelope) ++
      (body ++ (encodeSuffix R (UInt64.ofNat (declaredLen h)) (storedHash R body) ++ r)) := by
    simp [frameImage]
  rw [hsplit]
  exact slice_middle _ _ _ (by rw [length_append, length_encodePrefix]) rfl

theorem image_suffix : slice (frameImage R h envelope body ++ r)
    (64 + envelope.length + body.length) (120 + envelope.length + body.length) =
      encodeSuffix R (UInt64.ofNat (declaredLen h)) (storedHash R body) := by
  have hsplit : frameImage R h envelope body ++ r =
      (encodePrefix R h envelope ++ envelope ++ body) ++
      (encodeSuffix R (UInt64.ofNat (declaredLen h)) (storedHash R body) ++ r) := by
    simp [frameImage]
  rw [hsplit]
  refine slice_middle _ _ _ ?_ ?_
  · simp only [length_append, length_encodePrefix]
  · rw [length_encodeSuffix]
    omega

end Image

theorem verify_frameImage (hskip : R.diagnosticSkipBodyHash = false)
    (henc : Encodable h envelope body) (hlen : envelope.length < 2 ^ 32)
    (hacc : limits.acceptsLengths h.envelopeLen h.bodyLen = true) (r : Bytes) :
    Verified R limits (frameImage R h envelope body ++ r)
      ⟨h, envelope, body, bodyHash R body, UInt64.ofNat (declaredLen h)⟩ := by
  have he : h.envelopeLen.toNat = envelope.length := by
    rw [← henc.envelope_len]
    exact UInt32.toNat_ofNat_of_lt' hlen
  have hn : (UInt64.ofNat (declaredLen h)).toNat = declaredLen h :=
    UInt64.toNat_ofNat_of_lt' henc.len_lt
  have hd : declaredLen h = 120 + envelope.length + body.length := by
    rw [declaredLen, he, henc.body_len]
  have hd' : declaredLen h - 56 = 64 + envelope.length + body.length := by omega
  have hhash : storedHash R body = bodyHash R body := by rw [storedHash, hskip]; rfl
  refine ⟨image_startMagic _ _ _ _ _, image_header _ _ _ _ _, henc.major, hacc, hn, ?_, ?_⟩
  · rw [hn, hd, length_append, length_frameImage]
    exact Nat.le_add_right _ _
  · simp only [hn, he, hd']
    rw [hd, image_head, image_envelope, image_body, image_suffix, hhash, verifyRegions_eq_ok,
      encodePrefix_eq, encodeSuffix_eq]
    refine ⟨rfl, ?_, henc.valid, slice_endMagic _ _ _, ?_, ?_, ?_⟩
    · rw [prefixCrc32c_eq _ _ _ (length_leBytes _ _), slice_prefixCrc _ (length_leBytes _ _),
        ofLe_leBytes_u32]
    · rw [suffixCrc32c_eq _ _ (length_leBytes _ _), slice_suffixCrc _ _ (length_leBytes _ _),
        ofLe_leBytes_u32]
    · rw [slice_suffixLen, ofLe_leBytes_u64, hd]
    · rw [slice_suffixHash, toArr_val]

/-- The lengths of encodable arguments are within the limits exactly when the envelope length was
not cut to 32 bits and the declared lengths are accepted. -/
theorem Encodable.accepts_iff
    (henc : Encodable h envelope body) : limits.Accepts envelope.length body.length ↔
      envelope.length < 2 ^ 32 ∧ limits.acceptsLengths h.envelopeLen h.bodyLen = true := by
  have hlt : limits.Accepts envelope.length body.length → envelope.length < 2 ^ 32 :=
    fun hacc => Nat.lt_of_le_of_lt hacc.1 limits.maxEnvelopeLen.toNat_lt
  rw [acceptsLengths_iff, ← henc.body_len, ← henc.envelope_len, ← and_iff_right_iff_imp.mpr hlt]
  refine and_congr_right fun hlen => ?_
  rw [UInt32.toNat_ofNat_of_lt' hlen]

theorem verify_frameImage_iff (hskip : R.diagnosticSkipBodyHash = false)
    (henc : Encodable h envelope body) (r : Bytes) :
    (∃ f, Verified R limits (frameImage R h envelope body ++ r) f) ↔
      limits.Accepts envelope.length body.length := by
  rw [henc.accepts_iff]
  constructor
  · rintro ⟨f, hv⟩
    have hh : f.header = h := hv.header.symm.trans (image_header _ _ _ _ _)
    have hacc := hv.accepted
    obtain ⟨-, -, hvalid, -⟩ := verifyRegions_eq_ok.mp hv.regions
    have hle : h.envelopeLen.toNat ≤ envelope.length := by
      rw [← henc.envelope_len, UInt32.toNat_ofNat']
      exact Nat.mod_le _ _
    -- the verifier reads an initial part of the envelope, and only the whole of it is valid
    have htake : slice (frameImage R h envelope body ++ r) 64 (64 + h.envelopeLen.toNat) =
        envelope.take h.envelopeLen.toNat := by
      have henv := image_envelope R h envelope body r
      rw [← congrArg (List.take h.envelopeLen.toNat) henv, slice, slice, take_take]
      congr 1
      omega
    rw [hh, htake] at hvalid
    have hrest : envelope.drop h.envelopeLen.toNat = [] := by
      apply validate_append_eq_nil hvalid
      rw [take_append_drop]
      exact henc.valid
    have hge := drop_eq_nil_iff.mp hrest
    rw [hh] at hacc
    exact ⟨Nat.lt_of_le_of_lt hge h.envelopeLen.toNat_lt, hacc⟩
  · rintro ⟨hlen, hacc⟩
    exact ⟨_, verify_frameImage hskip henc hlen hacc r⟩

theorem decodeFrame_eq_ok : decodeFrame R bytes limits = .ok f ↔
      Verified R limits bytes f ∧ bytes.length = f.frameLen.toNat := by
  rw [decodeFrame, bind_eq_ok]
  simp only [ite_throw_eq_ok, not_not, verifyFrameAt_eq_ok]
  constructor
  · rintro ⟨g, hg, hlen, hf⟩
    cases hf
    exact ⟨hg, hlen⟩
  · rintro ⟨hg, hlen⟩
    exact ⟨f, hg, hlen, rfl⟩

def FrameParts.decoded (R : Runtime) (parts : FrameParts) : DecodedFrame :=
  ⟨parts.header, parts.envelope, parts.body, bodyHash R parts.body,
    UInt64.ofNat (declaredLen parts.header)⟩

theorem verify_encodeFrame (hskip : R.diagnosticSkipBodyHash = false)
    (hlimits : limits.Accepts parts.envelope.length parts.body.length)
    (henc : encodeFrame R parts = .ok bytes) (r : Bytes) :
    Verified R limits (bytes ++ r) (parts.decoded R) ∧
      bytes.length = 120 + parts.envelope.length + parts.body.length ∧
      (parts.decoded R).frameLen.toNat = bytes.length := by
  obtain ⟨he, rfl⟩ := encodeFrame_eq_ok.mp henc
  obtain ⟨hlen, hacc⟩ := he.accepts_iff.mp hlimits
  have hel : parts.header.envelopeLen.toNat = parts.envelope.length := by
    rw [← he.envelope_len]
    exact UInt32.toNat_ofNat_of_lt' hlen
  have hv := verify_frameImage hskip he hlen hacc r
  refine ⟨hv, length_frameImage _ _ _ _, ?_⟩
  rw [length_frameImage, ← hel, he.body_len]
  exact hv.frame_len

theorem decodeFrame_encodeFrame (hskip : R.diagnosticSkipBodyHash = false)
    (hlimits : limits.Accepts parts.envelope.length parts.body.length)
    (henc : encodeFrame R parts = .ok bytes) :
    decodeFrame R bytes limits = .ok (parts.decoded R) := by
  obtain ⟨hv, -, hlen⟩ := verify_encodeFrame hskip hlimits henc []
  rw [append_nil] at hv
  exact decodeFrame_eq_ok.mpr ⟨hv, hlen.symm⟩

/-- **Round trip inside any context.** -/
theorem frame_roundtrip (R : Runtime) (hskip : R.diagnosticSkipBodyHash = false)
    (limits : SafetyLimits) (parts : FrameParts) (bytes r : Bytes)
    (hlimits : limits.Accepts parts.envelope.length parts.body.length)
    (henc : encodeFrame R parts = .ok bytes) :
    (∃ f, verifyFrameAt R (bytes ++ r) limits = .ok f ∧ f.header = parts.header ∧
      f.envelope = parts.envelope ∧ f.body = parts.body ∧
      f.frameLen.toNat = 120 + parts.envelope.length + parts.body.length) ∧
    ((∃ f, decodeFrame R (bytes ++ r) limits = .ok f) ↔ r = []) := by
  obtain ⟨hv, hlen, hframe⟩ := verify_encodeFrame hskip hlimits henc r
  refine ⟨⟨_, verifyFrameAt_eq_ok.mpr hv, rfl, rfl, rfl, hframe.trans hlen⟩, ?_⟩
  constructor
  · rintro ⟨f, hf⟩
    obtain ⟨hf, hflen⟩ := decodeFrame_eq_ok.mp hf
    rw [← hv.unique hf, hframe, length_append] at hflen
    exact eq_nil_of_length_eq_zero (by omega)
  · rintro rfl
    refine ⟨_, decodeFrame_eq_ok.mpr ⟨hv, ?_⟩⟩
    rw [hframe, append_nil]

/-- A small frame whose body looks like the start of a suffix. -/
def sampleParts : FrameParts :=
  ⟨.newDraft .itemEvent 1 8 ⟨List.replicate 16 7, rfl⟩, EMPTY_ENVELOPE, END_MAGIC⟩

theorem sampleParts_encodable :
    Encodable sampleParts.header sampleParts.envelope sampleParts.body :=
  ⟨by decide, by decide, rfl, by decide, by decide⟩

theorem sampleParts_accepted :
    SafetyLimits.draftDefaults.Accepts sampleParts.envelope.length sampleParts.body.length :=
  ⟨by decide, by decide, by decide⟩

def sampleBlock : Bytes :=
  frameImage productRuntime sampleParts.header sampleParts.envelope sampleParts.body

theorem sampleBlock_encoded : encodeFrame productRuntime sampleParts = .ok sampleBlock :=
  encodeFrame_eq_ok.mpr ⟨sampleParts_encodable, rfl⟩

/-- The small frame in front of bytes that look like another one. -/
theorem frame_roundtrip_sample :
    ∃ f, verifyFrameAt productRuntime (sampleBlock ++ START_MAGIC) .draftDefaults = .ok f ∧
      f.header = sampleParts.header ∧ f.body = END_MAGIC ∧ f.frameLen.toNat = 129 := by
  obtain ⟨⟨f, hf, hh, -, hb, hn⟩, -⟩ :=
    frame_roundtrip productRuntime rfl .draftDefaults sampleParts
    sampleBlock START_MAGIC sampleParts_accepted sampleBlock_encoded
  exact ⟨f, hf, hh, hb, hn⟩

end Residiuum
