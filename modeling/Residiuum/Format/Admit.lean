import Residiuum.Format.Ownership

/-!
# Frame admission: one heap per segment

A frame is admitted to the bound heap when the ownership of its segment, its own ownership and its
subject agree.

* **`decodeSubjectV2_eq_ok`**: decoding a subject inverts encoding, and refuses everything else.
* **`admitFrameToHeap_eq_admitted`**: what an admission has checked.
* **`admitted_isolated_iff`**: an admitted frame is free of foreign heap ids exactly when no
  envelope without a profile carries one.
* **`admit_written`**, **`written_admitted_iff`**: what the binding writers produce for a heap is
  admitted to it, and to no other heap.
* **`salvaged_admitted_iff`**: a salvaged frame is admitted when it names the object of its subject.
-/

namespace Residiuum

open ByteLib Except List

/-! ## Subjects -/

/-- Kinds of objects. -/
inductive SubjectObjectKind where
  | heapMetadata
  | collection
  | stream
  deriving DecidableEq, Repr

def SubjectObjectKind.asU8 : SubjectObjectKind → UInt8
  | .heapMetadata => 0
  | .collection => 1
  | .stream => 2

/-- Why a subject is not read. -/
inductive SubjectV2Error where
  | invalidLength
  | wrongVersion
  | invalidObjectKind
  | keyTooLong
  | nonZeroMetadataObjectId
  deriving DecidableEq, Repr

def SubjectObjectKind.fromU8 (v : UInt8) : Except SubjectV2Error SubjectObjectKind :=
  if v = 0 then .ok .heapMetadata
  else if v = 1 then .ok .collection
  else if v = 2 then .ok .stream
  else .error .invalidObjectKind

/-- A subject with its heap and object. -/
structure SubjectV2 where
  heapId : Arr 16
  objectKind : SubjectObjectKind
  /-- Collection or stream id, or all zero for heap metadata. -/
  objectId : Arr 16
  key : Bytes
  deriving DecidableEq, Repr

/-- Length of a subject in front of its key. -/
def HEADER_LEN : ℕ := 36

def zeroObjectId : Arr 16 := zeros 16

def encodeSubjectV2 (s : SubjectV2) : Except SubjectV2Error Bytes :=
  if s.key.length > 2048 then throw .keyTooLong
  else if s.objectKind = .heapMetadata ∧ s.objectId ≠ zeroObjectId then
    throw .nonZeroMetadataObjectId
  else
    return [[0x02], s.heapId.1, [s.objectKind.asU8], s.objectId.1, beBytes 2 s.key.length,
      s.key].flatten

def decodeSubjectV2 (bytes : Bytes) : Except SubjectV2Error SubjectV2 :=
  if bytes.length < HEADER_LEN then throw .invalidLength
  else if bytes.getD 0 0 ≠ 0x02 then throw .wrongVersion
  else do
    let heapId := toArr 16 (slice bytes 1 17)
    let objectKind ← SubjectObjectKind.fromU8 (bytes.getD 17 0)
    let objectId := toArr 16 (slice bytes 18 34)
    let keyLen := ofBe (slice bytes 34 36)
    if bytes.length ≠ HEADER_LEN + keyLen then throw .invalidLength
    else if keyLen > 2048 then throw .keyTooLong
    else if objectKind = .heapMetadata ∧ objectId ≠ zeroObjectId then
      throw .nonZeroMetadataObjectId
    else return ⟨heapId, objectKind, objectId, bytes.drop HEADER_LEN⟩

/-! ## Admission -/

/-- Outcome of trying to admit a frame into a bound heap. -/
inductive AdmitDecision where
  /-- `Admit` in the source. -/
  | admitted (ownership : OwnershipEvidence)
  | rejectUnknown
  | rejectConflict
  | rejectWrongHeap (claimed : Arr 16)
  | rejectSubjectMismatch
  | rejectMalformed
  deriving DecidableEq, Repr

def AdmitDecision.ofError : OwnershipError → AdmitDecision
  | .conflict => .rejectConflict
  | _ => .rejectMalformed

/-- Whether the subject's object is the one of the agreed ownership. -/
def objectAgrees (sv2 : SubjectV2) (collectionId streamId : Option (Arr 16)) : Bool :=
  match sv2.objectKind with
  | .heapMetadata => collectionId.isNone && streamId.isNone
  | .collection => collectionId == some sv2.objectId
  | .stream => streamId == some sv2.objectId

/-- The part of `admit_frame_to_heap` behind the agreement, on a known owner. -/
def admitSubject (boundHeap heapId : Arr 16) (profile : UInt64)
    (collectionId streamId : Option (Arr 16)) (subject : Option Bytes) : AdmitDecision :=
  let agreed := OwnershipEvidence.known heapId profile collectionId streamId
  if heapId ≠ boundHeap then .rejectWrongHeap heapId
  else
    match subject with
    | none => .admitted agreed
    | some subj =>
      match decodeSubjectV2 subj with
      | .error _ => .rejectMalformed
      | .ok sv2 =>
        if sv2.heapId ≠ boundHeap then .rejectWrongHeap sv2.heapId
        else if heapId ≠ sv2.heapId then .rejectSubjectMismatch
        else if objectAgrees sv2 collectionId streamId = false then .rejectSubjectMismatch
        else .admitted agreed

/-- Ordinary admission: segment descriptor, frame envelope and subject must agree. -/
def admitFrameToHeap (boundHeap : Arr 16) (segmentDescriptorEnvelope frameEnvelope : Bytes)
    (subject : Option Bytes) : AdmitDecision :=
  match parseOwnershipEnvelope segmentDescriptorEnvelope with
  | .error e => .ofError e
  | .ok seg =>
    match parseOwnershipEnvelope frameEnvelope with
    | .error e => .ofError e
    | .ok frame =>
      match agreeOwnership seg frame with
      | .error e => .ofError e
      | .ok .unknown => .rejectUnknown
      | .ok (.known heapId profile collectionId streamId) =>
        admitSubject boundHeap heapId profile collectionId streamId subject

/-- Why salvage refuses a frame. -/
inductive AdmitError where
  | ownership (e : OwnershipError)
  | subject (e : SubjectV2Error)
  deriving DecidableEq, Repr

/-- Salvage admission: the frame's envelope and subject alone. -/
def salvageAdmitFrame (frameEnvelope subject : Bytes) :
    Except AdmitError OwnershipEvidence := do
  let frame ← (parseOwnershipEnvelope frameEnvelope).mapError .ownership
  let sv2 ← (decodeSubjectV2 subject).mapError .subject
  match frame with
  | .known heapId _ _ _ =>
    if heapId = sv2.heapId then return frame else throw (.ownership .conflict)
  | .unknown => return .unknown

/-! ## The subject codec -/

theorem fromU8_eq_ok {v : UInt8} {kind : SubjectObjectKind} :
    SubjectObjectKind.fromU8 v = .ok kind ↔ v = kind.asU8 := by
  unfold SubjectObjectKind.fromU8
  split_ifs with h0 h1 h2
  · cases kind <;> simp [SubjectObjectKind.asU8, h0]
  · cases kind <;> simp [SubjectObjectKind.asU8, h1]
  · cases kind <;> simp [SubjectObjectKind.asU8, h2]
  · cases kind <;> simp [SubjectObjectKind.asU8, h0, h1, h2]

def subjectFields (s : SubjectV2) : List Bytes :=
  [[0x02], s.heapId.1, [s.objectKind.asU8], s.objectId.1, beBytes 2 s.key.length, s.key]

/-- The key is not too long, and heap metadata has the zero object id. -/
def SubjectV2.Valid (s : SubjectV2) : Prop :=
  s.key.length ≤ 2048 ∧ ¬ (s.objectKind = .heapMetadata ∧ s.objectId ≠ zeroObjectId)

variable {b frameEnvelope segmentEnvelope : Bytes} {heapId : Arr 16} {ev : OwnershipEvidence}
  {es : List (UInt64 × CborValue)} {subject : Option Bytes} {boundHeap : Arr 16}
  {profile : UInt64} {s : SubjectV2}

theorem encodeSubjectV2_eq_ok :
    encodeSubjectV2 s = .ok b ↔ s.Valid ∧ b = (subjectFields s).flatten := by
  unfold encodeSubjectV2 SubjectV2.Valid
  rw [ite_throw_eq_ok, ite_throw_eq_ok, Nat.not_lt, and_assoc]
  refine and_congr_right fun _ => and_congr_right fun _ => ?_
  exact ⟨fun h => (ok.inj h).symm, fun h => h ▸ rfl⟩

theorem subject_split (h : HEADER_LEN ≤ b.length) :
    [[b.getD 0 0], slice b 1 17, [b.getD 17 0], slice b 18 34, slice b 34 36,
      b.drop HEADER_LEN].flatten = b := by
  unfold HEADER_LEN at *
  rw [← slice_singleton b 0 rfl (show 0 < b.length by omega),
    ← slice_singleton b 0 (show 18 = 17 + 1 from rfl) (by omega)]
  simp only [flatten_cons, flatten_nil, append_nil]
  rw [slice_append_drop b (by omega), slice_append_drop b (by omega),
    slice_append_drop b (by omega), slice_append_drop b (by omega),
    slice_append_drop b (by omega), drop_zero]

theorem decodeSubjectV2_eq_ok : decodeSubjectV2 b = .ok s ↔ encodeSubjectV2 s = .ok b := by
  rw [encodeSubjectV2_eq_ok]
  unfold decodeSubjectV2
  simp only [ite_throw_eq_ok, bind_eq_ok, fromU8_eq_ok, not_lt, not_not]
  constructor
  · rintro ⟨hlen, hversion, kind, hkind, hkey, hshort, hmeta, hs⟩
    cases hs
    have hkeylen : (b.drop HEADER_LEN).length = ofBe (slice b 34 36) := by
      rw [length_drop]
      omega
    have h2 : (slice b 34 36).length = 2 :=
      length_slice (by omega) (by rw [HEADER_LEN] at hlen; omega)
    have hbe := beBytes_ofBe (slice b 34 36)
    rw [h2] at hbe
    have h17 : (slice b 1 17).length = 16 :=
      length_slice (by omega) (by rw [HEADER_LEN] at hlen; omega)
    have h34 : (slice b 18 34).length = 16 :=
      length_slice (by omega) (by rw [HEADER_LEN] at hlen; omega)
    refine ⟨⟨by rw [hkeylen]; exact hshort, hmeta⟩, ?_⟩
    show b = [[0x02], (toArr 16 (slice b 1 17)).1, [kind.asU8], (toArr 16 (slice b 18 34)).1,
      beBytes 2 (b.drop HEADER_LEN).length, b.drop HEADER_LEN].flatten
    rw [val_toArr h17, val_toArr h34, hkeylen, hbe, ← hkind, ← hversion, subject_split hlen]
  · rintro ⟨⟨hshort, hmeta⟩, rfl⟩
    have hheap := s.heapId.2
    have hobject := s.objectId.2
    have hlen : (subjectFields s).flatten.length = HEADER_LEN + s.key.length := by
      simp [subjectFields, HEADER_LEN, hheap, hobject]
      omega
    have h1 : slice (subjectFields s).flatten 1 17 = s.heapId.1 :=
      slice_field _ (i := 1) (by simp [subjectFields]) rfl (by simp [subjectFields, hheap])
    have h3 : slice (subjectFields s).flatten 18 34 = s.objectId.1 :=
      slice_field _ (i := 3) (by simp [subjectFields])
        (by simp [subjectFields, fieldOffset, hheap]) (by simp [subjectFields, hobject])
    have h4 : slice (subjectFields s).flatten 34 36 = beBytes 2 s.key.length :=
      slice_field _ (i := 4) (by simp [subjectFields])
        (by simp [subjectFields, fieldOffset, hheap, hobject]) (by simp [subjectFields])
    have hbe : ofBe (beBytes 2 s.key.length) = s.key.length := by
      rw [ofBe_beBytes, Nat.mod_eq_of_lt (by omega)]
    have hkey : (subjectFields s).flatten.drop HEADER_LEN = s.key := by
      have hsplit : (subjectFields s).flatten = ([0x02] ++ s.heapId.1 ++ [s.objectKind.asU8] ++
          s.objectId.1 ++ beBytes 2 s.key.length) ++ s.key := by
        simp [subjectFields, flatten_cons, flatten_nil]
      rw [hsplit, drop_left']
      simp [HEADER_LEN, hheap, hobject]
    have h17 : (subjectFields s).flatten.getD 17 0 = s.objectKind.asU8 := by
      have := slice_field (subjectFields s) (i := 2) (a := 17) (b := 18) (by simp [subjectFields])
        (by simp [subjectFields, fieldOffset, hheap]) (by simp [subjectFields])
      rw [slice_singleton _ 0 rfl (by rw [hlen, HEADER_LEN]; omega)] at this
      exact (List.cons.inj this).1
    refine ⟨by omega, rfl, s.objectKind, h17, ?_, ?_, ?_, ?_⟩
    · rw [h4, hbe, hlen]
    · rw [h4, hbe]
      exact hshort
    · rw [h3, toArr_val]
      exact hmeta
    · rw [h1, h3, hkey, toArr_val, toArr_val]
      rfl

/-- The subject, when given, decodes, names the heap, and names the object of the ownership. -/
def SubjectAgrees (boundHeap : Arr 16) (collectionId streamId : Option (Arr 16))
    (subject : Option Bytes) : Prop :=
  ∀ b, subject = some b → ∃ sv2, decodeSubjectV2 b = .ok sv2 ∧ sv2.heapId = boundHeap ∧
    objectAgrees sv2 collectionId streamId = true

theorem ofError_ne_admitted (e : OwnershipError) (ev : OwnershipEvidence) :
    AdmitDecision.ofError e ≠ .admitted ev := by
  cases e <;> exact nofun

theorem admitSubject_eq_admitted {collectionId streamId : Option (Arr 16)} :
    admitSubject boundHeap heapId profile collectionId streamId subject = .admitted ev ↔
      heapId = boundHeap ∧ ev = .known heapId profile collectionId streamId ∧
        SubjectAgrees boundHeap collectionId streamId subject := by
  unfold admitSubject SubjectAgrees
  by_cases hheap : heapId = boundHeap
  · subst hheap
    rw [if_neg (not_not.mpr rfl)]
    cases subject with
    | none =>
      refine ⟨fun h => ⟨rfl, (AdmitDecision.admitted.inj h).symm, fun b hb => ?_⟩, fun h => ?_⟩
      · cases hb
      · rw [h.2.1]
    | some b =>
      cases hdecode : decodeSubjectV2 b with
      | error e =>
        simp only [hdecode]
        refine ⟨fun h => (by cases h), fun h => ?_⟩
        obtain ⟨sv2, hsv2, -⟩ := h.2.2 b rfl
        cases hdecode.symm.trans hsv2
      | ok sv2 =>
        simp only [hdecode]
        constructor
        · intro h
          split_ifs at h with h1 h2 h3
          refine ⟨trivial, (AdmitDecision.admitted.inj h).symm, fun b' hb' => ?_⟩
          cases hb'
          exact ⟨sv2, hdecode, not_not.mp h1, Bool.not_eq_false _ ▸ h3⟩
        · rintro ⟨-, rfl, h⟩
          obtain ⟨sv2', hsv2, hid, hobject⟩ := h b rfl
          cases hdecode.symm.trans hsv2
          rw [if_neg (not_not.mpr hid), if_neg (not_not.mpr hid.symm),
            if_neg (by rw [hobject]; exact Bool.noConfusion)]
  · rw [if_pos hheap]
    exact ⟨fun h => (by cases h), fun h => absurd h.1 hheap⟩

theorem admitFrameToHeap_eq_admitted
    : admitFrameToHeap boundHeap segmentEnvelope frameEnvelope subject = .admitted ev ↔
      ∃ seg frame profile collectionId streamId,
        parseOwnershipEnvelope segmentEnvelope = .ok seg ∧
        parseOwnershipEnvelope frameEnvelope = .ok frame ∧
        agreeOwnership seg frame = .ok (.known boundHeap profile collectionId streamId) ∧
        ev = .known boundHeap profile collectionId streamId ∧
        SubjectAgrees boundHeap collectionId streamId subject := by
  unfold admitFrameToHeap
  constructor
  · intro h
    cases hseg : parseOwnershipEnvelope segmentEnvelope with
    | error e => rw [hseg] at h; exact absurd h (ofError_ne_admitted e ev)
    | ok seg =>
      cases hframe : parseOwnershipEnvelope frameEnvelope with
      | error e => rw [hseg, hframe] at h; exact absurd h (ofError_ne_admitted e ev)
      | ok frame =>
        simp only [hseg, hframe] at h
        cases hagree : agreeOwnership seg frame with
        | error e => rw [hagree] at h; exact absurd h (ofError_ne_admitted e ev)
        | ok agreed =>
          rw [hagree] at h
          cases agreed with
          | unknown => cases h
          | known heapId profile collectionId streamId =>
            obtain ⟨rfl, hev, hsubject⟩ := admitSubject_eq_admitted.mp h
            exact ⟨seg, frame, profile, collectionId, streamId, rfl, rfl, hagree, hev, hsubject⟩
  · rintro ⟨seg, frame, profile, collectionId, streamId, hseg, hframe, hagree, hev, hsubject⟩
    rw [hseg, hframe]
    simp only [hagree]
    exact admitSubject_eq_admitted.mpr ⟨rfl, hev, hsubject⟩

def OwnershipEvidence.collectionId : OwnershipEvidence → Option (Arr 16)
  | .known _ _ collectionId _ => collectionId
  | .unknown => none

def OwnershipEvidence.streamId : OwnershipEvidence → Option (Arr 16)
  | .known _ _ _ streamId => streamId
  | .unknown => none

theorem heap_eq_of_parsed {env : Bytes}
    (hparse : parseOwnershipEnvelope env = .ok ev) (hev : ev.NoOther heapId)
    (hes : decodeDeterministicUintMap env = .ok es)
    {v w : CborValue} (hv : (ENV_HEAP_ID, v) ∈ es) (hw : (ENV_OWNERSHIP_PROFILE, w) ∈ es) :
    v = .bytes heapId.1 := by
  have hasc := keysAscend_of_decode hes
  have hheap := (lookup_eq_some_iff hasc).mpr hv
  have hprofile := (lookup_eq_some_iff hasc).mpr hw
  obtain ⟨es', hes', -, hevidence⟩ := parseOwnershipEnvelope_eq_ok.mp hparse
  cases hes.symm.trans hes'
  cases hevidence with
  | known hh _ _ _ =>
    obtain rfl := hev
    exact Option.some.inj (hheap.symm.trans hh)
  | unknown hmissing =>
    rcases hmissing with h | h
    · cases h.symm.trans hheap
    · cases h.symm.trans hprofile

/-- **Isolation of an admitted frame.** The heap ids in both envelopes, the subject's heap and the
subject's object are those of the agreed ownership, exactly when an envelope that carries a heap id
without a profile carries the bound heap. -/
theorem admitted_isolated_iff (boundHeap : Arr 16) (segmentEnvelope frameEnvelope : Bytes)
    (subject : Option Bytes) (ownership : OwnershipEvidence)
    (hadmitted : admitFrameToHeap boundHeap segmentEnvelope frameEnvelope subject =
      .admitted ownership) :
    ((∀ env, env = segmentEnvelope ∨ env = frameEnvelope →
        ∀ es, decodeDeterministicUintMap env = .ok es →
        ∀ v, (ENV_HEAP_ID, v) ∈ es → v = .bytes boundHeap.1) ∧
      ∀ b, subject = some b → ∃ sv2, decodeSubjectV2 b = .ok sv2 ∧ sv2.heapId = boundHeap ∧
        (sv2.objectKind = .collection → ownership.collectionId = some sv2.objectId) ∧
        (sv2.objectKind = .stream → ownership.streamId = some sv2.objectId)) ↔
    ∀ env, env = segmentEnvelope ∨ env = frameEnvelope →
      ∀ es, decodeDeterministicUintMap env = .ok es →
      (∀ w, (ENV_OWNERSHIP_PROFILE, w) ∉ es) →
      ∀ v, (ENV_HEAP_ID, v) ∈ es → v = .bytes boundHeap.1 := by
  obtain ⟨seg, frame, profile, collectionId, streamId, hseg, hframe, hagree, rfl, hsubject⟩ :=
    admitFrameToHeap_eq_admitted.mp hadmitted
  obtain ⟨hsegHeap, hframeHeap⟩ := agreeOwnership_eq_known hagree
  constructor
  · rintro ⟨hheap, -⟩ env henv es hes - v hv
    exact hheap env henv es hes v hv
  · intro hcond
    refine ⟨fun env henv es hes v hv => ?_, fun b hb => ?_⟩
    · by_cases hprofile : ∃ w, (ENV_OWNERSHIP_PROFILE, w) ∈ es
      · obtain ⟨w, hw⟩ := hprofile
        rcases henv with rfl | rfl
        · exact heap_eq_of_parsed hseg hsegHeap hes hv hw
        · exact heap_eq_of_parsed hframe hframeHeap hes hv hw
      · exact hcond env henv es hes (fun w hw => hprofile ⟨w, hw⟩) v hv
    · obtain ⟨sv2, hdecode, hheap, hobject⟩ := hsubject b hb
      refine ⟨sv2, hdecode, hheap, fun hkind => ?_, fun hkind => ?_⟩
      · simp only [objectAgrees, hkind, beq_iff_eq] at hobject
        exact hobject
      · simp only [objectAgrees, hkind, beq_iff_eq] at hobject
        exact hobject

/-! ## Written frames -/

theorem admit_written {collectionId streamId : Option (Arr 16)} {subject : Bytes} {sv2 : SubjectV2}
    (hseg : encodeHeapBindingEnvelope heapId = .ok segmentEnvelope)
    (hframe : encodeDeterministicUintMap (bindingEntries heapId collectionId streamId) =
      .ok frameEnvelope)
    (hsubject : encodeSubjectV2 sv2 = .ok subject) (hheap : sv2.heapId = heapId)
    (hobject : objectAgrees sv2 collectionId streamId = true) :
    admitFrameToHeap heapId segmentEnvelope frameEnvelope (some subject) =
      .admitted (.known heapId OWNERSHIP_PROFILE_V1 collectionId streamId) := by
  have hmax : max OWNERSHIP_PROFILE_V1 OWNERSHIP_PROFILE_V1 = OWNERSHIP_PROFILE_V1 := by decide
  apply admitFrameToHeap_eq_admitted.mpr
  refine ⟨_, _, OWNERSHIP_PROFILE_V1, collectionId, streamId, parse_encodeBinding hseg,
    parse_encodeBinding hframe, ?_, rfl, fun b hb => ?_⟩
  · simp [agreeOwnership, idsConflict, hmax]
  · cases hb
    exact ⟨sv2, decodeSubjectV2_eq_ok.mpr hsubject, hheap, hobject⟩

/-- **Frames of the binding writers are admitted to their heap only**, with a subject of that heap
and of the object they name. -/
theorem written_admitted_iff {collectionId streamId : Option (Arr 16)} {subject : Bytes}
    (sv2 : SubjectV2) (hseg : encodeHeapBindingEnvelope heapId = .ok segmentEnvelope)
    (hframe : encodeDeterministicUintMap (bindingEntries heapId collectionId streamId) =
      .ok frameEnvelope) (hsubject : encodeSubjectV2 sv2 = .ok subject) (boundHeap : Arr 16) :
    (∃ ev, admitFrameToHeap boundHeap segmentEnvelope frameEnvelope (some subject) = .admitted ev) ↔
      boundHeap = heapId ∧ sv2.heapId = heapId ∧ objectAgrees sv2 collectionId streamId = true := by
  constructor
  · rintro ⟨ev, h⟩
    obtain ⟨_, _, _, _, _, hs, hf, hagree, -, hsub⟩ := admitFrameToHeap_eq_admitted.mp h
    cases hs.symm.trans (parse_encodeBinding hseg)
    cases hf.symm.trans (parse_encodeBinding hframe)
    obtain ⟨sv, hdecode, hheap, hobject⟩ := hsub _ rfl
    cases hdecode.symm.trans (decodeSubjectV2_eq_ok.mpr hsubject)
    simp [agreeOwnership, idsConflict] at hagree
    obtain ⟨rfl, -, rfl, rfl⟩ := hagree
    exact ⟨rfl, hheap, hobject⟩
  · rintro ⟨rfl, hheap, hobject⟩
    exact ⟨_, admit_written hseg hframe hsubject hheap hobject⟩

/-- An item of a collection is admitted to no other heap. -/
theorem written_admitted_sample : ∃ seg frame subject,
    encodeCollectionBindingEnvelope (zeros 16) (zeros 16) = .ok frame ∧
      ∀ heap, (∃ ev, admitFrameToHeap heap seg frame (some subject) = .admitted ev) ↔
        heap = zeros 16 := by
  have hframe := encode_of_canon (canon_bindingEntries (zeros 16) (some (zeros 16)) none)
  refine ⟨_, _, _, hframe, fun heap => (written_admitted_iff
    ⟨zeros 16, .collection, zeros 16, []⟩ (encode_of_canon (canon_bindingEntries _ none none))
    hframe rfl heap).trans ⟨And.left, fun h => ⟨h, rfl, by decide⟩⟩⟩

theorem decode_binding {collectionId streamId : Option (Arr 16)}
    (hes : decodeDeterministicUintMap (wire (.map (bindingEntries heapId collectionId streamId))) =
      .ok es) : (ENV_OWNERSHIP_PROFILE, .uint OWNERSHIP_PROFILE_V1) ∈ es := by
  have hdecode := decode_eq_ok.mpr ⟨canon_bindingEntries heapId collectionId streamId, rfl⟩
  cases hdecode.symm.trans hes
  exact mem_append_right _ (mem_singleton_self _)

/-- An item event of a collection, admitted to its heap. -/
theorem admitted_isolated_sample : ∃ segmentEnvelope frameEnvelope subject,
      admitFrameToHeap (zeros 16) segmentEnvelope frameEnvelope (some subject) =
        .admitted (.known (zeros 16) 1 (some (zeros 16)) none) ∧
      ∀ es, decodeDeterministicUintMap frameEnvelope = .ok es →
        ∀ v, (ENV_HEAP_ID, v) ∈ es → v = .bytes (zeros 16).1 := by
  have hadmitted := admit_written
    (encode_of_canon (canon_bindingEntries (zeros 16) none none))
    (encode_of_canon (canon_bindingEntries (zeros 16) (some (zeros 16)) none))
    (encodeSubjectV2_eq_ok.mpr ⟨⟨by decide, by decide⟩, rfl⟩ :
      encodeSubjectV2 ⟨zeros 16, .collection, zeros 16, [1]⟩ = .ok _) rfl (by decide)
  have hisolated := (admitted_isolated_iff _ _ _ _ _ hadmitted).mpr (by
    rintro env (rfl | rfl) es hes hno
    · exact absurd (decode_binding hes) (hno _)
    · exact absurd (decode_binding hes) (hno _))
  exact ⟨_, _, _, hadmitted, hisolated.1 _ (.inr rfl)⟩

def foreignHeap : Arr 16 := ⟨List.replicate 16 0xbb, length_replicate⟩

/-- A segment descriptor envelope that names the other heap, without a profile. -/
def foreignEnvelope : Bytes := wire (.map [(ENV_HEAP_ID, .bytes foreignHeap.1)])

/-- A frame of the bound heap is admitted from a segment whose descriptor names another heap. -/
theorem admit_hides_foreign_heap :
    ∃ frameEnvelope, encodeHeapBindingEnvelope (zeros 16) = .ok frameEnvelope ∧
      admitFrameToHeap (zeros 16) foreignEnvelope frameEnvelope none =
        .admitted (.known (zeros 16) 1 none none) ∧
      ∃ es v, decodeDeterministicUintMap foreignEnvelope = .ok es ∧ (ENV_HEAP_ID, v) ∈ es ∧
        v ≠ .bytes (zeros 16).1 := by
  refine ⟨wire (.map (bindingEntries (zeros 16) none none)), by decide +kernel, by decide +kernel,
    [(ENV_HEAP_ID, .bytes foreignHeap.1)], _, rfl, mem_singleton_self _, fun heq => ?_⟩
  exact absurd (CborValue.bytes.inj heq) (by decide)

/-! ## Salvage -/

def FrameNamesObject (frameEnvelope subject : Bytes) : Prop :=
  ∀ ev sv2, parseOwnershipEnvelope frameEnvelope = .ok ev → decodeSubjectV2 subject = .ok sv2 →
    objectAgrees sv2 ev.collectionId ev.streamId = true

theorem mapError_eq_ok {α ε ε' : Type} {f : ε → ε'} {x : Except ε α} {a : α} :
    x.mapError f = .ok a ↔ x = .ok a := by
  cases x <;> simp [Except.mapError]

/-- What a salvage admission of a known owner has checked. -/
theorem salvageAdmitFrame_eq_known {subject : Bytes} {collectionId streamId : Option (Arr 16)} :
    salvageAdmitFrame frameEnvelope subject =
        .ok (.known heapId profile collectionId streamId) ↔
      parseOwnershipEnvelope frameEnvelope = .ok (.known heapId profile collectionId streamId) ∧
        ∃ sv2, decodeSubjectV2 subject = .ok sv2 ∧ sv2.heapId = heapId := by
  unfold salvageAdmitFrame
  simp only [bind_eq_ok, mapError_eq_ok]
  constructor
  · rintro ⟨frame, hframe, sv2, hsv2, h⟩
    cases frame with
    | unknown => cases h
    | known heap p c s =>
      dsimp only at h
      split_ifs at h with hheap
      cases h
      exact ⟨hframe, sv2, hsv2, hheap.symm⟩
  · rintro ⟨hframe, sv2, hsv2, rfl⟩
    refine ⟨_, hframe, sv2, hsv2, ?_⟩
    dsimp only
    rw [if_pos rfl]
    rfl

/-- **A salvaged frame is admitted in the ordinary way** exactly when its envelope names the
object of its subject, which salvage does not compare. -/
theorem salvaged_admitted_iff (frameEnvelope subject : Bytes) (heapId : Arr 16)
    (profile : UInt64) (collectionId streamId : Option (Arr 16))
    (hsalvaged : salvageAdmitFrame frameEnvelope subject =
      .ok (.known heapId profile collectionId streamId)) :
    admitFrameToHeap heapId EMPTY_ENVELOPE frameEnvelope (some subject) =
        .admitted (.known heapId profile collectionId streamId) ↔
      FrameNamesObject frameEnvelope subject := by
  obtain ⟨hframe, sv2, hsv2, hheap⟩ := salvageAdmitFrame_eq_known.mp hsalvaged
  have hseg : parseOwnershipEnvelope EMPTY_ENVELOPE = .ok .unknown := rfl
  unfold admitFrameToHeap
  simp only [hseg, hframe, agreeOwnership]
  rw [admitSubject_eq_admitted]
  constructor
  · rintro ⟨-, -, hagrees⟩ ev sv2' hev hsv2'
    cases hframe.symm.trans hev
    obtain ⟨sv2'', hdecode, -, hobject⟩ := hagrees subject rfl
    cases hsv2'.symm.trans hdecode
    exact hobject
  · intro hnames
    refine ⟨rfl, rfl, fun b hb => ?_⟩
    cases hb
    exact ⟨sv2, hsv2, hheap, hnames _ sv2 hframe hsv2⟩

def zeroFrame : Bytes := wire (.map (bindingEntries (zeros 16) (some (zeros 16)) none))

def subjectIn (collection : Arr 16) : Bytes :=
  (subjectFields ⟨zeros 16, .collection, collection, [1]⟩).flatten

theorem salvaged_admitted_sample :
    salvageAdmitFrame zeroFrame (subjectIn (zeros 16)) =
        .ok (.known (zeros 16) 1 (some (zeros 16)) none) ∧
      FrameNamesObject zeroFrame (subjectIn (zeros 16)) :=
  ⟨by decide +kernel,
    (salvaged_admitted_iff _ _ (zeros 16) 1 (some (zeros 16)) none (by decide +kernel)).mp
      (by decide +kernel)⟩

/-- Salvage admits a frame of one collection under a subject of another. -/
theorem salvage_mixes_collections :
    salvageAdmitFrame zeroFrame (subjectIn foreignHeap) =
        .ok (.known (zeros 16) 1 (some (zeros 16)) none) ∧
      admitFrameToHeap (zeros 16) EMPTY_ENVELOPE zeroFrame (some (subjectIn foreignHeap)) =
        .rejectSubjectMismatch := by
  decide +kernel

end Residiuum
