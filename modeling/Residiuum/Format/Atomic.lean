import Residiuum.Atomics.Evidence
import Residiuum.Format.Ownership
import Residiuum.Format.Scan

/-!
# Atomic evidence: examination of frames and classification of groups

The recovery reader of `atomic.rs`. A scanned buffer gives verified frames; a frame of kind prepare,
commit or item event is examined against its envelope and its body; the valid ones are grouped by
`(heap_id, atomic_id)` and each group gets a class.
-/

namespace Residiuum

open ByteLib DistinctLib Atomics

/-! ## Kinds and envelope keys -/

def FrameKind.fromU8 (v : UInt8) : Option FrameKind :=
  [invalid, storeDescriptor, segmentDescriptor, itemEvent, payloadChunk, batchPrepare, batchCommit,
    segmentSummary, purgeAttestation, padding, heapDescriptor, collectionDescriptor,
    streamDescriptor, heapMigrationEvidence].find? fun kind => kind.asU8 = v

def ENV_ATOMIC_ID : UInt64 := 37

/-- Envelope key of the member ordinal. -/
def ENV_ATOMIC_ORDINAL : UInt64 := 38

def ENV_ATOMIC_CONTENT_ROOT : UInt64 := 39

def ENV_ATOMIC_COMMIT_POSITION : UInt64 := 40

/-! ## Classes -/

/-- Roles of atomic frames. -/
inductive AtomicFrameRole where
  | prepare
  | commit
  | member
  deriving DecidableEq, Repr

/-- What an envelope names. -/
structure AtomicLinkage where
  role : AtomicFrameRole
  atomicId : Arr 32
  contentRoot : Arr 32
  ordinal : Option UInt64
  commitPosition : Option UInt64
  heapId : Option (Arr 16)
  deriving DecidableEq, Repr

/-- Why an examination is not `valid`. -/
inductive AtomicExamReason where
  | envelopeCorrupt
  | fieldCorrupt
  | incompleteLinkage
  | roleMismatch
  | notAtomicEvidence
  | bodyCorrupt
  | bodyMissing
  | bodyMismatch
  | conflictingDecision
  | conflictingContentRoot
  | missingOwnership
  | groupIncomplete
  deriving DecidableEq, Repr

/-- Examination class of one verified frame. -/
inductive AtomicEvidenceClass where
  | valid (link : AtomicLinkage)
  | incomplete (linkage : Option AtomicLinkage) (reason : AtomicExamReason)
  | corrupt (reason : AtomicExamReason)
  | attributedCorrupt (linkage : AtomicLinkage) (reason : AtomicExamReason)
  | unsupported (reason : AtomicExamReason)
  deriving DecidableEq, Repr

/-- A frame and its class. -/
structure ExaminedAtomicFrame where
  offset : ℕ
  class_ : AtomicEvidenceClass
  deriving DecidableEq, Repr

/-- Class of one `(heap_id, atomic_id)` identity; `incomplete` is `Partial` in the source. -/
inductive AtomicGroupClass where
  | consistent
  | notCommitted (reclaimableMembers : Bool)
  | incomplete (reason : AtomicExamReason)
  | conflicting (reason : AtomicExamReason)
  | corrupt (reason : AtomicExamReason)
  deriving DecidableEq, Repr

/-- The frames of an identity. -/
structure ExaminedAtomicGroup where
  heapId : Option (Arr 16)
  atomicId : Arr 32
  contentRoot : Arr 32
  class_ : AtomicGroupClass
  deriving DecidableEq, Repr

/-- What recovery reports. -/
structure AtomicRecoveryReport where
  examined : List ExaminedAtomicFrame
  groups : List ExaminedAtomicGroup
  scan : ScanReport
  deriving DecidableEq, Repr

/-! ## Envelopes -/

/-- Why an envelope is refused. -/
inductive AtomicEnvelopeError where
  | envelope (e : CborEnvelopeError)
  | zeroCommitPosition
  deriving DecidableEq, Repr

/-- The heap ownership pair, then the linkage keys the three encoders have in common. -/
def linkageEntries (heapId : Arr 16) (atomicId contentRoot : Arr 32) : List (UInt64 × CborValue) :=
  [(ENV_HEAP_ID, .bytes heapId.1), (ENV_OWNERSHIP_PROFILE, .uint OWNERSHIP_PROFILE_V1),
    (ENV_ATOMIC_ID, .bytes atomicId.1), (ENV_ATOMIC_CONTENT_ROOT, .bytes contentRoot.1)]

/-- Encode the linkage with further entries; a zero commit position is refused. -/
def encodeLinkage (entries : List (UInt64 × CborValue)) (commitPosition : Option UInt64) :
    Except AtomicEnvelopeError Bytes :=
  if commitPosition = some 0 then .error .zeroCommitPosition
  else
    let position := commitPosition.toList.map fun pos =>
      (ENV_ATOMIC_COMMIT_POSITION, CborValue.uint pos)
    match encodeDeterministicUintMap (entries ++ position) with
    | .ok bytes => .ok bytes
    | .error e => .error (.envelope e)

def encodeAtomicPrepareEnvelope (heapId : Arr 16) (atomicId contentRoot : Arr 32) :
    Except AtomicEnvelopeError Bytes :=
  encodeLinkage (linkageEntries heapId atomicId contentRoot) none

def encodeAtomicCommitEnvelope (heapId : Arr 16) (atomicId contentRoot : Arr 32)
    (commitPosition : Option UInt64) : Except AtomicEnvelopeError Bytes :=
  encodeLinkage (linkageEntries heapId atomicId contentRoot) commitPosition

/-- `encode_atomic_member_envelope`; the encoder sorts the ordinal into its place. -/
def encodeAtomicMemberEnvelope (heapId : Arr 16) (atomicId : Arr 32) (ordinal : UInt64)
    (contentRoot : Arr 32) (commitPosition : Option UInt64) : Except AtomicEnvelopeError Bytes :=
  encodeLinkage
    (linkageEntries heapId atomicId contentRoot ++ [(ENV_ATOMIC_ORDINAL, .uint ordinal)])
    commitPosition

/-! ## Envelope fields -/

/-- The fields of an envelope. -/
structure AtomicFields where
  atomicId : Option (Arr 32)
  contentRoot : Option (Arr 32)
  ordinal : Option UInt64
  commitPosition : Option UInt64
  heapId : Option (Arr 16)
  fieldCorrupt : Bool

def b32 : CborValue → Option (Arr 32)
  | .bytes b => if h : b.length = 32 then some ⟨b, h⟩ else none
  | _ => none

/-- The loop body of `parse_fields`. -/
def atomicEntry (fields : AtomicFields) (entry : UInt64 × CborValue) : AtomicFields :=
  let corrupt := { fields with fieldCorrupt := true }
  if entry.1 = ENV_ATOMIC_ID then
    match b32 entry.2 with
    | some id => { fields with atomicId := some id }
    | none => corrupt
  else if entry.1 = ENV_ATOMIC_ORDINAL then
    match entry.2 with
    | .uint n => { fields with ordinal := some n }
    | _ => corrupt
  else if entry.1 = ENV_ATOMIC_CONTENT_ROOT then
    match b32 entry.2 with
    | some root => { fields with contentRoot := some root }
    | none => corrupt
  else if entry.1 = ENV_ATOMIC_COMMIT_POSITION then
    match entry.2 with
    | .uint n => if n = 0 then corrupt else { fields with commitPosition := some n }
    | _ => corrupt
  else fields

/-- The heap named by the ownership keys, or why it cannot be read. -/
def ownedHeap (envelope : Bytes) : Except AtomicExamReason (Option (Arr 16)) :=
  match parseOwnershipEnvelope envelope with
  | .ok (.known heapId _ _ _) => .ok (some heapId)
  | .ok .unknown => .ok none
  | .error (.envelope _) => .error .envelopeCorrupt
  | .error _ => .error .fieldCorrupt

def parseAtomicFields (envelope : Bytes) : Except AtomicExamReason AtomicFields :=
  match decodeDeterministicUintMap envelope with
  | .error _ => .error .envelopeCorrupt
  | .ok map => do
    let heapId ← ownedHeap envelope
    let fields := map.foldl atomicEntry ⟨none, none, none, none, heapId, false⟩
    if fields.fieldCorrupt then .error .fieldCorrupt else .ok fields

def orBodyCorrupt {α : Type} : Except AtomicsError α → Except AtomicExamReason α
  | .ok a => .ok a
  | .error _ => .error .bodyCorrupt

/-- `check_body`: the body decodes for its role and agrees with the envelope. -/
def checkBody (role : AtomicFrameRole) (fields : AtomicFields) (body : Bytes) :
    Except AtomicExamReason Unit :=
  if body = [] then .error .bodyMissing
  else
    let atomicId := fields.atomicId.getD (zeros 32)
    match role with
    | .prepare => do
      let prep ← orBodyCorrupt (decodePrepare body)
      if prep.atomicId.1 ≠ atomicId ∨ prep.contentRoot.1 ≠ fields.contentRoot.getD (zeros 32) then
        .error .bodyMismatch
      else if fields.heapId.any fun heap => prep.heapId.1 ≠ heap then .error .bodyMismatch
      else .ok ()
    | .member => do
      let member ← orBodyCorrupt (decodeMember body)
      if member.atomicId.1 ≠ atomicId ∨ some member.ordinal.toUInt64 ≠ fields.ordinal then
        .error .bodyMismatch
      else .ok ()
    | .commit => do
      let decision ← orBodyCorrupt (decodeDecision body)
      if decision.atomicId.1 ≠ atomicId then .error .bodyMismatch
      else
        match decision.decision with
        | .committed =>
          if decision.commitPosition ≠ fields.commitPosition then .error .bodyMismatch else .ok ()
        | .notCommitted =>
          if fields.commitPosition.isSome then .error .bodyMismatch else .ok ()

def classifyLinkage (role : AtomicFrameRole) (fields : AtomicFields)
    (body : Except AtomicExamReason Unit) : AtomicEvidenceClass :=
  match fields.atomicId with
  | none => .unsupported .notAtomicEvidence
  | some atomicId =>
    match fields.heapId with
    | none => .corrupt .missingOwnership
    | some heapId =>
      if (role = .prepare ∨ role = .commit) ∧ fields.ordinal.isSome then .corrupt .roleMismatch
      else
        match fields.contentRoot with
        | none => .incomplete none .incompleteLinkage
        | some contentRoot =>
          let linkage : AtomicLinkage :=
            ⟨role, atomicId, contentRoot, fields.ordinal, fields.commitPosition, some heapId⟩
          if role = .member ∧ fields.ordinal.isNone then
            .incomplete (some linkage) .incompleteLinkage
          else
            match body with
            | .error .bodyMissing => .incomplete (some linkage) .bodyMissing
            | .error reason => .attributedCorrupt linkage reason
            | .ok () => .valid linkage

def examineCoordinator (frame : DecodedFrame) (role : AtomicFrameRole) : AtomicEvidenceClass :=
  if frame.envelope = EMPTY_ENVELOPE then .unsupported .notAtomicEvidence
  else
    match parseAtomicFields frame.envelope with
    | .error reason => .corrupt reason
    | .ok fields =>
      if fields.atomicId.isNone then .unsupported .notAtomicEvidence
      else classifyLinkage role fields (checkBody role fields frame.body)

/-- `examine_member`: an item event without atomic identity is ordinary data. -/
def examineMember (frame : DecodedFrame) : Option AtomicEvidenceClass :=
  if frame.envelope = EMPTY_ENVELOPE then none
  else
    match parseAtomicFields frame.envelope with
    | .error .envelopeCorrupt => none
    | .error reason => some (.corrupt reason)
    | .ok fields =>
      if fields.atomicId.isNone then none
      else some (classifyLinkage .member fields (checkBody .member fields frame.body))

def examineAtomicFrame (frame : DecodedFrame) : Option AtomicEvidenceClass :=
  match FrameKind.fromU8 frame.header.frameKind with
  | some .batchPrepare => some (examineCoordinator frame .prepare)
  | some .batchCommit => some (examineCoordinator frame .commit)
  | some .itemEvent => examineMember frame
  | _ => none

/-! ## Groups -/

/-- `same_records`: neighbours are equal. -/
def sameRecords {α : Type} [DecidableEq α] : List α → Bool
  | a :: b :: l => a = b && sameRecords (b :: l)
  | _ => true

/-- `dedup_members`: one record per ordinal. -/
def dedupMembers (members : List AtomicMember) : Except AtomicGroupClass (List AtomicMember) :=
  dedupBy AtomicMember.ordinal (.corrupt .bodyMismatch) members

def classifyCommittedGroup (R : Runtime) (prepare : AtomicPrepare) (decision : AtomicDecision)
    (members : List AtomicMember) : AtomicGroupClass :=
  if decision.memberCount.toNat ≠ members.length then .corrupt .bodyMismatch
  else
    match HeapId.fromBytes prepare.heapId.1 with
    | .error _ => .corrupt .bodyCorrupt
    | .ok heap =>
      match orderedMemberManifestRoot R heap members with
      | .ok root =>
        if root = decision.memberRoot ∧ root = prepare.orderedMemberManifestRoot then .consistent
        else .corrupt .bodyMismatch
      | .error _ => .corrupt .bodyCorrupt

/-- `classify_not_committed_group`: staged members beside the abort are reclaimable. -/
def classifyNotCommittedGroup (prepare : AtomicPrepare) (decision : AtomicDecision)
    (members : List AtomicMember) : AtomicGroupClass :=
  if decision.validate.isOk = false ∨ decision.durability ≠ .durable ∨ decision.memberCount ≠ 0 ∨
      decision.memberRoot ≠ prepare.orderedMemberManifestRoot then
    .corrupt .bodyMismatch
  else .notCommitted (!members.isEmpty)

/-- `classify_group` once prepare and decision are known: the decision must name the prepare. -/
def classifyDecided (R : Runtime) (prepare : AtomicPrepare) (decision : AtomicDecision)
    (members : List AtomicMember) : AtomicGroupClass :=
  match prepareHash R prepare with
  | .error _ => .corrupt .bodyCorrupt
  | .ok ph =>
    if ph ≠ decision.prepareHash then .corrupt .bodyMismatch
    else
      match decision.decision with
      | .committed => classifyCommittedGroup R prepare decision members
      | .notCommitted => classifyNotCommittedGroup prepare decision members

/-- `classify_group` once the bodies are decoded. -/
def classifyRecords (R : Runtime) (prepares : List AtomicPrepare) (decisions : List AtomicDecision)
    (members : List AtomicMember) : AtomicGroupClass :=
  if sameRecords prepares = false then .corrupt .bodyMismatch
  else if sameRecords decisions = false then .conflicting .conflictingDecision
  else
    match dedupMembers members with
    | .error class_ => class_
    | .ok members =>
      match prepares.head?, decisions.head? with
      | some prepare, some decision => classifyDecided R prepare decision members
      | _, _ => .incomplete .groupIncomplete

abbrev ValidFrame : Type := AtomicLinkage × Bytes

def bodiesOf (role : AtomicFrameRole) (frames : List ValidFrame) : List Bytes :=
  (frames.filter fun f => f.1.role = role).map Prod.snd

/-- `classify_group`. A body that does not decode ends the decoding loop with one and the same
class, so the roles can be decoded one after the other. -/
def classifyGroup (R : Runtime) (frames : List ValidFrame) : AtomicGroupClass :=
  match (bodiesOf .prepare frames).mapM decodePrepare, (bodiesOf .member frames).mapM decodeMember,
      (bodiesOf .commit frames).mapM decodeDecision with
  | .ok prepares, .ok members, .ok decisions => classifyRecords R prepares decisions members
  | _, _, _ => .corrupt .bodyCorrupt

/-- The identity a frame is grouped under. -/
def ValidFrame.key? (f : ValidFrame) : Option (Arr 16 × Arr 32) :=
  f.1.heapId.map fun heap => (heap, f.1.atomicId)

def framesOf (key : Arr 16 × Arr 32) (valid : List ValidFrame) : List ValidFrame :=
  valid.filter fun f => f.1.atomicId = key.2 ∧ f.1.heapId = some key.1

/-- The class of the frames of one identity: two content roots conflict. -/
def classifyFrames (R : Runtime) (frames : List ValidFrame) : AtomicGroupClass :=
  if (distinct (frames.map fun f => f.1.contentRoot)).length > 1 then
    .conflicting .conflictingContentRoot
  else classifyGroup R frames

def aggregateGroups (R : Runtime) (valid : List ValidFrame) : List ExaminedAtomicGroup :=
  (distinct (valid.filterMap ValidFrame.key?)).map fun key =>
    let frames := framesOf key valid
    let roots := distinct (frames.map fun f => f.1.contentRoot)
    ⟨some key.1, key.2, roots.head?.getD (zeros 32), classifyFrames R frames⟩

def validFrame? (frame : DecodedFrame) : Option ValidFrame :=
  match examineAtomicFrame frame with
  | some (.valid link) => some (link, frame.body)
  | _ => none

def readAtomicEvidence (R : Runtime) (bytes : Bytes) (limits : SafetyLimits) :
    AtomicRecoveryReport :=
  let scan := scanForward R bytes limits
  { examined := scan.verifiedFrames.filterMap fun (offset, frame) =>
      (examineAtomicFrame frame).map fun class_ => ⟨offset, class_⟩
    groups := aggregateGroups R (scan.verifiedFrames.filterMap fun f => validFrame? f.2)
    scan := scan }

/-- The class reported for `(heap_id, atomic_id)`, if the identity is reported. -/
def classOf (groups : List ExaminedAtomicGroup) (heapId : Arr 16) (atomicId : Arr 32) :
    Option AtomicGroupClass :=
  (groups.find? fun g => g.heapId = some heapId ∧ g.atomicId = atomicId).map
    ExaminedAtomicGroup.class_

def frameGroups (R : Runtime) (frames : List DecodedFrame) : List ExaminedAtomicGroup :=
  aggregateGroups R (frames.filterMap validFrame?)

end Residiuum
