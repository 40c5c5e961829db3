import Residiuum.Atomics.Cbor
import Residiuum.Atomics.Limits
import Residiuum.Format.Frame
import Residiuum.Lib.Distinct
import Residiuum.Lib.Group

/-!
# Prepare, member, decision and tombstone records

The durable evidence of an atomic (`evidence.rs`, `evidence_cbor.rs`): four record kinds, their
deterministic codecs, and the two hashes that tie them together.

* `decodePrepare`, `decodeMember`, `decodeDecision`, `decodeTombstone`: unknown keys and illegal
  combinations are refused.
* `prepareHash`: the hash a decision names its prepare by.
* `orderedMemberManifestRoot`: the hash of the members in canonical target order;
  **`orderedMemberManifestRoot_perm`**: it does not depend on the order of arrival.
-/

namespace Residiuum.Atomics

open ByteLib DistinctLib

/-! ## Identities -/

/-- A non-zero identity of `n` bytes. -/
abbrev Identity (n : ℕ) : Type := {a : Arr n // a ≠ zeros n}

/-- The `from_bytes` of the identity types: the all-zero identity is refused. -/
def identityFromBytes {n : ℕ} (label : String) (bytes : Arr n) : Except AtomicsError (Identity n) :=
  if h : bytes = zeros n then throw (.invalidIdentity (label ++ " is zero")) else return ⟨bytes, h⟩

abbrev AtomicId : Type := Identity 32

abbrev ContentRoot : Type := Identity 32

abbrev HeapId : Type := Identity 16

abbrev CollectionId : Type := Identity 16

abbrev VersionId : Type := Identity 16

def AtomicId.fromBytes : Arr 32 → Except AtomicsError AtomicId := identityFromBytes "AtomicId"

def ContentRoot.fromBytes : Arr 32 → Except AtomicsError ContentRoot :=
  identityFromBytes "ContentRoot"

def HeapId.fromBytes : Arr 16 → Except AtomicsError HeapId := identityFromBytes "HeapId"

def CollectionId.fromBytes : Arr 16 → Except AtomicsError CollectionId :=
  identityFromBytes "CollectionId"

def VersionId.fromBytes : Arr 16 → Except AtomicsError VersionId := identityFromBytes "VersionId"

/-! ## Enumerations and their wire codes -/

/-- Scopes of coordination. -/
inductive CoordinationScope where
  | key
  | localHeap
  | partition
  deriving DecidableEq, Repr

def CoordinationScope.wireCode : CoordinationScope → UInt8
  | .key => 1
  | .localHeap => 2
  | .partition => 3

def CoordinationScope.fromWireCode (code : UInt8) : Option CoordinationScope :=
  if code = 1 then some .key
  else if code = 2 then some .localHeap
  else if code = 3 then some .partition
  else none

/-- Kinds of writes. -/
inductive MutationKind where
  | create
  | put
  | replace
  | delete
  deriving DecidableEq, Repr

def MutationKind.wireCode : MutationKind → UInt8
  | .create => 1
  | .put => 2
  | .replace => 3
  | .delete => 4

def MutationKind.fromWireCode (code : UInt8) : Option MutationKind :=
  if code = 1 then some .create
  else if code = 2 then some .put
  else if code = 3 then some .replace
  else if code = 4 then some .delete
  else none

/-- Outcomes. -/
inductive DecisionCode where
  | committed
  | notCommitted
  deriving DecidableEq, Repr

def DecisionCode.wireCode : DecisionCode → UInt8
  | .committed => 1
  | .notCommitted => 2

def DecisionCode.fromWireCode (code : UInt8) : Option DecisionCode :=
  if code = 1 then some .committed
  else if code = 2 then some .notCommitted
  else none

/-- Durability class of an acknowledgement; there is one. -/
inductive Durability where
  | durable
  deriving DecidableEq, Repr

def Durability.wireCode : Durability → UInt8
  | .durable => 1

def Durability.fromWireCode (code : UInt8) : Option Durability :=
  if code = 1 then some .durable else none

/-- Why an accepted atomic was not committed. -/
inductive AtomicAbortReason where
  | preconditionConflict
  | ruleRejected
  | recoveryAbort
  | coverageIncomplete
  deriving DecidableEq, Repr

def AtomicAbortReason.wireCode : AtomicAbortReason → UInt8
  | .preconditionConflict => 1
  | .ruleRejected => 2
  | .recoveryAbort => 3
  | .coverageIncomplete => 4

def AtomicAbortReason.fromWireCode (code : UInt8) : Option AtomicAbortReason :=
  if code = 1 then some .preconditionConflict
  else if code = 2 then some .ruleRejected
  else if code = 3 then some .recoveryAbort
  else if code = 4 then some .coverageIncomplete
  else none

/-! ## Canonical keys -/

/-- Canonical key value; integer and decimal payloads are already canonical bytes. -/
inductive CanonicalKey where
  | string (s : String)
  | opaqueBytes (b : Bytes)
  | integer (b : Bytes)
  | decimal (coefficient : Bytes) (scale : Int64)
  deriving DecidableEq

def CanonicalKey.kindCode : CanonicalKey → UInt8
  | .string _ => 1
  | .opaqueBytes _ => 2
  | .integer _ => 3
  | .decimal _ _ => 4

def stringBytes (s : String) : Bytes := s.toByteArray.data.toList

/-- `key_order_bytes`: the kind tag, then the payload. -/
def keyOrderBytes (key : CanonicalKey) : Bytes :=
  key.kindCode :: match key with
    | .string s => stringBytes s
    | .opaqueBytes b => b
    | .integer b => b
    | .decimal coefficient scale => beBytes 8 scale.toUInt64.toNat ++ coefficient

/-- `verify_signed_integer`: empty and non-minimal encodings are refused. -/
def verifySignedInteger : Bytes → Except AtomicsError Unit
  | [] => throw (.refused .invalidValue)
  | b0 :: b1 :: _ =>
    if (b0 = 0 ∧ b1 < 0x80) ∨ (b0 = 0xff ∧ b1 ≥ 0x80) then throw (.refused .invalidValue)
    else return ()
  | [_] => return ()

def validateCanonicalKey : CanonicalKey → Except AtomicsError Unit
  | .string _ => return ()
  | .opaqueBytes _ => return ()
  | .integer bytes => verifySignedInteger bytes
  | .decimal coefficient _ => verifySignedInteger coefficient

def encodeInt (n : Int64) : Value :=
  if 0 ≤ n then .uint n.toUInt64 else .nint (~~~n).toUInt64

def encodeKeyMap (key : CanonicalKey) : Except AtomicsError Map := do
  validateCanonicalKey key
  let payload := match key with
    | .string s => stringBytes s
    | .opaqueBytes b => b
    | .integer b => b
    | .decimal coefficient _ => coefficient
  let scaleEntry : Map := match key with
    | .decimal _ scale => [(3, encodeInt scale)]
    | _ => []
  return [(1, .uint key.kindCode.toUInt64), (2, .bytes payload)] ++ scaleEntry

/-! ## Reading fields -/

variable (map : Map) (key : UInt64)

def field : Option Value := (map.find? fun e => e.1 = key).map Prod.snd

def asMap : Value → Except AtomicsError Map
  | .map m => return m
  | _ => throw (.cbor .notMap)

def requireValue : Except AtomicsError Value :=
  match field map key with
  | some v => return v
  | none => throw (.refused .malformedInput)

def requireU64 : Except AtomicsError UInt64 := do
  match ← requireValue map key with
  | .uint n => return n
  | _ => throw (.cbor .unsupported)

def requireU32 : Except AtomicsError UInt32 := do
  let n ← requireU64 map key
  if n.toNat < 2 ^ 32 then return n.toUInt32 else throw (.cbor .unsupported)

def requireU8 : Except AtomicsError UInt8 := do
  let n ← requireU64 map key
  if n.toNat < 2 ^ 8 then return n.toUInt8 else throw (.cbor .unsupported)

def requireBytes : Except AtomicsError Bytes := do
  match ← requireValue map key with
  | .bytes b => return b
  | _ => throw (.cbor .unsupported)

def arrOfBytes (n : ℕ) (b : Bytes) : Except AtomicsError (Arr n) :=
  if h : b.length = n then return ⟨b, h⟩ else throw (.refused .malformedInput)

/-- `require_bstr16` and `require_bstr32`. -/
def requireBstr (n : ℕ) (map : Map) (key : UInt64) : Except AtomicsError (Arr n) := do
  arrOfBytes n (← requireBytes map key)

def requireMap : Except AtomicsError Map := do
  asMap (← requireValue map key)

def optionalU64 : Except AtomicsError (Option UInt64) :=
  match field map key with
  | none => return none
  | some (.uint n) => return some n
  | some _ => throw (.cbor .unsupported)

def optionalBytes : Except AtomicsError (Option Bytes) :=
  match field map key with
  | none => return none
  | some (.bytes b) => return some b
  | some _ => throw (.cbor .unsupported)

def optionalBstr32 : Except AtomicsError (Option (Arr 32)) := do
  match ← optionalBytes map key with
  | none => return none
  | some b => return some (← arrOfBytes 32 b)

def optionalVersion : Except AtomicsError (Option VersionId) := do
  match ← optionalBytes map key with
  | none => return none
  | some b => return some (← VersionId.fromBytes (← arrOfBytes 16 b))

def optionalAbort : Except AtomicsError (Option AtomicAbortReason) := do
  match ← optionalU64 map key with
  | none => return none
  | some n =>
    if n.toNat < 2 ^ 8 then
      match AtomicAbortReason.fromWireCode n.toUInt8 with
      | some reason => return some reason
      | none => throw (.refused .malformedInput)
    else throw (.refused .malformedInput)

def requireCode {α : Type} (fromWireCode : UInt8 → Option α) (e : AtomicsError) (map : Map)
    (key : UInt64) : Except AtomicsError α := do
  match fromWireCode (← requireU8 map key) with
  | some a => return a
  | none => throw e

def refuseUnknownKeys (allowed : List UInt64) : Except AtomicsError Unit :=
  if map.all fun e => e.1 ∈ allowed then return () else throw (.refused .malformedInput)

def decodeInt : Value → Except AtomicsError Int64
  | .uint n => if n.toNat < 2 ^ 63 then return n.toInt64 else throw (.cbor .unsupported)
  | .nint n =>
    if n.toNat < 2 ^ 63 then return Int64.ofInt (-(n.toNat : ℤ) - 1)
    else throw (.cbor .unsupported)
  | _ => throw (.cbor .unsupported)

def refuseScaleOnNonDecimal (hasScale : Bool) : Except AtomicsError Unit :=
  if hasScale then throw (.refused .malformedInput) else return ()

def decodeKey (v : Value) : Except AtomicsError CanonicalKey := do
  let map ← asMap v
  refuseUnknownKeys map [1, 2, 3]
  let kind ← requireU8 map 1
  let payload ← requireBytes map 2
  let hasScale := map.any fun e => e.1 = 3
  if kind = 1 then
    refuseScaleOnNonDecimal hasScale
    match fromUtf8 payload with
    | some s => return .string s
    | none => throw (.refused .invalidValue)
  else if kind = 2 then
    refuseScaleOnNonDecimal hasScale
    return .opaqueBytes payload
  else if kind = 3 then
    refuseScaleOnNonDecimal hasScale
    verifySignedInteger payload
    return .integer payload
  else if kind = 4 then
    let scale ← decodeInt (← requireValue map 3)
    verifySignedInteger payload
    return .decimal payload scale
  else throw (.refused .invalidValue)

def encodeLimits (l : ResourceLimits) : Map :=
  [(1, .uint l.callerMutations.toUInt64), (2, .uint l.totalGeneratedMembers.toUInt64),
    (3, .uint l.canonicalPlanBytes.toUInt64), (4, .uint l.totalProposedValueBytes.toUInt64),
    (5, .uint l.readWitnesses.toUInt64), (6, .uint l.predicates.toUInt64),
    (7, .uint l.affectedCollections.toUInt64), (8, .uint l.activeRuleRevisions.toUInt64),
    (9, .uint l.constructionDeadline.wireMillis), (10, .uint l.emittedViolations.toUInt64)]

def decodeLimits : Except AtomicsError ResourceLimits := do
  refuseUnknownKeys map [1, 2, 3, 4, 5, 6, 7, 8, 9, 10]
  return {
    callerMutations := ← requireU32 map 1
    totalGeneratedMembers := ← requireU32 map 2
    canonicalPlanBytes := ← requireU32 map 3
    totalProposedValueBytes := ← requireU32 map 4
    readWitnesses := ← requireU32 map 5
    predicates := ← requireU32 map 6
    affectedCollections := ← requireU32 map 7
    activeRuleRevisions := ← requireU32 map 8
    constructionDeadline := .fromMillis (← requireU64 map 9)
    emittedViolations := ← requireU32 map 10 }

/-- The prepare record. -/
structure AtomicPrepare where
  atomicId : AtomicId
  heapId : HeapId
  scope : CoordinationScope
  contentRoot : ContentRoot
  frontier : Arr 32
  orderedMemberManifestRoot : Arr 32
  memberCount : UInt32
  readSetRoot : Arr 32
  predicateSetRoot : Arr 32
  activeRuleRevisionRoot : Arr 32
  limits : ResourceLimits
  deriving DecidableEq

/-- `encode_prepare`; the keys are the `PREP_*` constants. -/
def encodePrepare (p : AtomicPrepare) : Except AtomicsError Bytes :=
  encodeMap
    [(1, .bytes p.atomicId.1.1), (2, .bytes p.heapId.1.1), (3, .uint p.scope.wireCode.toUInt64),
      (4, .bytes p.contentRoot.1.1), (5, .bytes p.frontier.1),
      (6, .bytes p.orderedMemberManifestRoot.1), (7, .bytes p.readSetRoot.1),
      (8, .bytes p.predicateSetRoot.1), (9, .bytes p.activeRuleRevisionRoot.1),
      (10, .map (encodeLimits p.limits)), (11, .uint p.memberCount.toUInt64)]

def decodePrepare (bytes : Bytes) : Except AtomicsError AtomicPrepare := do
  let map ← decodeMap bytes
  refuseUnknownKeys map [1, 2, 3, 4, 5, 6, 7, 8, 9, 10, 11]
  let scope ← requireCode CoordinationScope.fromWireCode (.refused .malformedInput) map 3
  return {
    atomicId := ← AtomicId.fromBytes (← requireBstr 32 map 1)
    heapId := ← HeapId.fromBytes (← requireBstr 16 map 2)
    scope := scope
    contentRoot := ← ContentRoot.fromBytes (← requireBstr 32 map 4)
    frontier := ← requireBstr 32 map 5
    orderedMemberManifestRoot := ← requireBstr 32 map 6
    memberCount := ← requireU32 map 11
    readSetRoot := ← requireBstr 32 map 7
    predicateSetRoot := ← requireBstr 32 map 8
    activeRuleRevisionRoot := ← requireBstr 32 map 9
    limits := ← decodeLimits (← requireMap map 10) }

/-! ## Member -/

/-- The object of a member. -/
structure ObjectIdentity where
  collectionId : CollectionId
  key : CanonicalKey
  deriving DecidableEq

/-- The record of one write. -/
structure AtomicMember where
  atomicId : AtomicId
  ordinal : UInt32
  objectIdentity : ObjectIdentity
  memberKind : MutationKind
  beforeVersion : Option VersionId
  afterContentHash : Option (Arr 32)
  eventId : VersionId
  deriving DecidableEq

def AtomicMember.validate (m : AtomicMember) : Except AtomicsError Unit :=
  let before := m.beforeVersion.isSome
  let after := m.afterContentHash.isSome
  let legal := match m.memberKind with
    | .create => !before && after
    | .put => after
    | .replace => before && after
    | .delete => before && !after
  if legal then return () else throw (.refused .invalidValue)

def encodeObjectIdentity (id : ObjectIdentity) : Except AtomicsError Value := do
  return .map [(1, .bytes id.collectionId.1.1), (2, .map (← encodeKeyMap id.key))]

def decodeObjectIdentity (v : Value) : Except AtomicsError ObjectIdentity := do
  let map ← asMap v
  refuseUnknownKeys map [1, 2]
  return {
    collectionId := ← CollectionId.fromBytes (← requireBstr 16 map 1)
    key := ← decodeKey (← requireValue map 2) }

/-- `encode_member_body`; the keys are the `MEM_*` constants. -/
def encodeMemberBody (m : AtomicMember) : Except AtomicsError Bytes := do
  let identity ← encodeObjectIdentity m.objectIdentity
  let before := m.beforeVersion.toList.map fun v => (5, Value.bytes v.1.1)
  let after := m.afterContentHash.toList.map fun h => (6, Value.bytes h.1)
  encodeMap
    ([(1, .bytes m.atomicId.1.1), (2, .uint m.ordinal.toUInt64), (3, identity),
      (4, .uint m.memberKind.wireCode.toUInt64)] ++ before ++ after ++
      [(7, .bytes m.eventId.1.1)])

def encodeMember (m : AtomicMember) : Except AtomicsError Bytes := do
  m.validate
  encodeMemberBody m

def decodeMember (bytes : Bytes) : Except AtomicsError AtomicMember := do
  let map ← decodeMap bytes
  refuseUnknownKeys map [1, 2, 3, 4, 5, 6, 7]
  let kind ← requireCode MutationKind.fromWireCode (.refused .unknownMutationKind) map 4
  let member : AtomicMember := {
    atomicId := ← AtomicId.fromBytes (← requireBstr 32 map 1)
    ordinal := ← requireU32 map 2
    objectIdentity := ← decodeObjectIdentity (← requireValue map 3)
    memberKind := kind
    beforeVersion := ← optionalVersion map 5
    afterContentHash := ← optionalBstr32 map 6
    eventId := ← VersionId.fromBytes (← requireBstr 16 map 7) }
  member.validate
  return member

/-- The record of an outcome. -/
structure AtomicDecision where
  atomicId : AtomicId
  prepareHash : Arr 32
  memberRoot : Arr 32
  memberCount : UInt32
  decision : DecisionCode
  commitPosition : Option UInt64
  durability : Durability
  abortReason : Option AtomicAbortReason
  deriving DecidableEq

/-- A committed decision has a position and no abort reason, a not-committed one the reverse. -/
def validateDecisionAxis (decision : DecisionCode) (commitPosition : Option UInt64)
    (abortReason : Option AtomicAbortReason) : Except AtomicsError Unit :=
  match decision with
  | .committed =>
    if commitPosition = some 0 ∨ commitPosition = none ∨ abortReason.isSome then
      throw (.refused .malformedInput)
    else return ()
  | .notCommitted =>
    if commitPosition.isSome ∨ abortReason.isNone then throw (.refused .malformedInput)
    else return ()

def AtomicDecision.validate (d : AtomicDecision) : Except AtomicsError Unit :=
  validateDecisionAxis d.decision d.commitPosition d.abortReason

/-- `encode_decision`; the keys are the `DEC_*` constants. -/
def encodeDecision (d : AtomicDecision) : Except AtomicsError Bytes := do
  d.validate
  let position := d.commitPosition.toList.map fun pos => (6, Value.uint pos)
  let abort := d.abortReason.toList.map fun r => (8, Value.uint r.wireCode.toUInt64)
  encodeMap
    ([(1, .bytes d.atomicId.1.1), (2, .bytes d.prepareHash.1), (3, .bytes d.memberRoot.1),
      (4, .uint d.memberCount.toUInt64), (5, .uint d.decision.wireCode.toUInt64)] ++ position ++
      [(7, .uint d.durability.wireCode.toUInt64)] ++ abort)

def decodeDecision (bytes : Bytes) : Except AtomicsError AtomicDecision := do
  let map ← decodeMap bytes
  refuseUnknownKeys map [1, 2, 3, 4, 5, 6, 7, 8]
  let rec_ : AtomicDecision := {
    atomicId := ← AtomicId.fromBytes (← requireBstr 32 map 1)
    prepareHash := ← requireBstr 32 map 2
    memberRoot := ← requireBstr 32 map 3
    memberCount := ← requireU32 map 4
    decision := ← requireCode DecisionCode.fromWireCode (.refused .malformedInput) map 5
    commitPosition := ← optionalU64 map 6
    durability := ← requireCode Durability.fromWireCode (.refused .malformedInput) map 7
    abortReason := ← optionalAbort map 8 }
  rec_.validate
  return rec_

/-- What is kept of a decision. -/
structure DecisionTombstone where
  atomicId : AtomicId
  contentRoot : ContentRoot
  decision : DecisionCode
  commitPosition : Option UInt64
  decisionHash : Arr 32
  abortReason : Option AtomicAbortReason
  deriving DecidableEq

def DecisionTombstone.validate (t : DecisionTombstone) : Except AtomicsError Unit :=
  validateDecisionAxis t.decision t.commitPosition t.abortReason

/-- `encode_tombstone`; the keys are the `TOMB_*` constants. -/
def encodeTombstone (t : DecisionTombstone) : Except AtomicsError Bytes := do
  t.validate
  let position := t.commitPosition.toList.map fun pos => (4, Value.uint pos)
  let abort := t.abortReason.toList.map fun r => (6, Value.uint r.wireCode.toUInt64)
  encodeMap
    ([(1, .bytes t.atomicId.1.1), (2, .bytes t.contentRoot.1.1),
      (3, .uint t.decision.wireCode.toUInt64)] ++ position ++ [(5, .bytes t.decisionHash.1)] ++
      abort)

def decodeTombstone (bytes : Bytes) : Except AtomicsError DecisionTombstone := do
  let map ← decodeMap bytes
  refuseUnknownKeys map [1, 2, 3, 4, 5, 6]
  let rec_ : DecisionTombstone := {
    atomicId := ← AtomicId.fromBytes (← requireBstr 32 map 1)
    contentRoot := ← ContentRoot.fromBytes (← requireBstr 32 map 2)
    decision := ← requireCode DecisionCode.fromWireCode (.refused .malformedInput) map 3
    commitPosition := ← optionalU64 map 4
    decisionHash := ← requireBstr 32 map 5
    abortReason := ← optionalAbort map 6 }
  rec_.validate
  return rec_

/-! ## Hashes -/

def DOMAIN_ATOMIC_PREPARE : Bytes :=
  [0x52, 0x45, 0x53, 0x49, 0x44, 0x49, 0x55, 0x55, 0x4d, 0x2d, 0x41, 0x54, 0x4f, 0x4d, 0x49, 0x43,
    0x2d, 0x50, 0x52, 0x45, 0x50, 0x41, 0x52, 0x45, 0x2d, 0x56, 0x31]

def DOMAIN_ATOMIC_MEMBER : Bytes :=
  [0x52, 0x45, 0x53, 0x49, 0x44, 0x49, 0x55, 0x55, 0x4d, 0x2d, 0x41, 0x54, 0x4f, 0x4d, 0x49, 0x43,
    0x2d, 0x4d, 0x45, 0x4d, 0x42, 0x45, 0x52, 0x2d, 0x56, 0x31]

def DOMAIN_ATOMIC_MANIFEST : Bytes :=
  [0x52, 0x45, 0x53, 0x49, 0x44, 0x49, 0x55, 0x55, 0x4d, 0x2d, 0x41, 0x54, 0x4f, 0x4d, 0x49, 0x43,
    0x2d, 0x4d, 0x41, 0x4e, 0x49, 0x46, 0x45, 0x53, 0x54, 0x2d, 0x56, 0x31]

variable (R : Runtime)

def domainHash (domain bytes : Bytes) : Arr 32 :=
  R.finalize (R.update (R.update R.hasherNew domain) bytes)

def prepareHash (p : AtomicPrepare) : Except AtomicsError (Arr 32) := do
  return domainHash R DOMAIN_ATOMIC_PREPARE (← encodePrepare p)

def memberHash (m : AtomicMember) : Except AtomicsError (Arr 32) := do
  return domainHash R DOMAIN_ATOMIC_MEMBER (← encodeMember m)

/-- The order of `member_order_key`: heap, collection, key bytes, kind code, ordinal. -/
def memberOrder (heap : HeapId) : AtomicMember → AtomicMember → Ordering :=
  compareLex (compareOn fun _ => heap.1.1) <|
  compareLex (compareOn fun m => m.objectIdentity.collectionId.1.1) <|
  compareLex (compareOn fun m => keyOrderBytes m.objectIdentity.key) <|
  compareLex (compareOn fun m => m.memberKind.wireCode) (compareOn fun m => m.ordinal)

/-- What a member targets: its collection and the order bytes of its key. -/
def AtomicMember.target (m : AtomicMember) : CollectionId × Bytes :=
  (m.objectIdentity.collectionId, keyOrderBytes m.objectIdentity.key)

/-- `ordered_member_manifest_root`: two members of one target are refused. -/
def orderedMemberManifestRoot (heap : HeapId) (members : List AtomicMember) :
    Except AtomicsError (Arr 32) := do
  if ¬ (members.map AtomicMember.target).Nodup then throw (.refused .duplicateTarget)
  else do
    let hashes ← (sortBy (memberOrder heap) members).mapM (memberHash R)
    return R.finalize
      ((hashes.map Subtype.val).foldl R.update (R.update R.hasherNew DOMAIN_ATOMIC_MANIFEST))

instance transCmpMemberOrder (heap : HeapId) : Std.TransCmp (memberOrder heap) := by
  unfold memberOrder
  infer_instance

theorem memberOrder_eq {heap : HeapId} {a b : AtomicMember} (h : memberOrder heap a b = .eq) :
    a.ordinal = b.ordinal := by
  simp only [memberOrder, compareLex_eq_eq] at h
  exact Std.LawfulEqCmp.eq_of_compare h.2.2.2.2

theorem orderedMemberManifestRoot_perm (heap : HeapId) {l l' : List AtomicMember}
    (hperm : l.Perm l') (hord : ∀ a ∈ l, ∀ b ∈ l, a.ordinal = b.ordinal → a = b) :
    orderedMemberManifestRoot R heap l = orderedMemberManifestRoot R heap l' := by
  have hsort : sortBy (memberOrder heap) l = sortBy (memberOrder heap) l' :=
    sortBy_eq_of_perm hperm fun a ha b hb hab => hord a ha b hb (memberOrder_eq hab)
  have hnodup := (hperm.map AtomicMember.target).nodup_iff
  unfold orderedMemberManifestRoot
  rw [hsort]
  simp [hnodup]

end Residiuum.Atomics
