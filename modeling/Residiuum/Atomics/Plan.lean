import Residiuum.Atomics.Predicate

/-!
# Closed plans

A plan is closed from unordered parts (`plan.rs`, `canonical.rs`): repeated identities are refused,
the four lists are sorted, and every part is checked for its shape. Only closing makes a plan.

* `encodeCanonicalPlan`, `decodeCanonicalPlan`: the deterministic codec; `decodeParts` is the part
  of the reader before it closes the plan again.
* `planContentRoot`: the hash of the canonical bytes.
-/

namespace Residiuum.Atomics

open ByteLib DistinctLib

/-! ## Profiles -/

/-- Named profile; a code other than the known one is kept. -/
inductive AtomicProfile where
  | localHeapV1
  | unknown (code : {c : UInt16 // c ≠ 1})
  deriving DecidableEq

def AtomicProfile.wireCode : AtomicProfile → UInt16
  | .localHeapV1 => 1
  | .unknown code => code.1

def AtomicProfile.fromWireCode (code : UInt16) : AtomicProfile :=
  if h : code = 1 then .localHeapV1 else .unknown ⟨code, h⟩

/-- Kinds of predicates. -/
inductive PredicateKind where
  | assertAbsent
  | assertPresent
  | assertVersion
  | exactScalarEquality
  | boundedKeyRangeAbsence
  | boundedKeyRangePresence
  | activeRuleRevisionEquality
  | collectionLifecycleState
  | heapAuthorityRevision
  deriving DecidableEq, Repr

def PredicateKind.wireCode : PredicateKind → UInt8
  | .assertAbsent => 1
  | .assertPresent => 2
  | .assertVersion => 3
  | .exactScalarEquality => 4
  | .boundedKeyRangeAbsence => 5
  | .boundedKeyRangePresence => 6
  | .activeRuleRevisionEquality => 7
  | .collectionLifecycleState => 8
  | .heapAuthorityRevision => 9

def PredicateKind.fromWireCode (code : UInt8) : Option PredicateKind :=
  if code = 1 then some .assertAbsent
  else if code = 2 then some .assertPresent
  else if code = 3 then some .assertVersion
  else if code = 4 then some .exactScalarEquality
  else if code = 5 then some .boundedKeyRangeAbsence
  else if code = 6 then some .boundedKeyRangePresence
  else if code = 7 then some .activeRuleRevisionEquality
  else if code = 8 then some .collectionLifecycleState
  else if code = 9 then some .heapAuthorityRevision
  else none

/-- A read and the version it saw. -/
structure ReadWitness where
  collectionId : CollectionId
  key : CanonicalKey
  observedVersion : Option VersionId
  projectionHash : Arr 32
  deriving DecidableEq

/-- A planned write. -/
structure PlanMutation where
  kind : MutationKind
  collectionId : CollectionId
  key : CanonicalKey
  encodedValue : Option Bytes
  ifVersion : Option VersionId
  deriving DecidableEq

/-- A condition of a plan. -/
structure PlanPredicate where
  kind : PredicateKind
  collectionId : Option CollectionId
  key : Option CanonicalKey
  version : Option VersionId
  encoded : Option Bytes
  deriving DecidableEq

/-- The parts of a plan. -/
structure AtomicPlanParts where
  profile : AtomicProfile
  atomicId : AtomicId
  heapId : HeapId
  scope : CoordinationScope
  readFrontier : Option (Arr 32)
  reads : List ReadWitness
  predicates : List PlanPredicate
  mutations : List PlanMutation
  activeRuleRevisions : List (Arr 32)
  limits : ResourceLimits
  deriving DecidableEq

/-! ## Identities -/

/-- What a mutation changes: its collection and the order bytes of its key. -/
def PlanMutation.target (m : PlanMutation) : CollectionId × Bytes :=
  (m.collectionId, keyOrderBytes m.key)

def ReadWitness.target (r : ReadWitness) : CollectionId × Bytes :=
  (r.collectionId, keyOrderBytes r.key)

variable (R : Runtime) (p : PlanPredicate) (map : Map) (key : UInt64)

/-- The third component of a predicate's identity: the range, the revision or the key. -/
def PlanPredicate.identKey : Except AtomicsError Bytes :=
  match p.kind with
  | .boundedKeyRangeAbsence | .boundedKeyRangePresence =>
    match p.encoded with
    | some bytes => do return (← decodeBoundedRangePayload R bytes).rangeIdentity.1
    | none => throw malformed
  | .activeRuleRevisionEquality =>
    match p.encoded with
    | some bytes => return bytes
    | none => throw malformed
  | _ => return (p.key.map keyOrderBytes).getD []

def PlanPredicate.ident : Except AtomicsError (UInt8 × Option CollectionId × Bytes) := do
  return (p.kind.wireCode, p.collectionId, ← p.identKey R)

/-- The loop of the three duplicate checks. -/
def refuseDuplicates {α κ : Type} [DecidableEq κ] (ident : α → Except AtomicsError κ)
    (e : AtomicsError) (l : List α) : Except AtomicsError Unit := do
  let _ ← collectNew ident e l
  return ()

def refuseDuplicateTargets : List PlanMutation → Except AtomicsError Unit :=
  refuseDuplicates (fun m => .ok m.target) (.refused .duplicateTarget)

def refuseDuplicateReads : List ReadWitness → Except AtomicsError Unit :=
  refuseDuplicates (fun r => .ok r.target) malformed

def refuseDuplicatePredicates : List PlanPredicate → Except AtomicsError Unit :=
  refuseDuplicates (PlanPredicate.ident R) malformed

/-! ## Canonical order -/

/-- `optional_bytes_order`; `optional_version_order` is the same on the bytes of a version. -/
def optionalBytesOrder : Option Bytes → Bytes
  | none => [0]
  | some b => 1 :: b

def PlanMutation.targetOrder (heap : HeapId) : PlanMutation → PlanMutation → Ordering :=
  compareLex (compareOn fun _ => heap.1.1) <|
  compareLex (compareOn fun m => m.collectionId.1.1) <|
  compareLex (compareOn fun m => keyOrderBytes m.key) (compareOn fun m => m.kind.wireCode)

def readOrder (heap : HeapId) : ReadWitness → ReadWitness → Ordering :=
  compareLex (compareOn fun _ => heap.1.1) <|
  compareLex (compareOn fun r => r.collectionId.1.1) <|
  compareLex (compareOn fun r => keyOrderBytes r.key) <|
  compareLex (compareOn fun r => optionalBytesOrder (r.observedVersion.map fun v => v.1.1))
    (compareOn fun r => r.projectionHash.1)

def predOrder (heap : HeapId) : PlanPredicate → PlanPredicate → Ordering :=
  compareLex (compareOn fun _ => heap.1.1) <|
  compareLex (compareOn fun p => (p.collectionId.map fun c => c.1.1).getD []) <|
  compareLex (compareOn fun p => (p.key.map keyOrderBytes).getD []) <|
  compareLex (compareOn fun p => p.kind.wireCode) <|
  compareLex (compareOn fun p => optionalBytesOrder (p.version.map fun v => v.1.1))
    (compareOn fun p => optionalBytesOrder p.encoded)

def revisionOrder : Arr 32 → Arr 32 → Ordering := compareOn fun r => r.1

def AtomicPlanParts.sorted (parts : AtomicPlanParts) : AtomicPlanParts :=
  { parts with
    mutations := sortBy (PlanMutation.targetOrder parts.heapId) parts.mutations
    reads := sortBy (readOrder parts.heapId) parts.reads
    predicates := sortBy (predOrder parts.heapId) parts.predicates
    activeRuleRevisions := sortBy revisionOrder parts.activeRuleRevisions }

/-! ## Shapes -/

def requireFrontierWithReads (parts : AtomicPlanParts) : Except AtomicsError Unit :=
  if parts.reads ≠ [] ∧ parts.readFrontier = none then throw malformed else return ()

/-- The check of the revisions: a zero revision, or two equal neighbours. -/
def refuseRevisions (revisions : List (Arr 32)) : Except AtomicsError Unit :=
  if zeros 32 ∈ revisions ∨ ((revisions.zip revisions.tail).any fun pair => pair.1 = pair.2) then
    throw malformed
  else return ()

def PlanMutation.validateShape (m : PlanMutation) : Except AtomicsError Unit :=
  match m.kind with
  | .create | .put =>
    if m.encodedValue.isNone ∨ m.ifVersion.isSome then throw invalidErr else return ()
  | .replace => if m.encodedValue.isNone ∨ m.ifVersion.isNone then throw invalidErr else return ()
  | .delete => if m.encodedValue.isSome ∨ m.ifVersion.isNone then throw invalidErr else return ()

/-- The range that a predicate carries, when its payload decodes. -/
def PlanPredicate.range : Option BoundedKeyRange :=
  p.encoded.bind fun bytes => (decodeBoundedRangePayload R bytes).toOption

def PlanPredicate.shapeOk : Bool :=
  match p.kind with
  | .assertAbsent | .assertPresent =>
    p.collectionId.isSome && p.key.isSome && p.version.isNone && p.encoded.isNone
  | .assertVersion =>
    p.collectionId.isSome && p.key.isSome && p.version.isSome && p.encoded.isNone
  | .heapAuthorityRevision =>
    p.collectionId.isNone && p.key.isNone && p.version.isNone &&
      p.encoded.any fun bytes => bytes.length = 32
  | .activeRuleRevisionEquality =>
    p.collectionId.isNone && p.key.isNone && p.version.isNone &&
      p.encoded.any fun bytes => bytes.length = 32 && bytes ≠ (zeros 32).1
  | .collectionLifecycleState =>
    p.collectionId.isSome && p.key.isNone && p.version.isNone &&
      p.encoded.any fun bytes => (decodeCollectionLifecyclePayload bytes).toOption.isSome
  | .exactScalarEquality =>
    p.collectionId.isSome && p.key.isSome && p.version.isNone &&
      p.encoded.any fun bytes => (decodeExactScalarPayload bytes).toOption.isSome
  | .boundedKeyRangeAbsence =>
    p.collectionId.isSome && p.key.isNone && p.version.isNone &&
      (p.range R).any fun range => some range.collectionId = p.collectionId &&
        range.expectedCount = 0
  | .boundedKeyRangePresence =>
    p.collectionId.isSome && p.key.isNone && p.version.isNone &&
      (p.range R).any fun range => some range.collectionId = p.collectionId &&
        range.expectedCount > 0

def PlanPredicate.validateShape : Except AtomicsError Unit :=
  if p.shapeOk R then return () else throw malformed

def PlanPredicate.validateKey : Except AtomicsError Unit :=
  match p.key with
  | some key => validateCanonicalKey key
  | none => return ()

def validatePlanKeys (parts : AtomicPlanParts) : Except AtomicsError Unit := do
  parts.mutations.forM fun m => validateCanonicalKey m.key
  parts.reads.forM fun r => validateCanonicalKey r.key
  parts.predicates.forM PlanPredicate.validateKey

/-- `close_plan`, up to the private constructor. -/
def closeParts (draft : AtomicPlanParts) : Except AtomicsError AtomicPlanParts := do
  refuseDuplicateTargets draft.mutations
  refuseDuplicateReads draft.reads
  refuseDuplicatePredicates R draft.predicates
  requireFrontierWithReads draft
  let parts := draft.sorted
  refuseRevisions parts.activeRuleRevisions
  parts.mutations.forM PlanMutation.validateShape
  parts.predicates.forM (PlanPredicate.validateShape R)
  validatePlanKeys parts
  return parts

/-- A closed plan: parts that came out of closing. -/
structure AtomicPlan (R : Runtime) where
  parts : AtomicPlanParts
  closed : ∃ draft, closeParts R draft = .ok parts

def AtomicPlan.close (draft : AtomicPlanParts) : Except AtomicsError (AtomicPlan R) :=
  match h : closeParts R draft with
  | .ok parts => .ok ⟨parts, draft, h⟩
  | .error e => .error e

/-! ## Encoding -/

/-- `encode_read`; the version follows the projection. -/
def encodeRead (r : ReadWitness) : Except AtomicsError Value := do
  let key ← encodeKeyMap r.key
  let version := r.observedVersion.toList.map fun v => (3, Value.bytes v.1.1)
  return .map ([(1, .bytes r.collectionId.1.1), (2, .map key), (4, .bytes r.projectionHash.1)] ++
    version)

def encodeMutation (m : PlanMutation) : Except AtomicsError Value := do
  let key ← encodeKeyMap m.key
  let value := m.encodedValue.toList.map fun b => (4, Value.bytes b)
  let version := m.ifVersion.toList.map fun v => (5, Value.bytes v.1.1)
  return .map ([(1, .uint m.kind.wireCode.toUInt64), (2, .bytes m.collectionId.1.1),
    (3, .map key)] ++ value ++ version)

def encodePredicateKey : Option CanonicalKey → Except AtomicsError Map
  | some key => do return [(3, .map (← encodeKeyMap key))]
  | none => return []

def encodePredicate (p : PlanPredicate) : Except AtomicsError Value := do
  let collection := p.collectionId.toList.map fun c => (2, Value.bytes c.1.1)
  let key ← encodePredicateKey p.key
  let version := p.version.toList.map fun v => (4, Value.bytes v.1.1)
  let encoded := p.encoded.toList.map fun b => (5, Value.bytes b)
  return .map ([(1, .uint p.kind.wireCode.toUInt64)] ++ collection ++ key ++ version ++ encoded)

/-- `plan_entries`; the keys are the `PLAN_*` constants. -/
def planEntries (parts : AtomicPlanParts) : Except AtomicsError Map := do
  let frontier := parts.readFrontier.toList.map fun f => (5, Value.bytes f.1)
  let reads ← parts.reads.mapM encodeRead
  let predicates ← parts.predicates.mapM encodePredicate
  let mutations ← parts.mutations.mapM encodeMutation
  let revisions := parts.activeRuleRevisions.map fun r => Value.bytes r.1
  return [(1, .uint parts.profile.wireCode.toUInt64), (2, .bytes parts.atomicId.1.1),
      (3, .bytes parts.heapId.1.1), (4, .uint parts.scope.wireCode.toUInt64)] ++ frontier ++
    [(6, .array reads), (7, .array predicates), (8, .array mutations), (9, .array revisions),
      (10, .map (encodeLimits parts.limits))]

def encodeCanonicalPlan {R : Runtime} (plan : AtomicPlan R) : Except AtomicsError Bytes := do
  encodeMap (← planEntries plan.parts)

def DOMAIN_ATOMIC_CONTENT : Bytes :=
  [0x52, 0x45, 0x53, 0x49, 0x44, 0x49, 0x55, 0x55, 0x4d, 0x2d, 0x41, 0x54, 0x4f, 0x4d, 0x49, 0x43,
    0x2d, 0x43, 0x4f, 0x4e, 0x54, 0x45, 0x4e, 0x54, 0x2d, 0x56, 0x31]

def planContentRoot {R : Runtime} (plan : AtomicPlan R) : Except AtomicsError (Arr 32) := do
  return domainHash R DOMAIN_ATOMIC_CONTENT (← encodeCanonicalPlan plan)

/-! ## Decoding -/

def requireU16 : Except AtomicsError UInt16 := do
  let n ← requireU64 map key
  if n.toNat < 2 ^ 16 then return n.toUInt16 else throw (.cbor .unsupported)

def requireArray : Except AtomicsError (List Value) := do
  match ← requireValue map key with
  | .array items => return items
  | _ => throw (.cbor .unsupported)

def optionalCollection : Except AtomicsError (Option CollectionId) := do
  match ← optionalBytes map key with
  | none => return none
  | some b => return some (← CollectionId.fromBytes (← arrOfBytes 16 b))

def optionalKey : Except AtomicsError (Option CanonicalKey) :=
  match field map key with
  | none => return none
  | some v => do return some (← decodeKey v)

def decodeRead (v : Value) : Except AtomicsError ReadWitness := do
  let map ← asMap v
  refuseUnknownKeys map [1, 2, 3, 4]
  return {
    collectionId := ← CollectionId.fromBytes (← requireBstr 16 map 1)
    key := ← decodeKey (← requireValue map 2)
    observedVersion := ← optionalVersion map 3
    projectionHash := ← requireBstr 32 map 4 }

def decodeMutation (v : Value) : Except AtomicsError PlanMutation := do
  let map ← asMap v
  refuseUnknownKeys map [1, 2, 3, 4, 5]
  let kind ← requireCode MutationKind.fromWireCode (.refused .unknownMutationKind) map 1
  return {
    kind
    collectionId := ← CollectionId.fromBytes (← requireBstr 16 map 2)
    key := ← decodeKey (← requireValue map 3)
    encodedValue := ← optionalBytes map 4
    ifVersion := ← optionalVersion map 5 }

def decodePredicate (v : Value) : Except AtomicsError PlanPredicate := do
  let map ← asMap v
  refuseUnknownKeys map [1, 2, 3, 4, 5]
  let kind ← requireCode PredicateKind.fromWireCode (.refused .unsupportedPredicate) map 1
  let key ← optionalKey map 3
  return {
    kind
    collectionId := ← optionalCollection map 2
    key
    version := ← optionalVersion map 4
    encoded := ← optionalBytes map 5 }

def decodeRev : Value → Except AtomicsError (Arr 32)
  | .bytes b => arrOfBytes 32 b
  | _ => throw malformed

/-- `decode_canonical_plan` before it closes the parts. -/
def decodeParts (bytes : Bytes) : Except AtomicsError AtomicPlanParts := do
  let map ← decodeMap bytes
  let parts : AtomicPlanParts := {
    profile := .fromWireCode (← requireU16 map 1)
    atomicId := ← AtomicId.fromBytes (← requireBstr 32 map 2)
    heapId := ← HeapId.fromBytes (← requireBstr 16 map 3)
    scope := ← requireCode CoordinationScope.fromWireCode malformed map 4
    readFrontier := ← optionalBstr32 map 5
    reads := ← (← requireArray map 6).mapM decodeRead
    predicates := ← (← requireArray map 7).mapM decodePredicate
    mutations := ← (← requireArray map 8).mapM decodeMutation
    activeRuleRevisions := ← (← requireArray map 9).mapM decodeRev
    limits := ← decodeLimits (← requireMap map 10) }
  refuseUnknownKeys map [1, 2, 3, 4, 5, 6, 7, 8, 9, 10]
  return parts

def decodeCanonicalPlan (bytes : Bytes) : Except AtomicsError (AtomicPlan R) := do
  AtomicPlan.close R (← decodeParts bytes)

end Residiuum.Atomics
