import Residiuum.Lib.Bytes

/-!
# Authorization of heap sessions

A session starts with a certificate and a proof of its holder, gets a capability, and then sends
requests; the security snapshot of the heap may be replaced at any time.

* `decide`: the decision on a certificate, an operation and a time, against a snapshot.
* **`decide_eq_allow`**: everything a decision to allow has checked.
* **`served_authorized_iff`**: all requests that pass are allowed exactly when those checks hold
  that the gate does not make.
-/

namespace Residiuum.Heap

open ByteLib Option

/-! ## Rights and operations -/

abbrev Rights : Type := UInt64

namespace Rights

def READ : Rights := 0x1
def WRITE : Rights := 0x4
def INDEX_ADMIN : Rights := 0x8
def HEAP_ADMIN : Rights := 0x1000
def DEFINED_MASK : Rights := 0x1ffff

/-- All rights of `other` are in `rights`. -/
def contains (rights other : Rights) : Bool := rights &&& other == other

end Rights

/-- Whether an operation is offered. -/
inductive OperationStatus
  | active
  | reserved
  deriving DecidableEq, Repr

/-- A row of the operation registry. -/
structure GeneratedOp where
  id : ℕ
  status : OperationStatus
  rightsMask : Rights
  deriving DecidableEq, Repr

/-- The rows of `spec/heap/operations-v1.json`. -/
def GENERATED_OPS : List GeneratedOp :=
  [⟨1, .active, 0⟩, ⟨2, .active, 0⟩, ⟨3, .active, 0⟩, ⟨100, .reserved, 0x1000⟩,
    ⟨101, .reserved, 1⟩, ⟨105, .active, 1⟩, ⟨106, .active, 0x1000⟩, ⟨107, .reserved, 0x1000⟩,
    ⟨108, .reserved, 0x1000⟩, ⟨110, .active, 1⟩, ⟨111, .active, 1⟩, ⟨112, .active, 1⟩,
    ⟨113, .reserved, 1⟩, ⟨114, .active, 1⟩, ⟨115, .active, 1⟩, ⟨116, .active, 1⟩,
    ⟨117, .active, 1⟩, ⟨118, .active, 1⟩, ⟨119, .reserved, 1⟩, ⟨120, .active, 4⟩,
    ⟨121, .active, 4⟩, ⟨122, .active, 4⟩, ⟨130, .active, 1⟩, ⟨131, .active, 8⟩,
    ⟨132, .active, 8⟩, ⟨133, .active, 8⟩, ⟨140, .reserved, 0x10⟩, ⟨141, .reserved, 0x20⟩,
    ⟨142, .reserved, 0x40⟩, ⟨143, .reserved, 0x80⟩, ⟨150, .reserved, 0x1000⟩,
    ⟨151, .reserved, 0x100⟩, ⟨152, .reserved, 0x200⟩, ⟨153, .reserved, 0x400⟩,
    ⟨154, .reserved, 0x400⟩, ⟨155, .reserved, 0x800⟩, ⟨156, .reserved, 0x200⟩,
    ⟨160, .reserved, 0x1000⟩, ⟨161, .reserved, 0x1000⟩, ⟨162, .reserved, 0x1000⟩,
    ⟨163, .reserved, 0x2000⟩, ⟨164, .reserved, 0x4000⟩, ⟨165, .reserved, 0x1000⟩,
    ⟨166, .reserved, 0x1000⟩, ⟨167, .reserved, 0x1000⟩, ⟨170, .reserved, 0x8000⟩,
    ⟨171, .reserved, 0x8000⟩, ⟨172, .reserved, 0x1000⟩, ⟨173, .reserved, 0x10000⟩,
    ⟨180, .reserved, 0x1000⟩, ⟨181, .reserved, 1⟩, ⟨190, .reserved, 1⟩, ⟨191, .reserved, 0x1000⟩,
    ⟨192, .reserved, 0x1000⟩, ⟨193, .reserved, 0x1000⟩, ⟨194, .reserved, 4⟩, ⟨195, .reserved, 1⟩,
    ⟨196, .reserved, 2⟩, ⟨200, .reserved, 0⟩]

/-- The row of an operation. -/
def lookup (id : ℕ) : Option GeneratedOp := GENERATED_OPS.find? fun row => row.id = id

/-- States of a heap. -/
inductive HeapAdministrativeState
  | active
  | readOnly
  | suspended
  | retired
  | purging
  | purged
  deriving DecidableEq, Repr

def HeapAdministrativeState.isServing : HeapAdministrativeState → Bool
  | active | readOnly => true
  | _ => false

def admittedOpsForState : HeapAdministrativeState → List ℕ
  | .active =>
    [100, 101, 105, 106, 107, 108, 110, 111, 112, 113, 114, 115, 116, 117, 118, 119, 120, 121, 122,
      130, 131, 132, 133, 140, 141, 142, 143, 150, 151, 152, 153, 154, 155, 156, 160, 161, 163, 165,
      167, 170, 171, 172, 173, 180, 181, 190, 191, 192, 193, 194, 195, 196, 200]
  | .readOnly =>
    [100, 101, 105, 110, 111, 112, 113, 114, 115, 116, 117, 118, 119, 130, 140, 141, 143, 150, 151,
      152, 153, 154, 155, 156, 160, 161, 162, 163, 164, 166, 167, 170, 171, 172, 173, 180, 181, 190,
      195, 196, 200]
  | .suspended =>
    [100, 141, 143, 150, 151, 152, 153, 154, 155, 156, 160, 162, 163, 167, 170, 171, 172, 173, 180]
  | .retired => [100, 141, 143, 150, 151, 152, 153, 154, 155, 164, 167, 170, 171, 180]
  | .purging => [100, 141, 143, 150, 153, 154, 155, 164, 167, 170, 180]
  | .purged => [100, 143, 164, 167, 180]

/-! ## Decisions -/

/-- `HeapUnavailableCause`, as far as decisions return it. -/
inductive HeapUnavailableCause
  | malformedOrBadSignature
  | unknownOperation
  | insufficientRights
  | constraintDenied
  | invalidState
  | staleAuthority
  | notYetValidOrExpired
  | blacklisted
  deriving DecidableEq, Repr

/-- What is blacklisted. -/
inductive BlacklistKind
  | certificateHash
  | holderPublicKeyHash
  deriving DecidableEq, Repr

/-- A blacklisted fingerprint. -/
structure BlacklistEntry where
  kind : BlacklistKind
  generation : ℕ
  fingerprint : Arr 32
  deriving DecidableEq, Repr

/-- The policy of a heap. -/
structure HeapSecuritySnapshot where
  deploymentId : Arr 16
  heapId : Arr 16
  authorityEpoch : ℕ
  authorityGeneration : ℕ
  previousGeneration : Option ℕ
  graceDeadlineUnixS : Option ℕ
  masterPublicKey : Arr 32
  previousMasterPublicKey : Option (Arr 32)
  securityRevision : ℕ
  authorityChainHeadHash : Arr 32
  administrativeState : HeapAdministrativeState
  blacklist : List BlacklistEntry
  policyRightsCeiling : Option Rights
  deriving DecidableEq, Repr

/-- A critical constraint; the kinds that no decision looks at are told apart by their number. -/
inductive Constraint
  | operationAllowlist (ids : List ℕ)
  | maxRequestBytes (max : ℕ)
  | other (kind : ℕ)
  deriving DecidableEq, Repr

/-- A certificate that verified. -/
structure VerifiedCertificate where
  fingerprint : Arr 32
  deploymentId : Arr 16
  heapId : Arr 16
  authorityEpoch : ℕ
  authorityGeneration : ℕ
  certificateId : Arr 16
  holderPublicKey : Arr 32
  rights : Rights
  constraints : List Constraint
  notBefore : ℕ
  expiresAt : ℕ
  issuerMasterKeyId : Arr 32
  deriving DecidableEq, Repr

/-- An operation and its size. -/
structure OperationDescriptor where
  operationId : ℕ
  requestBytes : ℕ
  deriving DecidableEq, Repr

/-- Allowed, or why not. -/
inductive AuthorizationDecision
  | allow
  | deny (cause : HeapUnavailableCause)
  deriving DecidableEq, Repr

section Decide

variable (sha256 : Bytes → Arr 32) (snapshot : HeapSecuritySnapshot)
  (certificate : VerifiedCertificate) (operation : OperationDescriptor) (now : ℕ)

def authorityBindingHolds : Bool :=
  certificate.heapId = snapshot.heapId && certificate.deploymentId = snapshot.deploymentId &&
    certificate.authorityEpoch = snapshot.authorityEpoch

def generationAccepted : Bool :=
  certificate.authorityGeneration = snapshot.authorityGeneration ||
    snapshot.previousGeneration = some certificate.authorityGeneration &&
      snapshot.graceDeadlineUnixS.any fun deadline => now ≤ deadline

def certificateBlacklisted : Bool :=
  snapshot.blacklist.any fun entry =>
    entry.generation = certificate.authorityGeneration &&
      match entry.kind with
      | .certificateHash => entry.fingerprint = certificate.fingerprint
      | .holderPublicKeyHash => entry.fingerprint = sha256 certificate.holderPublicKey.1

/-- The master key of the certificate's generation. -/
def expectedMaster : Option (Arr 32) :=
  if certificate.authorityGeneration = snapshot.authorityGeneration then
    some snapshot.masterPublicKey
  else snapshot.previousMasterPublicKey

/-- The rights of the certificate under the ceiling of the access policy. -/
def effectiveRights : Rights :=
  match snapshot.policyRightsCeiling with
  | some ceiling => certificate.rights &&& ceiling
  | none => certificate.rights

def requiredRights (id : ℕ) : Except HeapUnavailableCause Rights :=
  match lookup id with
  | none => .error .unknownOperation
  | some row =>
    if row.rightsMask &&& ~~~Rights.DEFINED_MASK ≠ 0 then .error .malformedOrBadSignature
    else .ok row.rightsMask

def allowsOperation (constraints : List Constraint) (op : ℕ) : Bool :=
  constraints.all fun
    | .operationAllowlist ids => ids.contains op
    | _ => true

/-- The size is within every `MaxRequestBytes`. -/
def allowsRequestBytes (constraints : List Constraint) (requestBytes : ℕ) : Bool :=
  constraints.all fun
    | .maxRequestBytes max => requestBytes ≤ max
    | _ => true

/-- The operations of the process, which need no certificate. -/
def publicOps : List ℕ := [1, 2, 3]

def decideInner : Except HeapUnavailableCause Unit :=
  if (lookup operation.operationId).map GeneratedOp.status ≠ some .active then
    .error .unknownOperation
  else if operation.operationId ∈ publicOps then .ok ()
  else if ¬authorityBindingHolds snapshot certificate then .error .staleAuthority
  else if ¬(certificate.notBefore ≤ now ∧ now < certificate.expiresAt) then
    .error .notYetValidOrExpired
  else if ¬generationAccepted snapshot certificate now then .error .staleAuthority
  else if (expectedMaster snapshot certificate).map (fun key => sha256 key.1) ≠
      some certificate.issuerMasterKeyId then .error .staleAuthority
  else if certificateBlacklisted sha256 snapshot certificate then .error .blacklisted
  else if snapshot.administrativeState = .purged then .error .invalidState
  else if operation.operationId ∉ admittedOpsForState snapshot.administrativeState then
    .error .invalidState
  else
    match requiredRights operation.operationId with
    | .error cause => .error cause
    | .ok required =>
      if ¬(effectiveRights snapshot certificate).contains required then .error .insufficientRights
      else if ¬allowsOperation certificate.constraints operation.operationId then
        .error .constraintDenied
      else if ¬allowsRequestBytes certificate.constraints operation.requestBytes then
        .error .constraintDenied
      else .ok ()

/-- The decision on a request. -/
def decide : AuthorizationDecision :=
  match decideInner sha256 snapshot certificate operation now with
  | .ok () => .allow
  | .error cause => .deny cause

end Decide

/-- A capability, as far as the gate looks at it; it is bound to the slot of its heap. -/
structure HeapCap where
  deploymentId : Arr 16
  heapId : Arr 16
  authorityEpoch : ℕ
  validatedSecurityRevision : ℕ
  validatedAuthorityChainHeadHash : Arr 32
  effectiveRights : Rights
  effectiveConstraints : List Constraint
  validityDeadlineUnixS : ℕ
  deriving DecidableEq, Repr

def mintCapability (snapshot : HeapSecuritySnapshot) (certificate : VerifiedCertificate)
    (now : ℕ) : Except HeapUnavailableCause HeapCap :=
  if certificate.heapId ≠ snapshot.heapId then .error .staleAuthority
  else
    let deadline :=
      if snapshot.previousGeneration = some certificate.authorityGeneration then
        match snapshot.graceDeadlineUnixS with
        | some grace => min certificate.expiresAt grace
        | none => certificate.expiresAt
      else certificate.expiresAt
    if deadline ≤ now then .error .notYetValidOrExpired
    else
      .ok ⟨certificate.deploymentId, certificate.heapId, certificate.authorityEpoch,
        snapshot.securityRevision, snapshot.authorityChainHeadHash,
        effectiveRights snapshot certificate, certificate.constraints, deadline⟩

def refreshCapability (cap : HeapCap) (snapshot : HeapSecuritySnapshot) : Bool :=
  snapshot.heapId = cap.heapId && snapshot.deploymentId = cap.deploymentId &&
    snapshot.authorityEpoch = cap.authorityEpoch &&
    snapshot.securityRevision = cap.validatedSecurityRevision &&
    snapshot.authorityChainHeadHash = cap.validatedAuthorityChainHeadHash &&
    snapshot.administrativeState.isServing

/-! ## The handshake -/

/-- The message of a client. -/
structure HeapAuth where
  v : ℕ
  msg : String
  heapId : String
  certificateB64u : String
  holderProofB64u : String
  expectedHeapName : Option String

/-- The fields of a request, and all keys of its envelope. -/
structure HeapRpcRequest where
  v : ℕ
  opId : ℕ
  token : Option String
  collection : Option String
  keys : List String

/-- JSON, Base64, identifiers and signatures. -/
structure AuthRuntime where
  sha256 : Bytes → Arr 32
  parseAuth : Bytes → Option HeapAuth
  b64uDecode : String → Option Bytes
  parseHeapId : String → Option (Arr 16)
  inspectCertificate : Bytes → Option VerifiedCertificate
  certificateSigned : Bytes → Arr 32 → Bool
  holderProofHolds : Bytes → VerifiedCertificate → Arr 32 → Arr 32 → Bool
  parseRequest : Bytes → Option HeapRpcRequest

/-- Why a handshake fails. -/
inductive HeapAuthInternalCause
  | malformed
  | badMaterial
  | unknownHeap
  | staleAuthority
  | denied
  | nonceReplayOrExpired
  | nameMismatch
  deriving DecidableEq, Repr

/-- A challenge not yet answered. -/
structure PendingChallenge where
  serverNonce : Arr 32
  deadline : ℕ
  consumed : Bool

/-- A resident heap, with the snapshots its slot has when it is read and read again. -/
structure ResidentHeap where
  snapshot : HeapSecuritySnapshot
  mintSnapshot : HeapSecuritySnapshot
  displayName : Option String

def HEAP_AUTH_MAX_BYTES : ℕ := 32768

variable (A : AuthRuntime)

def verifyCertificate (cose : Bytes) (masterPublicKey : Arr 32) : Option VerifiedCertificate :=
  if A.certificateSigned cose masterPublicKey then
    (A.inspectCertificate cose).filter fun certificate =>
      certificate.issuerMasterKeyId = A.sha256 masterPublicKey.1
  else none

/-- `authenticate_heap_auth`: the certificate and the capability of the session. -/
def authenticateHeapAuth (registry : Arr 16 → Option ResidentHeap) (pending : PendingChallenge)
    (authJsonBytes : Bytes) (tlsExporter : Arr 32) (now wallNow : ℕ) :
    Except HeapAuthInternalCause (VerifiedCertificate × HeapCap) :=
  if HEAP_AUTH_MAX_BYTES < authJsonBytes.length then .error .malformed
  else if pending.consumed || pending.deadline < wallNow then .error .nonceReplayOrExpired
  else
    match A.parseAuth authJsonBytes with
    | none => .error .malformed
    | some auth =>
      if auth.v ≠ 1 ∨ auth.msg ≠ "heap_auth" then .error .malformed
      else
        match A.b64uDecode auth.certificateB64u, A.b64uDecode auth.holderProofB64u,
          A.parseHeapId auth.heapId with
        | some certBytes, some proofBytes, some hintHeap =>
          match registry hintHeap with
          | none => .error .unknownHeap
          | some resident =>
            match verifyCertificate A certBytes resident.snapshot.masterPublicKey with
            | none => .error .badMaterial
            | some verified =>
              if verified.heapId ≠ hintHeap ∨ verified.heapId ≠ resident.snapshot.heapId then
                .error .unknownHeap
              else if verified.deploymentId ≠ resident.snapshot.deploymentId then
                .error .staleAuthority
              -- The probe is a public operation, for which the certificate is not looked at.
              else if decide A.sha256 resident.snapshot verified ⟨1, authJsonBytes.length⟩ now ≠
                  .allow then .error .denied
              else if ¬A.holderProofHolds proofBytes verified pending.serverNonce tlsExporter then
                .error .badMaterial
              else if auth.expectedHeapName.any (resident.displayName ≠ some ·) then
                .error .nameMismatch
              else
                match mintCapability resident.mintSnapshot verified now with
                | .ok cap => .ok (verified, cap)
                | .error _ => .error .denied
        | _, _, _ => .error .malformed

/-! ## Requests -/

def dispatchRights (op : ℕ) : Option Rights :=
  if op ∈ publicOps then some 0
  else if op ∈ [105, 110, 111, 112, 114, 115, 116, 117, 118, 130] then some Rights.READ
  else if op = 106 then some Rights.HEAP_ADMIN
  else if op ∈ [120, 121, 122] then some Rights.WRITE
  else if op ∈ [131, 132, 133] then some Rights.INDEX_ADMIN
  else none

def allowedKeys : List String :=
  ["v", "id", "operation_id", "op_id", "collection_id", "stream_id", "args"]

/-- The gate of `dispatch_heap_request_with`: the operation that is then carried out. -/
def dispatchGate (cap : HeapCap) (snapshot : HeapSecuritySnapshot) (raw : Bytes) : Option ℕ :=
  match A.parseRequest raw with
  | none => none
  | some req =>
    if req.v ≠ 1 then none
    else if req.token ≠ none ∨ req.collection ≠ none then none
    else if ¬req.keys.all allowedKeys.contains then none
    else if ¬refreshCapability cap snapshot then none
    else if (lookup req.opId).map GeneratedOp.status ≠ some .active then none
    else
      match dispatchRights req.opId with
      | none => none
      | some required =>
        if required ≠ 0 ∧ ¬cap.effectiveRights.contains required then none else some req.opId

/-- What happens to an established session. -/
inductive SessionEvent
  | publish (snapshot : HeapSecuritySnapshot)
  | request (raw : Bytes) (now : ℕ)

/-- A request that passed the gate. -/
structure Served where
  snapshot : HeapSecuritySnapshot
  operation : OperationDescriptor
  now : ℕ
  deriving DecidableEq, Repr

/-- The requests of a run that pass the gate. -/
def served (cap : HeapCap) : HeapSecuritySnapshot → List SessionEvent → List Served
  | _, [] => []
  | _, .publish snapshot :: events => served cap snapshot events
  | snapshot, .request raw now :: events =>
    ((dispatchGate A cap snapshot raw).map fun op => ⟨snapshot, ⟨op, raw.length⟩, now⟩).toList ++
      served cap snapshot events

/-! ## What is checked -/

section Checks

variable {A} {sha256 : Bytes → Arr 32} {snapshot : HeapSecuritySnapshot}
  {certificate : VerifiedCertificate} {operation : OperationDescriptor} {now : ℕ} {cap : HeapCap}
  {op : ℕ} {required : Rights} {raw : Bytes} {mintSnapshot : HeapSecuritySnapshot} {r : Served}

theorem Rights.contains_and (a b r : Rights) :
    (a &&& b).contains r = true ↔ a.contains r = true ∧ b.contains r = true := by
  simp only [contains, beq_iff_eq]
  constructor
  · intro h
    constructor
    · calc a &&& r = a &&& (a &&& b &&& r) := by rw [h]
        _ = a &&& b &&& r := by rw [← UInt64.and_assoc, ← UInt64.and_assoc, UInt64.and_self]
        _ = r := h
    · calc b &&& r = b &&& (b &&& a &&& r) := by rw [UInt64.and_comm b a, h]
        _ = b &&& a &&& r := by rw [← UInt64.and_assoc, ← UInt64.and_assoc, UInt64.and_self]
        _ = r := by rw [UInt64.and_comm b a, h]
  · rintro ⟨ha, hb⟩
    rw [UInt64.and_assoc, hb, ha]

theorem ite_error_eq_ok {ε α : Type*} {c : Prop} [Decidable c] {e : ε} {x : Except ε α} {a : α} :
    (if c then .error e else x) = .ok a ↔ ¬c ∧ x = .ok a := by
  by_cases hc : c <;> simp [hc]

theorem decide_eq_allow (hpublic : operation.operationId ∉ publicOps) :
    decide sha256 snapshot certificate operation now = .allow ↔
      (lookup operation.operationId).map GeneratedOp.status = some .active ∧
      authorityBindingHolds snapshot certificate = true ∧
      (certificate.notBefore ≤ now ∧ now < certificate.expiresAt) ∧
      generationAccepted snapshot certificate now = true ∧
      (expectedMaster snapshot certificate).map (fun key => sha256 key.1) =
        some certificate.issuerMasterKeyId ∧
      certificateBlacklisted sha256 snapshot certificate = false ∧
      snapshot.administrativeState ≠ .purged ∧
      operation.operationId ∈ admittedOpsForState snapshot.administrativeState ∧
      (∃ required, requiredRights operation.operationId = .ok required ∧
        (effectiveRights snapshot certificate).contains required = true) ∧
      allowsOperation certificate.constraints operation.operationId = true ∧
      allowsRequestBytes certificate.constraints operation.requestBytes = true := by
  have hallow : decide sha256 snapshot certificate operation now = .allow ↔
      decideInner sha256 snapshot certificate operation now = .ok () := by
    unfold decide
    split <;> simp_all
  rw [hallow, decideInner, if_neg hpublic]
  simp only [ite_error_eq_ok]
  cases requiredRights operation.operationId with
  | error cause => simp
  | ok required => simp [ite_error_eq_ok, -ite_not]

/-- The table of the dispatcher agrees with the registry; only reads are admitted in the read-only
state. -/
theorem dispatchRights_facts (h : dispatchRights op = some required) (hpublic : op ∉ publicOps) :
    requiredRights op = .ok required ∧ op ∈ admittedOpsForState .active ∧
      (op ∈ admittedOpsForState .readOnly ↔ required = Rights.READ) ∧ required ≠ 0 := by
  have hrow : ∀ rights, ∀ ops : List ℕ, (∀ op ∈ ops, requiredRights op = .ok rights ∧
      op ∈ admittedOpsForState .active ∧
      (op ∈ admittedOpsForState .readOnly ↔ rights = Rights.READ) ∧ rights ≠ 0) → op ∈ ops →
      some rights = some required → requiredRights op = .ok required ∧
        op ∈ admittedOpsForState .active ∧
        (op ∈ admittedOpsForState .readOnly ↔ required = Rights.READ) ∧ required ≠ 0 := by
    rintro rights ops hops hop heq
    cases heq
    exact hops op hop
  unfold dispatchRights at h
  rw [if_neg hpublic] at h
  split_ifs at h with hread hadmin hwrite hindex
  · exact hrow _ _ (by decide) hread h
  · exact hrow _ [106] (by decide) (by simp [hadmin]) h
  · exact hrow _ _ (by decide) hwrite h
  · exact hrow _ _ (by decide) hindex h

theorem dispatchGate_eq_some (h : dispatchGate A cap snapshot raw = some op) :
    refreshCapability cap snapshot = true ∧
      (lookup op).map GeneratedOp.status = some .active ∧
      ∃ required, dispatchRights op = some required ∧
        (required ≠ 0 → cap.effectiveRights.contains required = true) := by
  unfold dispatchGate at h
  cases hreq : A.parseRequest raw with
  | none => simp [hreq] at h
  | some req =>
    cases hrights : dispatchRights req.opId with
    | none => simp [hreq, hrights] at h
    | some required =>
      simp only [hreq, hrights, ite_none_left_eq_some, not_not, not_and] at h
      obtain ⟨-, -, -, hrefresh, hstatus, hrights', hop⟩ := h
      cases hop
      exact ⟨hrefresh, hstatus, required, hrights, hrights'⟩

/-- The checks that the gate does not make. -/
structure Covered (sha256 : Bytes → Arr 32) (certificate : VerifiedCertificate) (r : Served) :
    Prop where
  window : certificate.notBefore ≤ r.now ∧ r.now < certificate.expiresAt
  generation : generationAccepted r.snapshot certificate r.now = true
  issuer : (expectedMaster r.snapshot certificate).map (fun key => sha256 key.1) =
    some certificate.issuerMasterKeyId
  listed : certificateBlacklisted sha256 r.snapshot certificate = false
  /-- A read-only heap is only read. -/
  state : r.snapshot.administrativeState = .readOnly →
    dispatchRights r.operation.operationId = some Rights.READ
  ceiling : ∀ ceiling ∈ r.snapshot.policyRightsCeiling,
    ∀ required ∈ dispatchRights r.operation.operationId, ceiling.contains required = true
  operations : allowsOperation certificate.constraints r.operation.operationId = true
  requestBytes : allowsRequestBytes certificate.constraints r.operation.requestBytes = true

theorem mintCapability_eq_ok (h : mintCapability mintSnapshot certificate now = .ok cap) :
    cap.heapId = certificate.heapId ∧ cap.deploymentId = certificate.deploymentId ∧
      cap.authorityEpoch = certificate.authorityEpoch ∧
      cap.effectiveRights = effectiveRights mintSnapshot certificate := by
  simp only [mintCapability, ite_error_eq_ok, Except.ok.injEq] at h
  obtain ⟨-, -, rfl⟩ := h
  exact ⟨rfl, rfl, rfl, rfl⟩

theorem contains_of_effectiveRights
    (h : (effectiveRights snapshot certificate).contains required = true) :
    certificate.rights.contains required = true := by
  unfold effectiveRights at h
  split at h
  · exact ((Rights.contains_and _ _ _).mp h).1
  · exact h

theorem allow_iff_covered {t : ℕ} (hmint : mintCapability mintSnapshot certificate t = .ok cap)
    (hgate : dispatchGate A cap r.snapshot raw = some r.operation.operationId)
    (hpublic : r.operation.operationId ∉ publicOps) :
    decide sha256 r.snapshot certificate r.operation r.now = .allow ↔
      Covered sha256 certificate r := by
  obtain ⟨hheap, hdeployment, hepoch, hrights⟩ := mintCapability_eq_ok hmint
  obtain ⟨hrefresh, hstatus, required, hdispatch, hcap⟩ := dispatchGate_eq_some hgate
  obtain ⟨hrequired, hactive, hreadOnly, hne⟩ := dispatchRights_facts hdispatch hpublic
  simp only [refreshCapability, Bool.and_eq_true, decide_eq_true_eq, hheap, hdeployment, hepoch]
    at hrefresh
  obtain ⟨⟨⟨⟨⟨hheap', hdeployment'⟩, hepoch'⟩, -⟩, -⟩, hserving⟩ := hrefresh
  have hbinding : authorityBindingHolds r.snapshot certificate = true := by
    simp [authorityBindingHolds, hheap', hdeployment', hepoch']
  have hcert : certificate.rights.contains required = true :=
    contains_of_effectiveRights (hrights ▸ hcap hne)
  -- Only the active and the read-only state are serving.
  have hadmitted : r.operation.operationId ∈ admittedOpsForState r.snapshot.administrativeState ↔
      (r.snapshot.administrativeState = .readOnly → required = Rights.READ) := by
    cases hstate : r.snapshot.administrativeState with
    | active => simp [hactive]
    | readOnly => simp [hreadOnly]
    | _ => simp [hstate, HeapAdministrativeState.isServing] at hserving
  have hpurged : r.snapshot.administrativeState ≠ .purged := by
    intro hstate
    simp [hstate, HeapAdministrativeState.isServing] at hserving
  have hceiling : (effectiveRights r.snapshot certificate).contains required = true ↔
      ∀ ceiling ∈ r.snapshot.policyRightsCeiling, ceiling.contains required = true := by
    unfold effectiveRights
    cases r.snapshot.policyRightsCeiling with
    | none => simp [hcert]
    | some ceiling => simp [Rights.contains_and, hcert]
  rw [decide_eq_allow hpublic]
  constructor
  · rintro ⟨-, -, hwindow, hgeneration, hissuer, hlisted, -, hop, ⟨required', heq, heffective⟩,
      hoperations, hbytes⟩
    cases hrequired.symm.trans heq
    refine ⟨hwindow, hgeneration, hissuer, hlisted, ?_, ?_, hoperations, hbytes⟩
    · intro hstate
      rw [hdispatch, hadmitted.mp hop hstate]
    · intro ceiling hmem required' hmem'
      cases hdispatch.symm.trans hmem'
      exact hceiling.mp heffective ceiling hmem
  · intro h
    refine ⟨hstatus, hbinding, h.window, h.generation, h.issuer, h.listed, hpurged,
      hadmitted.mpr ?_, ⟨required, hrequired, hceiling.mpr ?_⟩, h.operations, h.requestBytes⟩
    · intro hstate
      exact some.inj (hdispatch.symm.trans (h.state hstate))
    · exact fun ceiling hmem => h.ceiling ceiling hmem required hdispatch

theorem gate_of_mem_served {events : List SessionEvent} (h : r ∈ served A cap snapshot events) :
    ∃ raw, dispatchGate A cap r.snapshot raw = some r.operation.operationId := by
  induction events generalizing snapshot with
  | nil => simp [served] at h
  | cons event events ih =>
    cases event with
    | publish next => exact ih h
    | request raw time =>
      rw [served, List.mem_append] at h
      rcases h with h | h
      · simp only [mem_toList, map_eq_some_iff] at h
        obtain ⟨op, hop, rfl⟩ := h
        exact ⟨raw, hop⟩
      · exact ih h

theorem minted_of_authenticate {registry : Arr 16 → Option ResidentHeap}
    {pending : PendingChallenge} {authJsonBytes : Bytes} {tlsExporter : Arr 32} {wallNow : ℕ}
    (h : authenticateHeapAuth A registry pending authJsonBytes tlsExporter now wallNow =
      .ok (certificate, cap)) :
    ∃ mintSnapshot, mintCapability mintSnapshot certificate now = .ok cap := by
  simp only [authenticateHeapAuth, ite_error_eq_ok] at h
  obtain ⟨-, -, h⟩ := h
  split at h
  · cases h
  rw [ite_error_eq_ok] at h
  obtain ⟨-, h⟩ := h
  split at h
  · split at h
    · cases h
    split at h
    · cases h
    rename_i resident _ verified _
    simp only [ite_error_eq_ok] at h
    obtain ⟨-, -, -, -, -, h⟩ := h
    split at h
    · rename_i hmint
      cases h
      exact ⟨_, hmint⟩
    · cases h
  · cases h

/-- **All requests of a session that pass the gate are authorized exactly when they are covered**:
the certificate is in its window, of an accepted generation and issuer, and not blacklisted; the
state of the heap and its access policy admit the operation; and the constraints of the certificate
do. -/
theorem served_authorized_iff (A : AuthRuntime) (registry : Arr 16 → Option ResidentHeap)
    (pending : PendingChallenge) (authJsonBytes : Bytes) (tlsExporter : Arr 32)
    (now wallNow : ℕ) (certificate : VerifiedCertificate) (cap : HeapCap)
    (h : authenticateHeapAuth A registry pending authJsonBytes tlsExporter now wallNow =
      .ok (certificate, cap))
    (snapshot : HeapSecuritySnapshot) (events : List SessionEvent) :
    (∀ r ∈ served A cap snapshot events, r.operation.operationId ∉ publicOps →
        decide A.sha256 r.snapshot certificate r.operation r.now = .allow) ↔
      ∀ r ∈ served A cap snapshot events, r.operation.operationId ∉ publicOps →
        Covered A.sha256 certificate r := by
  obtain ⟨mintSnapshot, hmint⟩ := minted_of_authenticate h
  refine forall₂_congr fun r hr => imp_congr_right fun hpublic => ?_
  obtain ⟨raw, hgate⟩ := gate_of_mem_served hr
  exact allow_iff_covered hmint hgate hpublic

end Checks

/-! ### A session -/

/-- A certificate for reading that is valid from 10 to 100. -/
def sampleCertificate : VerifiedCertificate :=
  ⟨toArr 32 [3], zeros 16, zeros 16, 1, 1, zeros 16, toArr 32 [4], Rights.READ,
    [.maxRequestBytes 4], 10, 100, toArr 32 [5]⟩

def sampleSnapshot (blacklist : List BlacklistEntry) : HeapSecuritySnapshot :=
  ⟨zeros 16, zeros 16, 1, 1, none, none, toArr 32 [5], none, 1, zeros 32, .active, blacklist, none⟩

/-- A request is the number of its operation, filled up. -/
def sampleRuntime : AuthRuntime where
  sha256 := toArr 32
  parseAuth _ := some ⟨1, "heap_auth", "", "", "", none⟩
  b64uDecode _ := some []
  parseHeapId _ := some (zeros 16)
  inspectCertificate _ := some sampleCertificate
  certificateSigned _ _ := true
  holderProofHolds _ _ _ _ := true
  parseRequest raw := raw.head?.map fun op => ⟨1, op.toNat, none, none, ["v", "id", "op_id"]⟩

def sampleHandshake (snapshot : HeapSecuritySnapshot) (now : ℕ) :
    Except HeapAuthInternalCause (VerifiedCertificate × HeapCap) :=
  authenticateHeapAuth sampleRuntime (fun _ => some ⟨snapshot, snapshot, none⟩)
    ⟨zeros 32, 20, false⟩ [] (zeros 32) now now

def sampleCap : HeapCap :=
  ⟨zeros 16, zeros 16, 1, 1, zeros 32, Rights.READ, [.maxRequestBytes 4], 100⟩

theorem sample_request_authorized :
    authenticateHeapAuth sampleRuntime (fun _ => some ⟨sampleSnapshot [], sampleSnapshot [], none⟩)
        ⟨zeros 32, 20, false⟩ [] (zeros 32) 15 15 = .ok (sampleCertificate, sampleCap) ∧
      ∀ r ∈ served sampleRuntime sampleCap (sampleSnapshot [])
          [.request [111] 50, .request [120] 51],
        r.operation.operationId ∉ publicOps →
          decide sampleRuntime.sha256 r.snapshot sampleCertificate r.operation r.now = .allow := by
  have hauth : authenticateHeapAuth sampleRuntime
      (fun _ => some ⟨sampleSnapshot [], sampleSnapshot [], none⟩) ⟨zeros 32, 20, false⟩ []
      (zeros 32) 15 15 = .ok (sampleCertificate, sampleCap) := by
    decide +kernel
  refine ⟨hauth, (served_authorized_iff sampleRuntime _ _ [] (zeros 32) 15 15 sampleCertificate
    sampleCap hauth (sampleSnapshot []) [.request [111] 50, .request [120] 51]).mpr ?_⟩
  have hserved : served sampleRuntime sampleCap (sampleSnapshot [])
      [.request [111] 50, .request [120] 51] = [⟨sampleSnapshot [], ⟨111, 1⟩, 50⟩] := by
    decide +kernel
  rw [hserved]
  intro r hr _
  obtain rfl := List.mem_singleton.mp hr
  constructor <;> simp [sampleSnapshot] <;> decide +kernel

def sampleBlacklist : List BlacklistEntry := [⟨.certificateHash, 1, toArr 32 [3]⟩]

/-- **Requests are served before the certificate is valid, after it has expired, while it is
blacklisted, and beyond its size limit.** -/
theorem revoked_certificate_served :
    sampleHandshake (sampleSnapshot sampleBlacklist) 5 = .ok (sampleCertificate, sampleCap) ∧
      (served sampleRuntime sampleCap (sampleSnapshot sampleBlacklist)
          [.request [111] 6, .request [111] 50, .request [111] 200]).map
        (fun r => decide sampleRuntime.sha256 r.snapshot sampleCertificate r.operation r.now) =
        [.deny .notYetValidOrExpired, .deny .blacklisted, .deny .notYetValidOrExpired] ∧
      (served sampleRuntime sampleCap (sampleSnapshot [])
          [.request [111, 0, 0, 0, 0] 50]).map
        (fun r => decide sampleRuntime.sha256 r.snapshot sampleCertificate r.operation r.now) =
        [.deny .constraintDenied] := by
  decide +kernel

end Residiuum.Heap
