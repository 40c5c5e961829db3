import Residiuum.Atomics.Evidence

/-!
# The staging heap

The in-memory kernel of `staging.rs`: one coordinator stream, the ordinary primary map, and the lane
of staged atomics, each under a placement that is frozen at its prepare.

Every mutator returns its result together with the heap it leaves behind, so that what a refusal
leaves behind is part of the model. The coordinator's counter is a `u64`; `self.next += 1` is the
wrapping addition of release builds, and `CoordinatorStream.overflows` says when it wraps (where a
debug build panics instead).

* `checkBeginPrepare`, …, `checkSealMemberBoundary`: the read-only checks.
-/

namespace Residiuum.Atomics

open ByteLib DistinctLib Std

/-! ## The coordinator stream -/

/-- An issued sequence. -/
structure CoordinatorRecord where
  seq : UInt64
  atomicId : AtomicId
  contentRoot : ContentRoot
  deriving DecidableEq

/-- The sequences issued so far. -/
structure CoordinatorStream where
  next : UInt64
  records : List CoordinatorRecord
  deriving DecidableEq

namespace CoordinatorStream

def new : CoordinatorStream := { next := 1, records := [] }

variable (c : CoordinatorStream)

def allocate (atomicId : AtomicId) (contentRoot : ContentRoot) :
    Except AtomicsError (UInt64 × CoordinatorStream) := do
  if c.records.any fun r => r.atomicId = atomicId then throw (.refused .atomicIdConflict)
  else
    let seq := c.next
    return (seq, { next := c.next + 1, records := c.records ++ [⟨seq, atomicId, contentRoot⟩] })

/-- The next increment of the counter leaves the `u64` range. -/
def overflows : Prop := c.next.toNat + 1 = 2 ^ 64

instance decidableOverflows (c : CoordinatorStream) : Decidable c.overflows :=
  inferInstanceAs (Decidable (c.next.toNat + 1 = 2 ^ 64))

def saturatingSucc (n : UInt64) : UInt64 := if n.toNat + 1 = 2 ^ 64 then n else n + 1

/-- `install`: a previously issued sequence. -/
def install (seq : UInt64) (atomicId : AtomicId)
    (contentRoot : ContentRoot) : Except AtomicsError CoordinatorStream := do
  if seq = 0 then throw (.refused .malformedInput)
  else match c.records.find? fun r => r.atomicId = atomicId with
    | some existing =>
      if existing.seq ≠ seq ∨ existing.contentRoot ≠ contentRoot then
        throw (.refused .atomicIdConflict)
      else return c
    | none =>
      if c.records.any fun r => r.seq = seq then throw (.refused .atomicIdConflict)
      else return {
        next := max c.next (saturatingSucc seq)
        records := sortBy (compareOn CoordinatorRecord.seq)
          (c.records ++ [⟨seq, atomicId, contentRoot⟩]) }

end CoordinatorStream

/-- Where a member lies. -/
structure PlacementEntry where
  shard : UInt32
  member : AtomicMember
  memberHash : Arr 32
  deriving DecidableEq

/-- Member placement across writer shards. -/
structure PlacementManifest where
  heapId : HeapId
  atomicId : AtomicId
  contentRoot : ContentRoot
  memberManifestRoot : Arr 32
  entries : List PlacementEntry
  deriving DecidableEq

variable (R : Runtime)

namespace PlacementManifest

/-- The loop of `assign`; `seen` has the targets and ordinals of the members before. -/
def placeMembers (R : Runtime) (atomicId : AtomicId) (shardCount : UInt32) :
    List ((CollectionId × Bytes) × UInt32) → List AtomicMember →
      Except AtomicsError (List PlacementEntry)
  | _, [] => return []
  | seen, m :: ms =>
    if m.atomicId ≠ atomicId then throw (.refused .malformedInput)
    else do
      m.validate
      if seen.any fun s => s.1 = m.target ∨ s.2 = m.ordinal then
        throw (.refused .duplicateTarget)
      else do
        let hash ← Atomics.memberHash R m
        let rest ← placeMembers R atomicId shardCount (seen ++ [(m.target, m.ordinal)]) ms
        return ⟨m.ordinal % shardCount, m, hash⟩ :: rest

/-- `assign`: shards by `ordinal % shard_count`. -/
def assign (heapId : HeapId) (atomicId : AtomicId) (contentRoot : ContentRoot)
    (shardCount : UInt32) (members : List AtomicMember) :
    Except AtomicsError PlacementManifest := do
  if shardCount = 0 then throw (.refused .malformedInput)
  else do
    let placed ← placeMembers R atomicId shardCount [] members
    let entries := sortBy (compareOn fun e : PlacementEntry => e.member.ordinal) placed
    if entries.map (fun e => e.member.ordinal.toNat) ≠ List.range entries.length then
      throw (.refused .malformedInput)
    else do
      let memberManifestRoot ← orderedMemberManifestRoot R heapId members
      return { heapId, atomicId, contentRoot, memberManifestRoot, entries }

end PlacementManifest

/-- Ceilings for chunked-member admission. -/
structure ChunkLimits where
  maxChunks : UInt32
  maxChunkBytes : UInt32
  maxAssembledBytes : UInt32
  deriving DecidableEq

namespace ChunkLimits

def hard : ChunkLimits :=
  { maxChunks := 4096, maxChunkBytes := 1024 * 1024, maxAssembledBytes := 8 * 1024 * 1024 }

def isWithin (l other : ChunkLimits) : Bool :=
  l.maxChunks ≤ other.maxChunks && l.maxChunkBytes ≤ other.maxChunkBytes &&
    l.maxAssembledBytes ≤ other.maxAssembledBytes

end ChunkLimits

/-- Chunk-map commitment for one member. -/
structure ChunkPlan where
  total : UInt32
  chunkHashes : List (Arr 32)
  deriving DecidableEq

/-- `validate_within`; the length of the hash list is cast to `u32`. -/
def ChunkPlan.validateWithin (p : ChunkPlan) (limits : ChunkLimits) : Except AtomicsError Unit :=
  if p.total < 2 then throw (.refused .malformedInput)
  else if p.total > limits.maxChunks then throw (.refused .limitExceeded)
  else if UInt32.ofNat p.chunkHashes.length ≠ p.total then throw (.refused .malformedInput)
  else return ()

/-! ## The heap -/

/-- Phases of the prepare. -/
inductive PreparePhase where
  | none
  | prepared
  deriving DecidableEq, Repr

/-- Phases of the members. -/
inductive MemberPhase where
  | absent
  | staged
  | durableInvisible
  deriving DecidableEq, Repr

/-- Phases of the decision. -/
inductive DecisionPhase where
  | none
  | committed
  | notCommitted
  | conflicting
  deriving DecidableEq, Repr

/-- Phases of the publication. -/
inductive PublicationPhase where
  | unpublished
  | published
  deriving DecidableEq, Repr

/-- The phase on each axis. -/
structure AtomicLifecycle where
  prepare : PreparePhase
  members : MemberPhase
  decision : DecisionPhase
  publication : PublicationPhase
  deriving DecidableEq, Repr

/-- Staged member plus the shard that holds it; a missing chunk is `none`. -/
structure StagedMember where
  member : AtomicMember
  payload : Bytes
  shard : UInt32
  chunks : Option (List (Option Bytes))
  payloadComplete : Bool
  deriving DecidableEq

/-- The slot of a staged atomic. -/
structure StagedAtomic where
  seq : UInt64
  manifest : PlacementManifest
  members : List StagedMember
  chunkPlans : TreeMap UInt32 ChunkPlan
  lifecycle : AtomicLifecycle

def StagedAtomic.prepared (seq : UInt64) (manifest : PlacementManifest) : StagedAtomic where
  seq := seq
  manifest := manifest
  members := []
  chunkPlans := ∅
  lifecycle :=
    { prepare := .prepared, members := .absent, decision := .none, publication := .unpublished }

/-- A value of the ordinary map. -/
structure OrdinaryCell where
  version : VersionId
  value : Bytes
  deriving DecidableEq

/-- The order of the ordinary map's keys: collection, then key bytes. -/
def targetOrder : CollectionId × Bytes → CollectionId × Bytes → Ordering :=
  compareLex (compareOn Prod.fst) (compareOn Prod.snd)

/-- One heap: coordinator stream, ordinary primary map, staged lane. -/
structure StagingHeap where
  heapId : HeapId
  shardCount : UInt32
  chunkLimits : ChunkLimits
  coordinator : CoordinatorStream
  ordinary : TreeMap (CollectionId × Bytes) (CanonicalKey × OrdinaryCell) targetOrder
  staged : TreeMap AtomicId StagedAtomic

def slotIsSealed (slot : Option StagedAtomic) : Bool :=
  slot.any fun s => s.lifecycle.members = .durableInvisible

def verifyPayload (member : AtomicMember) (payload : Bytes) : Except AtomicsError Unit :=
  match member.memberKind with
  | .delete =>
    if payload ≠ [] ∨ member.afterContentHash.isSome then throw (.refused .invalidValue)
    else return ()
  | _ =>
    if some (R.blake3 payload) ≠ member.afterContentHash then throw (.refused .invalidValue)
    else return ()

/-- The assembly loop of `maybe_assemble`. The `checked_add` of the lengths gives the same refusal
as the limit. -/
def assembleChunks (limits : ChunkLimits) :
    Bytes → List (Option Bytes) → Except AtomicsError Bytes
  | payload, [] => return payload
  | payload, chunk :: chunks =>
    let part := chunk.getD []
    if payload.length + part.length > limits.maxAssembledBytes.toNat then
      throw (.refused .limitExceeded)
    else assembleChunks limits (payload ++ part) chunks

/-- `maybe_assemble`: the payload, once no chunk is missing. -/
def maybeAssemble (staged : StagedMember) (plan : ChunkPlan) (limits : ChunkLimits) :
    Except AtomicsError StagedMember :=
  match staged.chunks with
  | none => return staged
  | some chunks =>
    if chunks.any Option.isNone then return staged
    else if UInt32.ofNat chunks.length ≠ plan.total then throw (.refused .malformedInput)
    else do
      let payload ← assembleChunks limits [] chunks
      if some (R.blake3 payload) ≠ staged.member.afterContentHash then
        throw (.refused .invalidValue)
      else return { staged with payload := payload, payloadComplete := true }

namespace StagingHeap

def newWithChunkLimits (heapId : HeapId) (shardCount : UInt32) (chunkLimits : ChunkLimits) :
    Except AtomicsError StagingHeap :=
  if shardCount = 0 then throw (.refused .malformedInput)
  else if !chunkLimits.isWithin .hard then throw (.refused .limitExceeded)
  else return {
    heapId, shardCount, chunkLimits
    coordinator := .new
    ordinary := ∅
    staged := ∅ }

def new (heapId : HeapId) (shardCount : UInt32) : Except AtomicsError StagingHeap :=
  newWithChunkLimits heapId shardCount .hard

variable (R : Runtime) (h : StagingHeap)

def inspectStaged (atomicId : AtomicId) : Option (List StagedMember) :=
  h.staged[atomicId]?.map StagedAtomic.members

def lifecycle (atomicId : AtomicId) : Option AtomicLifecycle :=
  h.staged[atomicId]?.map StagedAtomic.lifecycle

/-! ### Checks -/

/-- `.ok_or(MalformedInput)`. -/
def require {α : Type} (x : Option α) : Except AtomicsError α :=
  match x with
  | some a => return a
  | none => throw (.refused .malformedInput)

def checkBeginPrepare (atomicId : AtomicId) (contentRoot : ContentRoot)
    (members : List AtomicMember) : Except AtomicsError PlacementManifest :=
  if h.staged.contains atomicId then throw (.refused .atomicIdConflict)
  else PlacementManifest.assign R h.heapId atomicId contentRoot h.shardCount members

/-- The placement entry of a member, which must be exactly the one the prepare names. -/
def placedEntry (slot : StagedAtomic) (member : AtomicMember) :
    Except AtomicsError PlacementEntry := do
  let entry ← require (slot.manifest.entries.find? fun e => e.member.ordinal = member.ordinal)
  if entry.member ≠ member then throw (.refused .malformedInput)
  else do
    let hash ← memberHash R member
    if entry.memberHash ≠ hash then throw (.refused .malformedInput) else return entry

def checkAppendStaged (member : AtomicMember) (payload : Bytes) :
    Except AtomicsError UInt32 := do
  if slotIsSealed h.staged[member.atomicId]? then throw (.refused .malformedInput)
  else do
    member.validate
    verifyPayload R member payload
    let slot ← require h.staged[member.atomicId]?
    let entry ← placedEntry R slot member
    if slot.members.any fun s => s.member.ordinal = member.ordinal then
      throw (.refused .duplicateTarget)
    else if slot.chunkPlans.contains member.ordinal then throw (.refused .malformedInput)
    else if payload.length > h.chunkLimits.maxAssembledBytes.toNat then
      throw (.refused .limitExceeded)
    else return entry.shard

def checkCommitChunkManifest (atomicId : AtomicId) (ordinal : UInt32) (plan : ChunkPlan) :
    Except AtomicsError Unit := do
  plan.validateWithin h.chunkLimits
  let slot ← require h.staged[atomicId]?
  if slot.lifecycle.members = .durableInvisible then throw (.refused .malformedInput)
  else if ¬ slot.manifest.entries.any fun e => e.member.ordinal = ordinal then
    throw (.refused .malformedInput)
  else if (slot.members.any fun s => s.member.ordinal = ordinal) ∨
      slot.chunkPlans.contains ordinal then
    throw (.refused .duplicateTarget)
  else return ()

/-- What `check_append_chunk` and `append_chunk` both test first: the slot, the chunk map and the
shard a chunk belongs to. -/
def locateChunk (member : AtomicMember) (index : UInt32) (body : Bytes) :
    Except AtomicsError (StagedAtomic × ChunkPlan × UInt32) := do
  if slotIsSealed h.staged[member.atomicId]? then throw (.refused .malformedInput)
  else do
    member.validate
    if member.afterContentHash.isNone then throw (.refused .invalidValue)
    else if body.length > h.chunkLimits.maxChunkBytes.toNat then throw (.refused .limitExceeded)
    else do
      let slot ← require h.staged[member.atomicId]?
      let plan ← require slot.chunkPlans[member.ordinal]?
      if index ≥ plan.total then throw (.refused .malformedInput)
      else if some (R.blake3 body) ≠ plan.chunkHashes[index.toNat]? then
        throw (.refused .invalidValue)
      else do
        let entry ← placedEntry R slot member
        return (slot, plan, entry.shard)

def checkAppendChunk (member : AtomicMember) (index : UInt32) (body : Bytes) :
    Except AtomicsError Unit := do
  let (slot, plan, _) ← locateChunk R h member index body
  match slot.members.find? fun s => s.member.ordinal = member.ordinal with
  | some staged =>
    if staged.member ≠ member then throw (.refused .malformedInput)
    else do
      let chunks ← require staged.chunks
      if chunks[index.toNat]?.any Option.isSome then throw (.refused .duplicateTarget)
      else return ()
  | none =>
    if plan.total > h.chunkLimits.maxChunks then throw (.refused .limitExceeded) else return ()

def sealedMember (slot : StagedAtomic) (entry : PlacementEntry) :
    Except AtomicsError AtomicMember := do
  let staged ← require (slot.members.find? fun s => s.member.ordinal = entry.member.ordinal)
  if staged.member ≠ entry.member then throw (.refused .malformedInput)
  else do
    let hash ← memberHash R staged.member
    if hash ≠ entry.memberHash ∨ ¬ staged.payloadComplete then throw (.refused .malformedInput)
    else do
      verifyPayload R staged.member staged.payload
      return staged.member

def checkSealMemberBoundary (atomicId : AtomicId) : Except AtomicsError Unit := do
  let slot ← require h.staged[atomicId]?
  if slot.lifecycle.prepare ≠ .prepared then throw (.refused .malformedInput)
  else if slot.members.length ≠ slot.manifest.entries.length then
    throw (.refused .malformedInput)
  else do
    let sealed ← slot.manifest.entries.mapM (sealedMember R slot)
    let recomputed ← orderedMemberManifestRoot R slot.manifest.heapId sealed
    if recomputed ≠ slot.manifest.memberManifestRoot then throw (.refused .malformedInput)
    else return ()

/-! ### Mutators -/

def setSlot (atomicId : AtomicId) (slot : StagedAtomic) : StagingHeap :=
  { h with staged := h.staged.insert atomicId slot }

def publishOrdinary (collection : CollectionId) (key : CanonicalKey) (cell : OrdinaryCell) :
    StagingHeap :=
  { h with ordinary := h.ordinary.insert (collection, keyOrderBytes key) (key, cell) }

def beginPrepare (atomicId : AtomicId) (contentRoot : ContentRoot) (members : List AtomicMember) :
    Except AtomicsError (UInt64 × PlacementManifest) × StagingHeap :=
  match h.checkBeginPrepare R atomicId contentRoot members with
  | .error e => (.error e, h)
  | .ok manifest =>
    match h.coordinator.allocate atomicId contentRoot with
    | .error e => (.error e, h)
    | .ok (seq, coordinator) =>
      (.ok (seq, manifest),
        setSlot { h with coordinator } atomicId (.prepared seq manifest))

def installPrepared (seq : UInt64) (atomicId : AtomicId) (contentRoot : ContentRoot)
    (members : List AtomicMember) : Except AtomicsError PlacementManifest × StagingHeap :=
  match h.checkBeginPrepare R atomicId contentRoot members with
  | .error e => (.error e, h)
  | .ok manifest =>
    match h.coordinator.install seq atomicId contentRoot with
    | .error e => (.error e, h)
    | .ok coordinator =>
      (.ok manifest, setSlot { h with coordinator } atomicId (.prepared seq manifest))

def withMembers (slot : StagedAtomic) (members : List StagedMember) : StagedAtomic :=
  { slot with members := members, lifecycle := { slot.lifecycle with members := .staged } }

def appendStaged (member : AtomicMember) (payload : Bytes) :
    Except AtomicsError Unit × StagingHeap :=
  match h.checkAppendStaged R member payload with
  | .error e => (.error e, h)
  | .ok shard =>
    match h.staged[member.atomicId]? with
    | none => (.error (.refused .malformedInput), h)
    | some slot =>
      (.ok (), h.setSlot member.atomicId
        (withMembers slot (slot.members ++ [⟨member, payload, shard, none, true⟩])))

def commitChunkManifest (atomicId : AtomicId) (ordinal : UInt32) (plan : ChunkPlan) :
    Except AtomicsError Unit × StagingHeap :=
  match h.checkCommitChunkManifest atomicId ordinal plan with
  | .error e => (.error e, h)
  | .ok () =>
    match h.staged[atomicId]? with
    | none => (.error (.refused .malformedInput), h)
    | some slot =>
      (.ok (), h.setSlot atomicId { slot with chunkPlans := slot.chunkPlans.insert ordinal plan })

def replaceMember (members : List StagedMember) (ordinal : UInt32) (staged : StagedMember) :
    List StagedMember :=
  members.replaceF fun s => if s.member.ordinal = ordinal then some staged else none

/-- `append_chunk` into a member that is staged already. The chunk is in its place before
`maybe_assemble` runs, so its failure leaves it there. -/
def appendToStaged (atomicId : AtomicId) (slot : StagedAtomic) (plan : ChunkPlan)
    (staged : StagedMember) (member : AtomicMember) (index : UInt32) (body : Bytes) :
    Except AtomicsError Unit × StagingHeap :=
  if staged.member ≠ member then (.error (.refused .malformedInput), h)
  else match staged.chunks with
    | none => (.error (.refused .malformedInput), h)
    | some chunks =>
      if chunks[index.toNat]?.any Option.isSome then (.error (.refused .duplicateTarget), h)
      else
        let filled := { staged with chunks := some (chunks.set index.toNat (some body)) }
        match maybeAssemble R filled plan h.chunkLimits with
        | .error e =>
          (.error e, h.setSlot atomicId
            { slot with members := replaceMember slot.members member.ordinal filled })
        | .ok staged' =>
          (.ok (), h.setSlot atomicId
            (withMembers slot (replaceMember slot.members member.ordinal staged')))

/-- `append_chunk` for a member that is not staged yet. -/
def appendToNew (atomicId : AtomicId) (slot : StagedAtomic) (plan : ChunkPlan) (shard : UInt32)
    (member : AtomicMember) (index : UInt32) (body : Bytes) :
    Except AtomicsError Unit × StagingHeap :=
  if plan.total > h.chunkLimits.maxChunks then (.error (.refused .limitExceeded), h)
  else
    let chunks := (List.replicate plan.total.toNat none).set index.toNat (some body)
    match maybeAssemble R ⟨member, [], shard, some chunks, false⟩ plan h.chunkLimits with
    | .error e => (.error e, h)
    | .ok staged => (.ok (), h.setSlot atomicId (withMembers slot (slot.members ++ [staged])))

/-- `append_chunk`. The tests of `check_append_chunk` are made a second time. -/
def appendChunk (member : AtomicMember) (index : UInt32) (body : Bytes) :
    Except AtomicsError Unit × StagingHeap :=
  match h.checkAppendChunk R member index body with
  | .error e => (.error e, h)
  | .ok () =>
    match h.locateChunk R member index body with
    | .error e => (.error e, h)
    | .ok (slot, plan, shard) =>
      match slot.members.find? fun s => s.member.ordinal = member.ordinal with
      | some staged => h.appendToStaged R member.atomicId slot plan staged member index body
      | none => h.appendToNew R member.atomicId slot plan shard member index body

def sealMemberBoundary (atomicId : AtomicId) : Except AtomicsError Unit × StagingHeap :=
  match h.checkSealMemberBoundary R atomicId with
  | .error e => (.error e, h)
  | .ok () =>
    match h.staged[atomicId]? with
    | none => (.error (.refused .malformedInput), h)
    | some slot =>
      (.ok (), h.setSlot atomicId
        { slot with lifecycle := { slot.lifecycle with members := .durableInvisible } })

def rotateWriterShards (newCount : UInt32) : Except AtomicsError Unit × StagingHeap :=
  if newCount = 0 then (.error (.refused .malformedInput), h)
  else (.ok (), { h with shardCount := newCount })

end StagingHeap

/-- The calls of the staging lane. -/
inductive StagingCall where
  | publishOrdinary (collection : CollectionId) (key : CanonicalKey) (cell : OrdinaryCell)
  | beginPrepare (atomicId : AtomicId) (contentRoot : ContentRoot) (members : List AtomicMember)
  | installPrepared (seq : UInt64) (atomicId : AtomicId) (contentRoot : ContentRoot)
    (members : List AtomicMember)
  | appendStaged (member : AtomicMember) (payload : Bytes)
  | commitChunkManifest (atomicId : AtomicId) (ordinal : UInt32) (plan : ChunkPlan)
  | appendChunk (member : AtomicMember) (index : UInt32) (body : Bytes)
  | sealMemberBoundary (atomicId : AtomicId)
  | rotateWriterShards (newCount : UInt32)

namespace StagingHeap

variable (R : Runtime) (h : StagingHeap)

/-- One call: whether it succeeds, and the heap it leaves. -/
def perform : StagingCall → Except AtomicsError Unit × StagingHeap
  | .publishOrdinary collection key cell => (.ok (), h.publishOrdinary collection key cell)
  | .beginPrepare atomicId contentRoot members =>
    (h.beginPrepare R atomicId contentRoot members).map (fun r => r.map fun _ => ()) id
  | .installPrepared seq atomicId contentRoot members =>
    (h.installPrepared R seq atomicId contentRoot members).map (fun r => r.map fun _ => ()) id
  | .appendStaged member payload => h.appendStaged R member payload
  | .commitChunkManifest atomicId ordinal plan => h.commitChunkManifest atomicId ordinal plan
  | .appendChunk member index body => h.appendChunk R member index body
  | .sealMemberBoundary atomicId => h.sealMemberBoundary R atomicId
  | .rotateWriterShards newCount => h.rotateWriterShards newCount

def step (call : StagingCall) : StagingHeap := (h.perform R call).2

def run (calls : List StagingCall) : StagingHeap := calls.foldl (step R) h

/-- The heaps that runs from a new heap reach. -/
def Reachable : Prop :=
  ∃ heapId shardCount limits h₀ calls,
    newWithChunkLimits heapId shardCount limits = .ok h₀ ∧ h₀.run R calls = h

end StagingHeap

end Residiuum.Atomics
