import Residiuum.Store.StoreState

/-!
# Reading a subject

A live entry is resolved to its stored record: the resident bytes, a cached body, the payload of an
Atomic, the frame at its place in memory or in a file. An empty record asks the sidecar layout of
its segment; a record that looks like a chunk manifest is reassembled from the chunks it names.
-/

namespace Residiuum

open ByteLib GroupLib
open Std (TreeMap)

/-! ## The body cache -/

namespace VerifiedBodyCache

def get (c : VerifiedBodyCache) (subject : Bytes) (eventId : Arr 16) : Option Bytes :=
  match c.entries[subject]? with
  | some entry => if entry.eventId = eventId then some entry.body else none
  | none => none

/-- An admission is still the entry of its subject. -/
def isCurrent (entries : TreeMap Bytes CachedVerifiedBody) (admission : Bytes × Arr 16) : Bool :=
  match entries[admission.1]? with
  | some entry => entry.eventId = admission.2
  | none => false

/-- The eviction loop: the oldest admissions go until the bound holds. -/
def evict (maxBytes : ℕ) (entries : TreeMap Bytes CachedVerifiedBody) (residentBytes : ℕ) :
    List (Bytes × Arr 16) → VerifiedBodyCache
  | [] => ⟨entries, [], residentBytes, maxBytes⟩
  | admission :: order =>
    if residentBytes ≤ maxBytes then ⟨entries, admission :: order, residentBytes, maxBytes⟩
    else
      match entries[admission.1]? with
      | some entry =>
        if entry.eventId = admission.2 then
          evict maxBytes (entries.erase admission.1) (residentBytes - entry.charge) order
        else evict maxBytes entries residentBytes order
      | none => evict maxBytes entries residentBytes order

/-- The bytes an entry of the subject holds. -/
def chargeOf (c : VerifiedBodyCache) (subject : Bytes) : ℕ :=
  match c.entries[subject]? with
  | some entry => entry.charge
  | none => 0

def insert (c : VerifiedBodyCache) (subject : Bytes) (eventId : Arr 16) (body : Bytes) :
    VerifiedBodyCache :=
  if c.maxBytes < body.length then c
  else if isCurrent c.entries (subject, eventId) then c
  else
    let entries := c.entries.erase subject
    let residentBytes := c.residentBytes - c.chargeOf subject
    let charge := body.length + subject.length + 64
    if c.maxBytes < charge then { c with entries, residentBytes }
    else
      let entries := entries.insert subject ⟨eventId, body, charge⟩
      let order := c.admissionOrder ++ [(subject, eventId)]
      let order :=
        if entries.size * 2 + 1024 < order.length then order.filter (isCurrent entries) else order
      evict c.maxBytes entries (residentBytes + charge) order

end VerifiedBodyCache

/-- The identity checks of a frame against the entry that names it. A chunk or control frame has
another event id. -/
def bodyMatching (f : Frame) (subject : Bytes) (lv : LiveValue) : Except StoreFault Bytes :=
  match f.content with
  | .item frame =>
    if frame.eventId ≠ lv.eventId then
      .error (.consistencyViolation "locator event_id mismatch at frame offset")
    else if frame.itemId ≠ lv.itemId then
      .error (.consistencyViolation "locator item_id mismatch in envelope")
    else if frame.subject ≠ subject then
      .error (.consistencyViolation "locator subject mismatch in envelope")
    else .ok frame.body
  | _ => .error (.consistencyViolation "locator event_id mismatch at frame offset")

/-- The frame at a place of an active segment, while it is in memory. -/
def Store.tailFrameAt (s : Store) (segmentId frameOffset : ℕ) : Option Frame :=
  match s.actives.find? fun w => w.file.segmentId = segmentId with
  | some w => if w.base ≤ frameOffset then w.file.readAt frameOffset else none
  | none => none

def Store.preadBodyForLocatorMatching (s : Store) (subject : Bytes) (lv : LiveValue) :
    Except StoreFault Bytes :=
  match s.namedFrameAt lv.segmentId lv.frameOffset with
  | some f => bodyMatching f subject lv
  | none => .error (.locatorFault lv.segmentId lv.frameOffset)

def Store.resolveLiveValueBody (s : Store) (subject : Bytes) (lv : LiveValue) :
    Except StoreFault (Bytes × VerifiedBodyCache) :=
  if lv.body ≠ [] then .ok (lv.body, s.verifiedBodyCache)
  else
    match s.verifiedBodyCache.get subject lv.eventId with
    | some body => .ok (body, s.verifiedBodyCache)
    | none =>
      match s.atomicValueRefs[lv.eventId]? with
      | some body => .ok (body, s.verifiedBodyCache.insert subject lv.eventId body)
      | none =>
        match s.tailFrameAt lv.segmentId lv.frameOffset with
        | some f =>
          (bodyMatching f subject lv).map fun body =>
            (body, s.verifiedBodyCache.insert subject lv.eventId body)
        | none =>
          if lv.frameOffset = 0 then .ok ([], s.verifiedBodyCache)
          else
            (s.preadBodyForLocatorMatching subject lv).map fun body =>
              (body, s.verifiedBodyCache.insert subject lv.eventId body)

/-! ## Chunks -/

section Chunks

variable (R : Runtime)

def chunkPieceMatchesLocator (body : Bytes) (piece : ChunkPiece) (loc : ChunkFrameLocator) : Bool :=
  bodyHash R body = loc.verifiedBodyHash ∧ piece.itemId = loc.itemId ∧
    piece.index = loc.chunkIndex ∧ piece.total = loc.chunkTotal ∧
    piece.logicalLen = loc.logicalLen

def segmentIdBytes (segmentId : ℕ) : Arr 16 := toArr 16 (leBytes 8 segmentId)

def resolvedAt (eventId : Arr 16) (piece : ChunkPiece) (segmentId frameOffset : ℕ) :
    ResolvedChunk :=
  resolvePiece R eventId piece (segmentIdBytes segmentId) (UInt64.ofNat frameOffset)

/-- `pread_resolved_chunk`: the frame in memory if it matches, the one in the file otherwise. -/
def Store.preadResolvedChunk (s : Store) (eventId : Arr 16) (loc : ChunkFrameLocator) :
    Option ResolvedChunk :=
  let inMemory :=
    match (s.tailFrameAt loc.segmentId loc.frameOffset).map Frame.content with
    | some (.chunk id piece) =>
      if id = eventId ∧ chunkPieceMatchesLocator R (encodeChunkBody piece) piece loc then
        some (resolvedAt R eventId piece loc.segmentId loc.frameOffset)
      else none
    | _ => none
  match inMemory with
  | some chunk => some chunk
  | none =>
    match s.preadBodyForLocator loc.segmentId loc.frameOffset with
    | .error _ => none
    | .ok body =>
      match decodeChunkBody body with
      | none => none
      | some piece =>
        if chunkPieceMatchesLocator R body piece loc then
          some (resolvedAt R eventId piece loc.segmentId loc.frameOffset)
        else none

def expectedChunk (expected : List (Arr 16)) (segmentId : ℕ) (l : Located) : Option ResolvedChunk :=
  match l.frame.content with
  | .chunk id piece =>
    if id ∈ expected then some (resolvedAt R id piece segmentId l.offset) else none
  | .item _ | .control _ => none

/-- The chunks whose event id and body were not seen before. -/
def dedupChunks (seen : List (Arr 16 × Arr 32)) : List ResolvedChunk → List ResolvedChunk
  | [] => []
  | r :: rs =>
    if (r.frameEventId, r.verifiedBodyHash) ∈ seen then dedupChunks seen rs
    else r :: dedupChunks ((r.frameEventId, r.verifiedBodyHash) :: seen) rs

def Store.scanResolvedChunks (s : Store) (expected : List (Arr 16)) : List ResolvedChunk :=
  dedupChunks [] ((s.sealed ++ s.pending ++ s.actives.map ActiveWriter.file).flatMap fun file =>
    file.verified.filterMap (expectedChunk R expected file.segmentId))

/-- `resolve_manifest_chunks`. The source visits the expected ids in the order of a hash set;
reassembly does not depend on it. -/
def Store.resolveManifestChunks (s : Store) (manifest : ChunkManifest) : List ResolvedChunk :=
  let expected := (manifest.chunks.map ChunkSlot.chunkEventId).dedup
  let located := expected.flatMap fun id =>
    ((s.chunkLocators[id]?).getD []).filterMap (s.preadResolvedChunk R id)
  if expected.all (s.chunkLocators.contains ·) ∧
      expected.all (located.map ResolvedChunk.frameEventId).contains then located
  else s.scanResolvedChunks R expected

end Chunks

section Get

variable (R : Runtime)

def Store.tryGetViaChimera (s : Store) (subject : Bytes) (segmentId : ℕ) : Option Bytes :=
  (s.layouts[segmentId]?).bind fun layout => layout[subject]?

/-- What `get_payload_bytes` makes of the stored record of a live entry. -/
def Store.readRecord (s : Store) (subject : Bytes) (lv : LiveValue) (body : Bytes) :
    Except StoreFault PayloadResult :=
  if body = [] then .ok (.complete ((s.tryGetViaChimera subject lv.segmentId).getD body))
  else if !isChunkManifest body then .ok (.complete body)
  else
    match decodeChunkManifest body with
    | none => .error (.store (.corruptMeta "invalid chunk manifest"))
    | some manifest =>
      .ok (reassembleWithManifest R lv.itemId manifest (s.resolveManifestChunks R manifest))

/-- `get_payload_bytes`, with the store it leaves: a read may admit a body to the cache. -/
def Store.getPayloadBytes (s : Store) (subject : Bytes) :
    Store × Except StoreFault (Option PayloadResult) :=
  match s.index[subject]? with
  | some (.live lv) =>
    match s.resolveLiveValueBody subject lv with
    | .error e => (s, .error e)
    | .ok (body, cache) =>
      ({ s with verifiedBodyCache := cache }, some <$> s.readRecord R subject lv body)
  | _ => (s, .ok none)

/-- `get`: a complete payload or nothing; any other result is an error. -/
def Store.get (s : Store) (subject : Bytes) : Store × Except StoreFault (Option Bytes) :=
  let (s, result) := s.getPayloadBytes R subject
  (s, result >>= fun
    | none => .ok none
    | some (.complete body) => .ok (some body)
    | some (.conflicting _) => .error .payloadConflict
    | some _ => .error .payloadPartial)

end Get

end Residiuum
