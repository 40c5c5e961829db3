import Residiuum.Store.SegmentFile

/-!
# The open store: writes and seals

The store appends item and chunk frames to the active segment of the subject's shard, publishes them
in the index and moves full segments through the pending directory to the sealed ones. Event ids
come from a stream `mint` of random ids; the store counts the ids it drew. Envelope lengths depend
on the clock and are an input of every write.

* `Store.rotateActive`, `finalizeSeal`, `sealActive`, `enrich`: automatic rotation with its
  background work, and the explicit seal.
-/

namespace Residiuum

open ByteLib GroupLib
open Std (TreeMap)

/-! ## Policy -/

/-- Memory or durable. -/
inductive DurabilityMode
  | memory
  | buffered
  | durable
  deriving DecidableEq, Repr

/-- The errors of the store's write and read paths. -/
inductive StoreFault
  | store (error : StoreError)
  | subjectTooLong
  | keyExists
  | versionConflict (expected : Arr 16) (observed : Option (Arr 16))
  | operationIdentityConflict
  | adaptiveWriterPoisoned
  | consistencyViolation (message : String)
  /-- `LocatorFault`: a frame was not found where the index says. -/
  | locatorFault (segmentId frameOffset : ℕ)
  | payloadPartial
  | payloadConflict
  deriving DecidableEq, Repr

/-- Admission and layout of payloads. -/
structure LargeValuePolicy where
  maxLogicalPayloadBytes : ℕ
  chunkThresholdBytes : ℕ
  chunkPayloadBytes : ℕ
  maxManifestBytes : ℕ
  maxReassemblyBytes : ℕ
  maxWritePeakMemory : ℕ
  deriving DecidableEq, Repr

def LargeValuePolicy.applicationV1 : LargeValuePolicy where
  maxLogicalPayloadBytes := 16 * 1024 * 1024
  chunkThresholdBytes := 64 * 1024
  chunkPayloadBytes := 16 * 1024
  maxManifestBytes := 8 + 32 + 4 + 8 + 24 * 1024
  maxReassemblyBytes := 16 * 1024 * 1024
  maxWritePeakMemory := 32 * 1024 * 1024

/-- Inline or in chunks. -/
inductive PayloadLayout
  | inline
  | chunked
  deriving DecidableEq, Repr

/-- How a value of a length is stored. -/
def LargeValuePolicy.admit (policy : LargeValuePolicy) (logicalLen : ℕ) :
    Except StoreFault PayloadLayout :=
  if policy.chunkPayloadBytes = 0 ∨ policy.chunkThresholdBytes = 0 then
    .error (.store (.corruptMeta "chunk size/threshold must be non-zero"))
  else if policy.maxLogicalPayloadBytes < logicalLen ∨ policy.maxReassemblyBytes < logicalLen ∨
      policy.maxWritePeakMemory < max (2 * logicalLen) (logicalLen + 64 * 1024) then
    .error (.store .payloadTooLarge)
  else if policy.chunkThresholdBytes < logicalLen then
    let chunkCount := (logicalLen + policy.chunkPayloadBytes - 1) / policy.chunkPayloadBytes
    if chunkCount = 0 ∨ 2 ^ 32 - 1 < chunkCount ∨
        policy.maxManifestBytes < 8 + 32 + 4 + 8 + chunkCount * 24 then
      .error (.store .payloadTooLarge)
    else .ok .chunked
  else .ok .inline

/-- What is fixed while a store is open. -/
structure StoreConfig where
  policy : LargeValuePolicy
  /-- Payload bytes of a chunk frame. -/
  chunkSize : ℕ
  writerShards : ℕ
  verifiedBodyCacheBytes : ℕ
  deriving DecidableEq, Repr

def MAX_SUBJECT_LEN : ℕ := 4096

/-- The limits of an open store on a body. -/
def storeMaxBodyLen : ℕ := SafetyLimits.draftDefaults.maxBodyLen.toNat

def subjectItemId (R : Runtime) (subject : Bytes) : Arr 16 :=
  toArr 16 ((bodyHash R subject).1.take 16)

def subjectWriterShard (R : Runtime) (subject : Bytes) (writerShards : ℕ) : ℕ :=
  if max writerShards 1 = 1 then 0
  else ofLe ((subjectItemId R subject).1.take 8) % max writerShards 1

/-! ## State -/

/-- The writer of an active segment; every frame has reached the file. -/
structure ActiveWriter where
  file : SegmentFile
  /-- `base_offset`: frames from here on are also in memory. -/
  base : ℕ
  /-- Bytes that are synced. -/
  stableLen : ℕ
  itemEvents : ℕ
  deriving DecidableEq, Repr

/-- A cached body. -/
structure CachedVerifiedBody where
  eventId : Arr 16
  body : Bytes
  charge : ℕ
  deriving DecidableEq, Repr

/-- A bounded first-in first-out cache of bodies. -/
structure VerifiedBodyCache where
  entries : TreeMap Bytes CachedVerifiedBody
  admissionOrder : List (Bytes × Arr 16)
  residentBytes : ℕ
  maxBytes : ℕ

/-- A sidecar layout of a sealed segment: subjects and bodies. -/
abbrev ChimeraLayout : Type := TreeMap Bytes Bytes

/-- The state of the store. -/
structure Store where
  actives : List ActiveWriter
  pending : List SegmentFile
  sealed : List SegmentFile
  /-- The last segment id minted. -/
  segmentSeq : ℕ
  /-- Event ids drawn so far. -/
  minted : ℕ
  index : PrimaryIndex
  durableIndex : PrimaryIndex
  chunkLocators : ChunkLocatorMap
  layouts : TreeMap ℕ ChimeraLayout
  verifiedBodyCache : VerifiedBodyCache
  awoWriterPoisoned : Bool
  /-- Durable operations since the last index checkpoint. -/
  derivedOps : ℕ
  /-- Payloads of published Atomic values, by event. -/
  atomicValueRefs : TreeMap (Arr 16) Bytes

def VerifiedBodyCache.new (maxBytes : ℕ) : VerifiedBodyCache := ⟨∅, [], 0, maxBytes⟩

def descriptorFrame : Frame := ⟨EMPTY_ENVELOPE.length, .control DESCRIPTOR_BODY_LEN⟩

/-- The summary that ends a sealed segment. -/
def summaryFrame : Frame := ⟨EMPTY_ENVELOPE.length, .control SUMMARY_BODY_LEN⟩

/-- `start_active_segment` and `persist_active_shard`: the descriptor is written and synced, and
dropped from memory. -/
def ActiveWriter.start (segmentId : ℕ) : ActiveWriter :=
  let file : SegmentFile := ⟨segmentId, [descriptorFrame]⟩
  ⟨file, file.byteLen, file.byteLen, 0⟩

/-- A new store: one active segment for every shard. -/
def Store.create (cfg : StoreConfig) : Store where
  actives := (List.range (max cfg.writerShards 1)).map fun shard => .start (shard + 1)
  pending := []
  sealed := []
  segmentSeq := max cfg.writerShards 1
  minted := 0
  index := ∅
  durableIndex := ∅
  chunkLocators := ∅
  layouts := ∅
  verifiedBodyCache := .new cfg.verifiedBodyCacheBytes
  awoWriterPoisoned := false
  derivedOps := 0
  atomicValueRefs := ∅

/-- The files a read tries, in order. -/
def Store.files (s : Store) : List SegmentFile :=
  s.actives.map ActiveWriter.file ++ s.sealed ++ s.pending

/-! ## Writes -/

/-- What a write returns. -/
structure WriteReceipt where
  segmentId : ℕ
  itemId : Arr 16
  eventId : Arr 16
  eventKind : EventKind
  durability : DurabilityMode
  offset : ℕ
  deriving DecidableEq, Repr

/-- The lengths of the envelopes of a write: of the item event, and of the chunk frames. -/
structure EnvelopeLens where
  item : ℕ
  chunk : ℕ
  deriving DecidableEq, Repr

/-- Append frames and write the tail: they reach the file, are synced in durable mode and leave the
memory. -/
def ActiveWriter.write (w : ActiveWriter) (frames : List Frame) (mode : DurabilityMode) :
    ActiveWriter :=
  let file := w.file.append frames
  { file
    base := file.byteLen
    stableLen := if mode = .durable then file.byteLen else w.stableLen
    itemEvents := w.itemEvents + 1 }

def Store.applyDurableEvent (s : Store) (e : IndexEvent) : Store :=
  let slim := { e with body := slimPutBodyForIndex e.body false }
  { s with index := s.index.applyEvent slim, durableIndex := s.durableIndex.applyEvent slim }

section Writes

variable (R : Runtime) (mint : ℕ → Arr 16) (cfg : StoreConfig)

def Store.itemIdFor (s : Store) (subject : Bytes) : Arr 16 :=
  match s.index[subject]? with
  | some entry => entry.itemId
  | none => subjectItemId R subject

/-- `write_event`: one frame, or only the index in memory mode. -/
def Store.writeEvent (s : Store) (subject : Bytes) (kind : EventKind) (body : Bytes)
    (mode : DurabilityMode) (operation : Option (Arr 16 × Arr 32)) (lens : EnvelopeLens) :
    Except StoreFault (Store × WriteReceipt) :=
  if MAX_SUBJECT_LEN < subject.length then .error .subjectTooLong
  else if storeMaxBodyLen < body.length then .error (.store .payloadTooLarge)
  else
    let shard := subjectWriterShard R subject cfg.writerShards
    match s.actives[shard]? with
    | none => .error (.store (.corruptMeta "active segment"))
    | some w =>
      let segmentId := w.file.segmentId
      let itemId := s.itemIdFor R subject
      let eventId := mint s.minted
      let s := { s with minted := s.minted + 1 }
      if mode = .memory then
        .ok ({ s with index := s.index.applyEvent
                        ⟨subject, kind, body, itemId, eventId, segmentId, 0, 0⟩ },
          ⟨segmentId, itemId, eventId, kind, .memory, 0⟩)
      else
        let offset := w.file.byteLen
        let frame : Frame := ⟨lens.item, .item ⟨eventId, kind, itemId, subject, body, operation⟩⟩
        if ¬frame.Within then .error (.store .payloadTooLarge)
        else
          let s := { s with actives := s.actives.set shard (w.write [frame] mode) }
          let s := s.applyDurableEvent ⟨subject, kind, [], itemId, eventId, segmentId, 0, offset⟩
          .ok ({ s with derivedOps := s.derivedOps + 1 },
            ⟨segmentId, itemId, eventId, kind, mode, offset⟩)

/-- The chunk frames of pieces under their event ids. -/
def chunkFrames (envelopeLen : ℕ) (entries : List (Arr 16 × ChunkPiece)) : List Frame :=
  entries.map fun e => ⟨envelopeLen, .chunk e.1 e.2⟩

/-- `write_chunked_put`: chunk frames and the manifest, appended without a look at the limits. -/
def Store.writeChunkedPut (s : Store) (subject value : Bytes) (mode : DurabilityMode)
    (operation : Option (Arr 16 × Arr 32)) (lens : EnvelopeLens) :
    Except StoreFault (Store × WriteReceipt) :=
  if MAX_SUBJECT_LEN < subject.length then .error .subjectTooLong
  else
    let shard := subjectWriterShard R subject cfg.writerShards
    match s.actives[shard]? with
    | none => .error (.store (.corruptMeta "active segment"))
    | some w =>
      let segmentId := w.file.segmentId
      let itemId := s.itemIdFor R subject
      match splitIntoPieces itemId value cfg.chunkSize with
      | .error e => .error (.store e)
      | .ok pieces =>
        let ids := (List.range pieces.length).map fun i => mint (s.minted + i)
        let eventId := mint (s.minted + pieces.length)
        let s := { s with minted := s.minted + pieces.length + 1 }
        match manifestFromPieces R pieces ids value with
        | .error e => .error (.store e)
        | .ok manifest =>
          let body := encodeChunkManifest manifest
          let chunks := chunkFrames lens.chunk (ids.zip pieces)
          let offset := w.file.byteLen + framesLen chunks
          let frame : Frame :=
            ⟨lens.item, .item ⟨eventId, .put, itemId, subject, body, operation⟩⟩
          let s :=
            { s with
              actives := s.actives.set shard (w.write (chunks ++ [frame]) mode)
              chunkLocators :=
                (locate w.file.frames.length w.file.byteLen chunks).foldl
                  (Located.recordChunk R segmentId) s.chunkLocators }
          let s := s.applyDurableEvent ⟨subject, .put, body, itemId, eventId, segmentId, 0, offset⟩
          .ok ({ s with derivedOps := s.derivedOps + 1 },
            ⟨segmentId, itemId, eventId, .put, mode, offset⟩)

/-- The outcome of a write after the first checks: an error of a write that could have reached the
file poisons the writer. -/
def Store.settle (s : Store) (mode : DurabilityMode) :
    Except StoreFault (Store × WriteReceipt) → Store × Except StoreFault WriteReceipt
  | .ok (s', receipt) => (s', .ok receipt)
  | .error e => (if mode = .memory then s else { s with awoWriterPoisoned := true }, .error e)

/-- `put`, without a write condition. -/
def Store.put (s : Store) (subject value : Bytes) (mode : DurabilityMode)
    (operation : Option (Arr 16 × Arr 32)) (lens : EnvelopeLens) :
    Store × Except StoreFault WriteReceipt :=
  if s.awoWriterPoisoned then (s, .error .adaptiveWriterPoisoned)
  else if min cfg.policy.maxLogicalPayloadBytes storeMaxBodyLen < value.length then
    (s, .error (.store .payloadTooLarge))
  else
    match cfg.policy.admit value.length with
    | .error e => (s, .error e)
    | .ok layout =>
      if mode ≠ .memory ∧ layout = .chunked then
        s.settle mode (s.writeChunkedPut R mint cfg subject value mode operation lens)
      else s.settle mode (s.writeEvent R mint cfg subject .put value mode operation lens)

/-- `delete`, without a write condition. -/
def Store.delete (s : Store) (subject : Bytes) (mode : DurabilityMode)
    (operation : Option (Arr 16 × Arr 32)) (lens : EnvelopeLens) :
    Store × Except StoreFault WriteReceipt :=
  if s.awoWriterPoisoned then (s, .error .adaptiveWriterPoisoned)
  else s.settle mode (s.writeEvent R mint cfg subject .delete [] mode operation lens)

end Writes

/-! ## Seals -/

def Store.startActive (s : Store) (shard : ℕ) : Store :=
  { s with
    actives := s.actives.set shard (.start (s.segmentSeq + 1))
    segmentSeq := s.segmentSeq + 1 }

/-- `rotate_active_async`: the active file becomes pending and a new segment starts. -/
def Store.rotateActive (s : Store) (shard : ℕ) : Store :=
  match s.actives[shard]? with
  | none => s
  | some w => { s.startActive shard with pending := s.pending ++ [w.file] }

/-- `finalize_seal`: the verified start of a pending segment gets its summary and moves to the
sealed ones. -/
def Store.finalizeSeal (s : Store) (segmentId : ℕ) : Store :=
  { s with
    pending := s.pending.filter fun file => file.segmentId ≠ segmentId
    sealed := s.sealed ++
      (s.pending.filter fun file => file.segmentId = segmentId).map
        (SegmentFile.append ·.leading [summaryFrame]) }

def Located.item (l : Located) : Option (ℕ × ItemFrame) :=
  match l.frame.content with
  | .item frame => some (l.offset, frame)
  | _ => none

def SegmentFile.items (file : SegmentFile) : List (ℕ × ItemFrame) :=
  file.verified.filterMap Located.item

/-- One round of the loop over the item frames of a sealed segment. -/
def ChimeraLayout.note (last : ChimeraLayout) (item : ℕ × ItemFrame) : ChimeraLayout :=
  match item.2.kind with
  | .put => last.insert item.2.subject item.2.body
  | .delete => last.erase item.2.subject

/-- The bodies of the last puts of a file that no delete follows. -/
def SegmentFile.lastPuts (file : SegmentFile) : ChimeraLayout :=
  file.items.foldl ChimeraLayout.note ∅

/-- Enrichment of a sealed segment: its sidecar layout is built from its frames. -/
def Store.enrich (s : Store) (segmentId : ℕ) : Store :=
  match s.sealed.find? fun file => file.segmentId = segmentId with
  | none => s
  | some file =>
    if file.lastPuts.isEmpty then s
    else { s with layouts := s.layouts.insert segmentId file.lastPuts }

/-- The frame at a place in the named files of a segment. Segment ids are distinct, so there is at
most one such file. -/
def Store.namedFrameAt (s : Store) (segmentId frameOffset : ℕ) : Option Frame :=
  (s.files.filter fun file => file.segmentId = segmentId).findSome? fun file =>
    file.readAt frameOffset

def FrameContent.body : FrameContent → Option Bytes
  | item frame => some frame.body
  | chunk _ piece => some (encodeChunkBody piece)
  | control _ => none

def Store.preadBodyForLocator (s : Store) (segmentId frameOffset : ℕ) : Except StoreFault Bytes :=
  match (s.namedFrameAt segmentId frameOffset).bind fun f => f.content.body with
  | some body => .ok body
  | none => .error (.locatorFault segmentId frameOffset)

/-- A live subject with its stored record. -/
def Store.livePutPair (s : Store) (e : Bytes × LiveValue) : Except StoreFault (Bytes × Bytes) :=
  (if e.2.body ≠ [] then .ok e.2.body
    else s.preadBodyForLocator e.2.segmentId e.2.frameOffset).map fun body => (e.1, body)

def Store.livePutPairsForSegment (s : Store) (segmentId : ℕ) :
    Except StoreFault (List (Bytes × Bytes)) :=
  (s.index.liveEntries.filter fun e => e.2.segmentId = segmentId ∧ e.2.frameOffset ≠ 0).mapM
    s.livePutPair

/-- `write_chimera_for_sealed`: the sidecar layout of the live values; a failure is ignored. -/
def Store.writeChimeraForSealed (s : Store) (segmentId : ℕ) : Store :=
  match s.livePutPairsForSegment segmentId with
  | .error _ => s
  | .ok pairs =>
    if pairs = [] then s
    else
      { s with
        layouts := s.layouts.insert segmentId
          (pairs.foldl (fun layout pair => layout.insert pair.1 pair.2) ∅) }

/-- The active segment of a shard is sealed at once and a new one starts. -/
def Store.publishSealed (s : Store) (shard : ℕ) (w : ActiveWriter) : Store :=
  { s.startActive shard with sealed := s.sealed ++ [w.file.append [summaryFrame]] }

/-- `seal_active_shard`. The sidecar is written now, or left to `enrich`. -/
def Store.sealActiveShard (sidecar : Bool) (s : Store) (shard : ℕ) : Store :=
  match s.actives[shard]? with
  | none => s
  | some w =>
    if sidecar then (s.publishSealed shard w).writeChimeraForSealed w.file.segmentId
    else s.publishSealed shard w

def Store.waitSealsApplied (s : Store) : Store :=
  (s.pending.map SegmentFile.segmentId).foldl Store.finalizeSeal s

def Store.sealActive (sidecar : Bool) (s : Store) : Store :=
  (List.range s.actives.length).foldl (Store.sealActiveShard sidecar) s.waitSealsApplied

end Residiuum
