import Residiuum.Format.Chunks

/-!
# Chunked payloads

A large value is stored as payload-chunk frames and a manifest that names them. Writing splits the
payload and builds the manifest; reading reassembles the chunks the manifest names.

* `encodeChunkManifest`, `decodeChunkManifest`: the stored manifest;
  **`decodeChunkManifest_eq_some`**: the decoder accepts exactly the encodings of manifests whose
  slot count fits the count field.
-/

namespace Residiuum

open Bool ByteLib GroupLib List UInt32
open Std (TreeMap)

/-! ## Manifests -/

/-- One slot of a manifest: the event id of a chunk frame and the length of its piece. -/
structure ChunkSlot where
  chunkEventId : Arr 16
  logicalLen : UInt64
  deriving DecidableEq, Repr

/-- The slots and the hash of a payload. -/
structure ChunkManifest where
  /-- BLAKE3-256 of the whole payload. -/
  contentHash : Arr 32
  chunks : List ChunkSlot
  logicalTotalLen : UInt64
  deriving DecidableEq, Repr

/-- `b"RCHM0001"`. -/
def CHUNK_MANIFEST_MAGIC : Bytes := [0x52, 0x43, 0x48, 0x4d, 0x30, 0x30, 0x30, 0x31]

def isChunkManifest (body : Bytes) : Bool :=
  8 + 32 + 4 + 8 ≤ body.length && CHUNK_MANIFEST_MAGIC.isPrefixOf body

def encodeSlot (slot : ChunkSlot) : Bytes :=
  slot.chunkEventId.1 ++ leBytes 8 slot.logicalLen.toNat

def encodeChunkManifest (manifest : ChunkManifest) : Bytes :=
  [CHUNK_MANIFEST_MAGIC, manifest.contentHash.1,
    leBytes 4 (UInt32.ofNat manifest.chunks.length).toNat,
    leBytes 8 manifest.logicalTotalLen.toNat].flatten ++ manifest.chunks.flatMap encodeSlot

/-- One round of the slot loop, at `cursor`. -/
def decodeSlot (body : Bytes) (cursor : ℕ) : ChunkSlot :=
  ⟨toArr 16 (slice body cursor (cursor + 16)),
    UInt64.ofNat (ofLe (slice body (cursor + 16) (cursor + 24)))⟩

/-- `total` rounds of the slot loop from `cursor` on, with the last cursor. -/
def decodeSlots (body : Bytes) : ℕ → ℕ → Option (List ChunkSlot × ℕ)
  | 0, cursor => some ([], cursor)
  | total + 1, cursor =>
    if body.length < cursor + 24 then none
    else (decodeSlots body total (cursor + 24)).map fun r => (decodeSlot body cursor :: r.1, r.2)

def decodeChunkManifest (body : Bytes) : Option ChunkManifest :=
  if !isChunkManifest body then none
  else
    let contentHash := toArr 32 (slice body 8 40)
    let total := (UInt32.ofNat (ofLe (slice body 40 44))).toNat
    let logicalTotalLen := UInt64.ofNat (ofLe (slice body 44 52))
    -- a `u32` count times the slot size fits `usize`, so `checked_mul` does not fail
    if total * 24 ≠ body.length - 52 then none
    else
      match decodeSlots body total 52 with
      | none => none
      | some (chunks, cursor) =>
        if cursor ≠ body.length then none else some ⟨contentHash, chunks, logicalTotalLen⟩

/-- Why the store fails. -/
inductive StoreError
  | corruptMeta (message : String)
  | payloadTooLarge
  deriving DecidableEq, Repr

def splitIntoPieces (itemId : Arr 16) (payload : Bytes) (chunkSize : ℕ) :
    Except StoreError (List ChunkPiece) :=
  if chunkSize = 0 then .error (.corruptMeta "chunk_size must be non-zero")
  else if payload = [] then .ok []
  else
    let total := (payload.length + chunkSize - 1) / chunkSize
    if 2 ^ 32 - 1 < total then .error .payloadTooLarge
    else
      .ok ((chunks chunkSize payload).zipIdx.map fun chunk =>
        { itemId := itemId
          index := UInt32.ofNat chunk.2
          total := UInt32.ofNat total
          logicalLen := UInt64.ofNat chunk.1.length
          body := chunk.1 })

variable (R : Runtime)

def manifestFromPieces (pieces : List ChunkPiece) (chunkEventIds : List (Arr 16))
    (fullPayload : Bytes) : Except StoreError ChunkManifest :=
  if pieces.length ≠ chunkEventIds.length then .error (.corruptMeta "chunk id count mismatch")
  else
    .ok
      { contentHash := bodyHash R fullPayload
        chunks := (pieces.zip chunkEventIds).map fun e => ⟨e.2, e.1.logicalLen⟩
        logicalTotalLen := UInt64.ofNat fullPayload.length }

/-! ## The read path -/

/-- A chunk and its event. -/
structure ResolvedChunk where
  frameEventId : Arr 16
  segmentId : Arr 16
  frameOffset : UInt64
  piece : ChunkPiece
  verifiedBodyHash : Arr 32
  deriving DecidableEq, Repr

def resolvePiece (frameEventId : Arr 16) (piece : ChunkPiece) (segmentId : Arr 16)
    (frameOffset : UInt64) : ResolvedChunk :=
  ⟨frameEventId, segmentId, frameOffset, piece, bodyHash R piece.body⟩

/-- What is read of a payload. -/
inductive PayloadResult
  | complete (body : Bytes)
  /-- `Partial` in the source. -/
  | partialBody (extents : List LogicalExtent) (missing : List UInt32) (contentHash : Arr 32)
      (presentBodies : List (UInt32 × Bytes))
  | unavailable (contentHash : Arr 32) (totalChunks : UInt32)
  | conflicting (index : UInt32)
  deriving DecidableEq, Repr

/-- The membership map of a manifest; a repeated event id is a conflict. -/
def expectedSlots (slots : List ChunkSlot) :
    Except PayloadResult (TreeMap (Arr 16) (UInt32 × UInt64)) :=
  slots.zipIdx.foldlM (insertNew (fun e => e.1.chunkEventId)
    (fun e => (UInt32.ofNat e.2, e.1.logicalLen)) fun e => .conflicting (UInt32.ofNat e.2)) ∅

/-- The candidates of every expected event id. -/
def groupByEvent (expected : TreeMap (Arr 16) (UInt32 × UInt64)) (resolved : List ResolvedChunk) :
    TreeMap (Arr 16) (List ResolvedChunk) :=
  resolved.foldl (fun byEvent r =>
    if expected.contains r.frameEventId then pushEntry byEvent r.frameEventId r else byEvent) ∅

/-- The slot membership check of one candidate. -/
def slotAccepts (expectedItemId : Arr 16) (total idx : UInt32) (slot : ChunkSlot)
    (r : ResolvedChunk) : Bool :=
  r.frameEventId = slot.chunkEventId ∧ r.piece.itemId = expectedItemId ∧ r.piece.index = idx ∧
    r.piece.total = total ∧ r.piece.logicalLen = slot.logicalLen ∧
    r.piece.logicalLen = UInt64.ofNat r.piece.body.length

/-- What the slot loop takes for one slot: nothing when no candidate is there, the first one when
all pass the checks. A group is never empty, so `group[0]` exists. -/
def slotPiece (expectedItemId : Arr 16) (total : UInt32)
    (byEvent : TreeMap (Arr 16) (List ResolvedChunk)) (entry : ChunkSlot × ℕ) :
    Except PayloadResult (Option ChunkPiece) :=
  let idx := UInt32.ofNat entry.2
  match byEvent[entry.1.chunkEventId]? with
  | some (first :: rest) =>
    if (first :: rest).any fun r => !slotAccepts expectedItemId total idx entry.1 r then
      .error (.conflicting idx)
    else if (first :: rest).any fun r =>
        r.verifiedBodyHash ≠ first.verifiedBodyHash ∨ r.piece.body ≠ first.piece.body then
      .error (.conflicting idx)
    else .ok (some first.piece)
  | _ => .ok none

/-- The state of the slot loop. -/
structure Selection where
  selected : List ChunkPiece
  missing : List UInt32

/-- Note what was taken for a slot. -/
def Selection.take (s : Selection) (entry : ChunkSlot × ℕ) : Option ChunkPiece → Selection
  | some p => { s with selected := s.selected ++ [p] }
  | none => { s with missing := s.missing ++ [UInt32.ofNat entry.2] }

def selectPieces (expectedItemId : Arr 16) (total : UInt32)
    (byEvent : TreeMap (Arr 16) (List ResolvedChunk)) (slots : List ChunkSlot) :
    Except PayloadResult Selection :=
  slots.zipIdx.foldlM
    (fun s entry => s.take entry <$> slotPiece expectedItemId total byEvent entry) ⟨[], []⟩

/-- What the selected pieces give. -/
def finishSelection (contentHash : Arr 32) (total : UInt32)
    (selected : List ChunkPiece) : PayloadResult :=
  if selected = [] then .unavailable contentHash total
  else
    match reassembleChunks R selected (some contentHash) with
    | .complete body _ => .complete body
    | .partialMap extents missing =>
      .partialBody extents missing contentHash (selected.map fun p => (p.index, p.body))
    | .unavailable => .unavailable contentHash total
    | .conflicting index _ => .conflicting index

def reassembleWithManifest (expectedItemId : Arr 16) (manifest : ChunkManifest)
    (resolved : List ResolvedChunk) : PayloadResult :=
  let total := UInt32.ofNat manifest.chunks.length
  if total = 0 then .unavailable manifest.contentHash 0
  else
    match expectedSlots manifest.chunks with
    | .error result => result
    | .ok expected =>
      match selectPieces expectedItemId total (groupByEvent expected resolved) manifest.chunks with
      | .error result => result
      | .ok s => finishSelection R manifest.contentHash total s.selected

/-! ## Stored manifests -/

section Codec

variable {body rest : Bytes} {cursor total : ℕ} {slot : ChunkSlot}

theorem length_encodeSlot (slot : ChunkSlot) : (encodeSlot slot).length = 24 := by
  rw [encodeSlot, length_append, length_leBytes, slot.chunkEventId.2]

theorem length_flatMap_encodeSlot (slots : List ChunkSlot) :
    (slots.flatMap encodeSlot).length = 24 * slots.length := by
  induction slots with
  | nil => rfl
  | cons slot slots ih =>
    rw [flatMap_cons, length_append, length_encodeSlot, ih, length_cons]
    omega

theorem encodeSlot_decodeSlot (h : cursor + 24 ≤ body.length) :
    encodeSlot (decodeSlot body cursor) ++ body.drop (cursor + 24) = body.drop cursor := by
  have hid : (slice body cursor (cursor + 16)).length = 16 := by
    rw [length_slice (by omega) (by omega)]
    omega
  have hlen : (slice body (cursor + 16) (cursor + 24)).length = 8 := by
    rw [length_slice (by omega) (by omega)]
    omega
  rw [encodeSlot, decodeSlot, val_toArr hid, leBytes_ofLe_u64 hlen, append_assoc,
    slice_append_drop _ (by omega), slice_append_drop _ (by omega)]

theorem decodeSlot_of_drop (h : body.drop cursor = encodeSlot slot ++ rest) :
    decodeSlot body cursor = slot ∧ body.drop (cursor + 24) = rest := by
  have hid := slot.chunkEventId.2
  have h0 : slice body cursor (cursor + 16) = slot.chunkEventId.1 := by
    rw [slice, h, encodeSlot, append_assoc, Nat.add_sub_cancel_left]
    exact take_left' hid
  have h1 : slice body (cursor + 16) (cursor + 24) = leBytes 8 slot.logicalLen.toNat := by
    rw [slice, ← drop_drop, h, encodeSlot, append_assoc, drop_left' hid]
    exact take_left' (by rw [length_leBytes]; omega)
  constructor
  · rw [decodeSlot, h0, h1, toArr_val, ofLe_leBytes_u64]
  · rw [← drop_drop, h, drop_left' (length_encodeSlot slot)]

theorem decodeSlots_eq_some {slots : List ChunkSlot} {stop : ℕ} :
    decodeSlots body total cursor = some (slots, stop) ↔
      slots.length = total ∧ stop = cursor + 24 * total ∧
        ∃ rest, body.drop cursor = slots.flatMap encodeSlot ++ rest := by
  induction total generalizing cursor slots with
  | zero =>
    rw [decodeSlots, Option.some.injEq, Prod.mk.injEq, length_eq_zero_iff]
    constructor
    · rintro ⟨rfl, rfl⟩
      exact ⟨rfl, rfl, _, rfl⟩
    · rintro ⟨rfl, rfl, -⟩
      exact ⟨rfl, rfl⟩
  | succ total ih =>
    rw [decodeSlots]
    constructor
    · intro h
      split_ifs at h with hlen
      obtain ⟨⟨slots, stop⟩, hrun, heq⟩ := Option.map_eq_some_iff.mp h
      cases heq
      obtain ⟨hcount, rfl, rest, hrest⟩ := ih.mp hrun
      refine ⟨by rw [length_cons, hcount], by omega, rest, ?_⟩
      rw [flatMap_cons, append_assoc, ← hrest, encodeSlot_decodeSlot (by omega)]
    · rintro ⟨hcount, rfl, rest, hrest⟩
      obtain ⟨slot, slots, rfl⟩ := exists_cons_of_length_eq_add_one hcount
      rw [flatMap_cons, append_assoc] at hrest
      have hlen : ¬body.length < cursor + 24 := by
        have := congrArg List.length hrest
        rw [length_drop, length_append, length_encodeSlot] at this
        omega
      obtain ⟨hslot, hdrop⟩ := decodeSlot_of_drop hrest
      have hstop : cursor + 24 * (total + 1) = cursor + 24 + 24 * total := by omega
      rw [if_neg hlen, ih.mpr ⟨Nat.succ.inj hcount, hstop, rest, hdrop⟩, hslot, Option.map_some]

def manifestHeader (contentHash : Arr 32) (total : UInt32) (logicalTotalLen : UInt64) : Bytes :=
  [CHUNK_MANIFEST_MAGIC, contentHash.1, leBytes 4 total.toNat,
    leBytes 8 logicalTotalLen.toNat].flatten

theorem length_manifestHeader (contentHash : Arr 32) (total : UInt32) (logicalTotalLen : UInt64) :
    (manifestHeader contentHash total logicalTotalLen).length = 52 := by
  simp [manifestHeader, CHUNK_MANIFEST_MAGIC, contentHash.2]

theorem encodeChunkManifest_eq (manifest : ChunkManifest) :
    encodeChunkManifest manifest = manifestHeader manifest.contentHash
      (ofNat manifest.chunks.length) manifest.logicalTotalLen ++
        manifest.chunks.flatMap encodeSlot := rfl

theorem manifestHeader_of_isChunkManifest (h : isChunkManifest body = true) :
    manifestHeader (toArr 32 (slice body 8 40)) (ofNat (ofLe (slice body 40 44)))
      (UInt64.ofNat (ofLe (slice body 44 52))) ++ body.drop 52 = body := by
  rw [isChunkManifest, and_eq_true, decide_eq_true_eq, isPrefixOf_iff_prefix] at h
  obtain ⟨hlen, rest, hrest⟩ := h
  have hmagic : slice body 0 8 = CHUNK_MANIFEST_MAGIC := by
    rw [← hrest]
    exact slice_left _ _ rfl
  have h0 : (slice body 8 40).length = 32 := length_slice (by omega) (by omega)
  have h1 : (slice body 40 44).length = 4 := length_slice (by omega) (by omega)
  have h2 : (slice body 44 52).length = 8 := length_slice (by omega) (by omega)
  simp only [manifestHeader, flatten_cons, flatten_nil, append_nil,
    append_assoc]
  rw [val_toArr h0, leBytes_ofLe_u32 h1, leBytes_ofLe_u64 h2, ← hmagic,
    slice_append_drop _ (by omega), slice_append_drop _ (by omega),
    slice_append_drop _ (by omega), slice_append_drop _ (by omega), drop_zero]

theorem manifestHeader_read (contentHash : Arr 32) (count : UInt32) (len : UInt64)
    (h : body = manifestHeader contentHash count len ++ rest) :
    isChunkManifest body = true ∧ toArr 32 (slice body 8 40) = contentHash ∧
      UInt32.ofNat (ofLe (slice body 40 44)) = count ∧
      UInt64.ofNat (ofLe (slice body 44 52)) = len ∧ body.drop 52 = rest := by
  have hhash := contentHash.2
  have hlen := length_manifestHeader contentHash count len
  subst h
  have h0 : slice (manifestHeader contentHash count len) 8 40 = contentHash.1 :=
    slice_field _ (i := 1) (by simp) rfl (by simp [hhash])
  have h1 : slice (manifestHeader contentHash count len) 40 44 = leBytes 4 count.toNat :=
    slice_field _ (i := 2) (by simp) (by simp [fieldOffset, hhash, CHUNK_MANIFEST_MAGIC]) (by simp)
  have h2 : slice (manifestHeader contentHash count len) 44 52 = leBytes 8 len.toNat :=
    slice_field _ (i := 3) (by simp) (by simp [fieldOffset, hhash, CHUNK_MANIFEST_MAGIC]) (by simp)
  refine ⟨?_, ?_, ?_, ?_, drop_left' hlen⟩
  · rw [isChunkManifest, and_eq_true, decide_eq_true_eq, isPrefixOf_iff_prefix,
      length_append, hlen]
    refine ⟨by omega, ?_⟩
    simp only [manifestHeader, flatten_cons, append_assoc]
    exact prefix_append _ _
  · rw [slice_append_left _ _ _ (by omega), h0, toArr_val]
  · rw [slice_append_left _ _ _ (by omega), h1, ofLe_leBytes_u32]
  · rw [slice_append_left _ _ _ (by omega), h2, ofLe_leBytes_u64]

theorem decodeChunkManifest_eq_some {manifest : ChunkManifest} :
    decodeChunkManifest body = some manifest ↔
      manifest.chunks.length < 2 ^ 32 ∧ encodeChunkManifest manifest = body := by
  constructor
  · intro h
    simp only [decodeChunkManifest] at h
    split_ifs at h with hmanifest hneed
    rw [not_eq_true, not_eq_false'] at hmanifest
    split at h
    · cases h
    next slots cursor hslots =>
      split_ifs at h with hcursor
      cases h
      obtain ⟨hcount, hstop, rest, hrest⟩ := decodeSlots_eq_some.mp hslots
      have hnil : rest = [] := by
        have := congrArg List.length hrest
        rw [length_drop, length_append, length_flatMap_encodeSlot] at this
        rw [← length_eq_zero_iff]
        omega
      refine ⟨hcount ▸ toNat_lt _, ?_⟩
      rw [encodeChunkManifest_eq, hcount, UInt32.ofNat_toNat]
      rw [hnil, append_nil] at hrest
      rw [← hrest]
      exact manifestHeader_of_isChunkManifest hmanifest
  · rintro ⟨hcount, henc⟩
    obtain ⟨hmanifest, hhash, htotal, hlen, hdrop⟩ :=
      manifestHeader_read _ _ _ (henc.symm.trans (encodeChunkManifest_eq manifest))
    have hn : (UInt32.ofNat manifest.chunks.length).toNat = manifest.chunks.length :=
      toNat_ofNat_of_lt' hcount
    have hsize : body.length = 52 + 24 * manifest.chunks.length := by
      rw [← henc, encodeChunkManifest_eq, length_append, length_manifestHeader,
        length_flatMap_encodeSlot]
    have hslots := decodeSlots_eq_some.mpr
      ⟨rfl, rfl, [], hdrop.trans (append_nil _).symm⟩
    simp only [decodeChunkManifest, hmanifest, hhash, htotal, hlen, hn, hslots]
    rw [if_neg (by decide), if_neg (by omega), if_neg (by omega)]

end Codec

end Residiuum
