import Residiuum.Store.ChunkReassembly
import Residiuum.Store.StoreMedia

/-!
# What a write does

A write that succeeds publishes an event in the visible index alone, or appends chunk frames and an
item frame to the active segment of the subject's shard and publishes the event in both indexes.

* **`writeEvent_eq_ok`**, **`writeChunkedPut_eq_ok`**, **`put_cases`**, **`delete_cases`**: every
  outcome of a write.
-/

namespace Residiuum

open ByteLib Except GroupLib Store
open Std (TreeMap)

def Store.memoryWrite (s : Store) (e : IndexEvent) : Store :=
  { s with index := s.index.applyEvent e, minted := s.minted + 1 }

/-- What a durable write appends: chunk frames and an item frame. -/
structure Appended where
  chunks : List Frame
  envelopeLen : ℕ
  item : ItemFrame
  /-- What of the body the index keeps. -/
  resident : Bytes

def Appended.frames (a : Appended) : List Frame := a.chunks ++ [⟨a.envelopeLen, .item a.item⟩]

/-- The event a write publishes; the index does not learn its writer sequence. -/
def Appended.event (a : Appended) (file : SegmentFile) : IndexEvent :=
  ⟨a.item.subject, a.item.kind, a.resident, a.item.itemId, a.item.eventId, file.segmentId, 0,
    file.byteLen + framesLen a.chunks⟩

/-- Append frames to the active segment of a shard and publish the event. -/
def Store.durableWrite (R : Runtime) (s : Store) (shard : ℕ) (w : ActiveWriter) (a : Appended)
    (mode : DurabilityMode) (draws : ℕ) : Store :=
  { s with
    actives := s.actives.set shard (w.write a.frames mode)
    index := s.index.applyEvent (a.event w.file)
    durableIndex := s.durableIndex.applyEvent (a.event w.file)
    chunkLocators := (locate w.file.frames.length w.file.byteLen a.chunks).foldl
      (Located.recordChunk R w.file.segmentId) s.chunkLocators
    minted := s.minted + draws
    derivedOps := s.derivedOps + 1 }

/-- The frame of an event without chunks. -/
def Appended.inline (lens : EnvelopeLens) (item : ItemFrame) : Appended := ⟨[], lens.item, item, []⟩

def Appended.chunked (lens : EnvelopeLens) (entries : List (Arr 16 × ChunkPiece))
    (item : ItemFrame) : Appended :=
  ⟨chunkFrames lens.chunk entries, lens.item, item, item.body⟩

section Outcomes

variable {R : Runtime} {mint : ℕ → Arr 16} {cfg : StoreConfig} {s s' : Store}
  {subject body value : Bytes} {kind : EventKind} {mode : DurabilityMode}
  {operation : Option (Arr 16 × Arr 32)} {lens : EnvelopeLens} {receipt : WriteReceipt}
  {manifest : ChunkManifest}

theorem isChunkManifest_encode (h : manifest.chunks.length < 2 ^ 32) :
    isChunkManifest (encodeChunkManifest manifest) = true := by
  have hdecode := decodeChunkManifest_eq_some.mpr ⟨h, rfl⟩
  rw [decodeChunkManifest] at hdecode
  split at hdecode
  · cases hdecode
  · rename_i hnot
    simpa using hnot

theorem length_chunks_lt {itemId : Arr 16} {chunkSize : ℕ} {pieces : List ChunkPiece}
    {ids : List (Arr 16)} (hsplit : splitIntoPieces itemId value chunkSize = .ok pieces)
    (hmanifest : manifestFromPieces R pieces ids value = .ok manifest) :
    manifest.chunks.length < 2 ^ 32 := by
  obtain ⟨hlen, -, hchunks⟩ := manifestFromPieces_eq_ok hmanifest
  rw [hchunks, List.length_map, List.length_zip, hlen, Nat.min_self]
  rcases eq_or_ne value [] with rfl | hne
  · unfold splitIntoPieces at hsplit
    split at hsplit
    · cases hsplit
    · cases hsplit
      rw [← hlen]
      exact Nat.two_pow_pos 32
  · rw [← hlen]
    exact (isSplit_of_splitIntoPieces hne hsplit).count

theorem writeEvent_eq_ok
    (h : s.writeEvent R mint cfg subject kind body mode operation lens = .ok (s', receipt)) :
    ∃ w, s.actives[subjectWriterShard R subject cfg.writerShards]? = some w ∧
      receipt.eventId = mint s.minted ∧
      (mode = .memory ∧ s' = s.memoryWrite ⟨subject, kind, body, s.itemIdFor R subject,
          mint s.minted, w.file.segmentId, 0, 0⟩ ∨
        mode ≠ .memory ∧ SafetyLimits.draftDefaults.Accepts lens.item body.length ∧
          s' = s.durableWrite R (subjectWriterShard R subject cfg.writerShards) w
            (.inline lens ⟨mint s.minted, kind, s.itemIdFor R subject, subject, body, operation⟩)
            mode 1) := by
  unfold writeEvent at h
  split at h
  · cases h
  split at h
  · cases h
  dsimp only at h
  split at h
  · cases h
  rename_i w hw
  refine ⟨w, hw, ?_⟩
  split at h
  · rename_i hmode
    cases h
    exact ⟨rfl, .inl ⟨hmode, rfl⟩⟩
  · rename_i hmode
    split at h
    · cases h
    · rename_i hwithin
      cases h
      exact ⟨rfl, .inr ⟨hmode, not_not.mp hwithin, rfl⟩⟩

theorem writeChunkedPut_eq_ok
    (h : s.writeChunkedPut R mint cfg subject value mode operation lens = .ok (s', receipt)) :
    ∃ w pieces manifest ids,
      s.actives[subjectWriterShard R subject cfg.writerShards]? = some w ∧
      ids = (List.range pieces.length).map (fun i => mint (s.minted + i)) ∧
      splitIntoPieces (s.itemIdFor R subject) value cfg.chunkSize = .ok pieces ∧
      manifestFromPieces R pieces ids value = .ok manifest ∧
      receipt.eventId = mint (s.minted + pieces.length) ∧
      s' = s.durableWrite R (subjectWriterShard R subject cfg.writerShards) w
        (.chunked lens (ids.zip pieces) ⟨mint (s.minted + pieces.length), .put,
          s.itemIdFor R subject, subject, encodeChunkManifest manifest, operation⟩)
        mode (pieces.length + 1) := by
  unfold writeChunkedPut at h
  split at h
  · cases h
  dsimp only at h
  split at h
  · cases h
  rename_i w hw
  split at h
  · cases h
  rename_i pieces hsplit
  split at h
  · cases h
  rename_i manifest hmanifest
  cases h
  have hslim : slimPutBodyForIndex (encodeChunkManifest manifest) false =
      encodeChunkManifest manifest := by
    rw [slimPutBodyForIndex, isChunkManifest_encode (length_chunks_lt hsplit hmanifest)]
    rfl
  refine ⟨w, pieces, manifest, _, hw, rfl, hsplit, hmanifest, rfl, ?_⟩
  simp only [applyDurableEvent, hslim]
  rfl

theorem settle_cases (s : Store) (mode : DurabilityMode)
    (outcome : Except StoreFault (Store × WriteReceipt)) :
    (∃ e poisoned, s.settle mode outcome = ({ s with awoWriterPoisoned := poisoned }, .error e)) ∨
      ∃ s' receipt, s.settle mode outcome = (s', .ok receipt) ∧ outcome = .ok (s', receipt) := by
  rcases outcome with e | ⟨s', receipt⟩
  · refine .inl ⟨e, if mode = .memory then s.awoWriterPoisoned else true, ?_⟩
    rw [settle]
    split <;> rfl
  · exact .inr ⟨s', receipt, rfl, rfl⟩

theorem admit_chunked {policy : LargeValuePolicy} {len : ℕ} (h : policy.admit len = .ok .chunked) :
    0 < len := by
  unfold LargeValuePolicy.admit at h
  split at h
  · cases h
  split at h
  · cases h
  split at h
  · omega
  · cases h

theorem put_cases (R : Runtime) (mint : ℕ → Arr 16) (cfg : StoreConfig) (s : Store)
    (subject value : Bytes) (mode : DurabilityMode) (operation : Option (Arr 16 × Arr 32))
    (lens : EnvelopeLens) :
    (∃ e poisoned, s.put R mint cfg subject value mode operation lens =
        ({ s with awoWriterPoisoned := poisoned }, .error e)) ∨
      (∃ s' receipt, s.put R mint cfg subject value mode operation lens = (s', .ok receipt) ∧
        (mode = .memory ∨ cfg.policy.admit value.length ≠ .ok .chunked) ∧
        s.writeEvent R mint cfg subject .put value mode operation lens = .ok (s', receipt)) ∨
      ∃ s' receipt, s.put R mint cfg subject value mode operation lens = (s', .ok receipt) ∧
        cfg.policy.admit value.length = .ok .chunked ∧ mode ≠ .memory ∧
        s.writeChunkedPut R mint cfg subject value mode operation lens = .ok (s', receipt) := by
  unfold put
  split
  · exact .inl ⟨_, s.awoWriterPoisoned, rfl⟩
  split
  · exact .inl ⟨_, s.awoWriterPoisoned, rfl⟩
  split
  · exact .inl ⟨_, s.awoWriterPoisoned, rfl⟩
  rename_i layout hroute
  split
  · rename_i hchunked
    rcases settle_cases s mode (s.writeChunkedPut R mint cfg subject value mode operation lens)
      with herr | ⟨s', receipt, hsettle, hok⟩
    · exact .inl herr
    · rw [hchunked.2] at hroute
      exact .inr (.inr ⟨s', receipt, hsettle, hroute, hchunked.1, hok⟩)
  rename_i hinline
  rcases settle_cases s mode (s.writeEvent R mint cfg subject .put value mode operation lens)
    with herr | ⟨s', receipt, hsettle, hok⟩
  · exact .inl herr
  · refine .inr (.inl ⟨s', receipt, hsettle, ?_, hok⟩)
    by_cases hmode : mode = .memory
    · exact .inl hmode
    · refine .inr fun hchunked => hinline ⟨hmode, ?_⟩
      exact ok.inj (hroute.symm.trans hchunked)

theorem delete_cases (R : Runtime) (mint : ℕ → Arr 16) (cfg : StoreConfig) (s : Store)
    (subject : Bytes) (mode : DurabilityMode) (operation : Option (Arr 16 × Arr 32))
    (lens : EnvelopeLens) :
    (∃ e poisoned, s.delete R mint cfg subject mode operation lens =
        ({ s with awoWriterPoisoned := poisoned }, .error e)) ∨
      ∃ s' receipt, s.delete R mint cfg subject mode operation lens = (s', .ok receipt) ∧
        s.writeEvent R mint cfg subject .delete [] mode operation lens = .ok (s', receipt) := by
  unfold delete
  split
  · exact .inl ⟨_, s.awoWriterPoisoned, rfl⟩
  · exact settle_cases s mode _

end Outcomes

end Residiuum
