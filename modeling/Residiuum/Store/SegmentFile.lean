import Residiuum.Store.PrimaryIndex

/-!
# Segment files

A segment file is its frames in order. A frame lies at the offset the frames before it end, and its
writer sequence counts them.

* `SegmentFile.located`, `frameAt`: the frames with their places.
-/

namespace Residiuum

open ByteLib GroupLib List
open Std (TreeMap)

/-! ## Frames -/

/-- An item event. -/
structure ItemFrame where
  eventId : Arr 16
  kind : EventKind
  itemId : Arr 16
  subject : Bytes
  body : Bytes
  /-- Client operation id and request hash, both or neither. -/
  operation : Option (Arr 16 × Arr 32)
  deriving DecidableEq, Repr

/-- What a frame holds. -/
inductive FrameContent
  | item (frame : ItemFrame)
  | chunk (eventId : Arr 16) (piece : ChunkPiece)
  /-- Descriptors, summaries and the frames of the Atomic stage; only their length matters here. -/
  | control (bodyLen : ℕ)
  deriving DecidableEq, Repr

/-- A frame of a segment. -/
structure Frame where
  envelopeLen : ℕ
  content : FrameContent
  deriving DecidableEq, Repr

def FrameContent.bodyLen : FrameContent → ℕ
  | item frame => frame.body.length
  | chunk _ piece => (encodeChunkBody piece).length
  | control bodyLen => bodyLen

def Frame.len (f : Frame) : ℕ :=
  FRAME_PREFIX_LEN + f.envelopeLen + f.content.bodyLen + FRAME_SUFFIX_LEN

/-- Readers verify a frame under the limits of the store, which are the defaults. -/
def Frame.Within (f : Frame) : Prop :=
  SafetyLimits.draftDefaults.Accepts f.envelopeLen f.content.bodyLen

instance decidableWithin : DecidablePred Frame.Within := fun _ =>
  inferInstanceAs (Decidable (_ ∧ _ ∧ _))

theorem Frame.len_pos (f : Frame) : 0 < f.len := by
  simp only [len, FRAME_PREFIX_LEN]
  omega

def framesLen (frames : List Frame) : ℕ := (frames.map Frame.len).sum

@[simp] theorem framesLen_nil : framesLen [] = 0 := rfl

@[simp] theorem framesLen_cons (f : Frame) (fs : List Frame) :
    framesLen (f :: fs) = f.len + framesLen fs := by
  simp [framesLen]

/-- A frame and its place. -/
structure Located where
  writerSequence : ℕ
  offset : ℕ
  frame : Frame
  deriving DecidableEq, Repr

/-- The places of frames that follow `sequence` frames and `offset` bytes. -/
def locate (sequence offset : ℕ) : List Frame → List Located
  | [] => []
  | f :: fs => ⟨sequence, offset, f⟩ :: locate (sequence + 1) (offset + f.len) fs

section Locate

variable {sequence offset : ℕ} {fs gs : List Frame} {l m : Located}

theorem locate_append (sequence offset : ℕ) (fs gs : List Frame) :
    locate sequence offset (fs ++ gs) =
      locate sequence offset fs ++ locate (sequence + fs.length) (offset + framesLen fs) gs := by
  induction fs generalizing sequence offset with
  | nil => simp [locate]
  | cons f fs ih =>
    rw [cons_append, locate, ih, locate, cons_append, length_cons, framesLen_cons]
    congr 3 <;> omega

theorem locate_bounds (h : l ∈ locate sequence offset fs) :
    sequence ≤ l.writerSequence ∧ l.writerSequence < sequence + fs.length ∧ offset ≤ l.offset ∧
      l.offset + l.frame.len ≤ offset + framesLen fs := by
  induction fs generalizing sequence offset with
  | nil => exact absurd h not_mem_nil
  | cons f fs ih =>
    rw [locate, mem_cons] at h
    rw [length_cons, framesLen_cons]
    rcases h with rfl | h
    · dsimp only
      omega
    · have := ih h
      omega

theorem frame_mem_of_locate (h : l ∈ locate sequence offset fs) : l.frame ∈ fs := by
  induction fs generalizing sequence offset with
  | nil => exact absurd h not_mem_nil
  | cons f fs ih =>
    rw [locate, mem_cons] at h
    rcases h with rfl | h
    · exact mem_cons_self
    · exact mem_cons_of_mem f (ih h)

theorem pairwise_locate (sequence offset : ℕ) (fs : List Frame) :
    (locate sequence offset fs).Pairwise fun l m =>
      l.writerSequence < m.writerSequence ∧ l.offset < m.offset := by
  induction fs generalizing sequence offset with
  | nil => exact List.Pairwise.nil
  | cons f fs ih =>
    refine List.Pairwise.cons (fun m hm => ?_) (ih _ _)
    have := locate_bounds hm
    have := f.len_pos
    dsimp only
    omega

theorem locate_inj (hl : l ∈ locate sequence offset fs) (hm : m ∈ locate sequence offset fs)
    (h : l.offset = m.offset) : l = m := by
  induction fs generalizing sequence offset with
  | nil => exact absurd hl not_mem_nil
  | cons f fs ih =>
    have hpos := f.len_pos
    rw [locate, mem_cons] at hl hm
    rcases hl with rfl | hl <;> rcases hm with rfl | hm
    · rfl
    · have := locate_bounds hm
      dsimp only at h
      omega
    · have := locate_bounds hl
      dsimp only at h
      omega
    · exact ih hl hm

end Locate

/-! ## Files -/

/-- A segment file: its id and its frames. The envelope of every item and chunk frame repeats the
id, so it is not stored with the frames. -/
structure SegmentFile where
  segmentId : ℕ
  frames : List Frame
  deriving DecidableEq, Repr

namespace SegmentFile

def byteLen (file : SegmentFile) : ℕ := framesLen file.frames

def located (file : SegmentFile) : List Located := locate 0 0 file.frames

/-- The frames a scan finds. -/
def verified (file : SegmentFile) : List Located := file.located.filter fun l => l.frame.Within

/-- The file up to the first frame that is not verified. -/
def leading (file : SegmentFile) : SegmentFile :=
  { file with frames := file.frames.takeWhile fun f => f.Within }

/-- The frame that lies at an offset. -/
def frameAt (file : SegmentFile) (offset : ℕ) : Option Frame :=
  (file.located.find? fun l => l.offset = offset).map Located.frame

/-- The frame a reader verifies at an offset. -/
def readAt (file : SegmentFile) (offset : ℕ) : Option Frame :=
  (file.frameAt offset).filter fun f => f.Within

/-- The file with frames added at its end. -/
def append (file : SegmentFile) (frames : List Frame) : SegmentFile :=
  { file with frames := file.frames ++ frames }

variable {file : SegmentFile} {offset : ℕ} {f : Frame}

theorem frameAt_eq_some :
    file.frameAt offset = some f ↔ ∃ l ∈ file.located, l.offset = offset ∧ l.frame = f := by
  rw [frameAt, Option.map_eq_some_iff]
  constructor
  · rintro ⟨l, hfind, rfl⟩
    have hoff : l.offset = offset := by simpa using find?_some hfind
    exact ⟨l, mem_of_find?_eq_some hfind, hoff, rfl⟩
  · rintro ⟨l, hl, rfl, rfl⟩
    cases hfind : file.located.find? fun m => m.offset = l.offset with
    | none => exact absurd (find?_eq_none.mp hfind l hl) (by simp)
    | some m =>
      have hm := mem_of_find?_eq_some hfind
      have hoff : m.offset = l.offset := by simpa using find?_some hfind
      exact ⟨m, rfl, congrArg Located.frame (locate_inj hm hl hoff)⟩

theorem mem_of_frameAt (h : file.frameAt offset = some f) : f ∈ file.frames := by
  obtain ⟨l, hl, -, rfl⟩ := frameAt_eq_some.mp h
  exact frame_mem_of_locate hl

theorem readAt_eq_some : file.readAt offset = some f ↔ file.frameAt offset = some f ∧ f.Within := by
  simp [readAt, Option.filter_eq_some_iff]

theorem located_append (file : SegmentFile) (frames : List Frame) :
    (file.append frames).located =
      file.located ++ locate file.frames.length file.byteLen frames := by
  rw [located, append, locate_append, Nat.zero_add, Nat.zero_add]
  rfl

theorem frameAt_append (frames : List Frame)
    (h : file.frameAt offset = some f) : (file.append frames).frameAt offset = some f := by
  obtain ⟨l, hl, hoff, hf⟩ := frameAt_eq_some.mp h
  refine frameAt_eq_some.mpr ⟨l, ?_, hoff, hf⟩
  rw [located_append]
  exact mem_append_left _ hl

end SegmentFile

/-- Where a chunk frame lies and what it holds. -/
structure ChunkFrameLocator where
  segmentId : ℕ
  frameOffset : ℕ
  itemId : Arr 16
  chunkIndex : UInt32
  chunkTotal : UInt32
  logicalLen : UInt64
  verifiedBodyHash : Arr 32
  deriving DecidableEq, Repr

abbrev ChunkLocatorMap : Type := TreeMap (Arr 16) (List ChunkFrameLocator)

def chunkFrameLocator (R : Runtime) (segmentId frameOffset : ℕ) (piece : ChunkPiece) :
    ChunkFrameLocator :=
  ⟨segmentId, frameOffset, piece.itemId, piece.index, piece.total, piece.logicalLen,
    bodyHash R (encodeChunkBody piece)⟩

/-- Record the locator of a chunk frame; other frames are passed over. -/
def Located.recordChunk (R : Runtime) (segmentId : ℕ) (locators : ChunkLocatorMap) (l : Located) :
    ChunkLocatorMap :=
  match l.frame.content with
  | .chunk eventId piece =>
    pushEntry locators eventId (chunkFrameLocator R segmentId l.offset piece)
  | _ => locators

end Residiuum
