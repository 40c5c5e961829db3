import Residiuum.Format.SegmentOps
import Residiuum.Lib.Log

/-!
# Active segments: runs with write-through and rollback

A `World` is an active segment, the file that holds what write-through dropped, the log of frames
the segment is meant to hold, and the checkpoints taken so far. `step` runs one operation of the
writer on it.

* **`bookkeeping_run`**: as long as each accepted restore uses a checkpoint whose frames are still
  the first ones of the log, and the log stays below `2 ^ 64` bytes, file and buffer together are
  the frames of the log and every counter is exact.
* **`stale_restore_cuts_frame`**: restoring a checkpoint that was itself rolled back is accepted
  and cuts a frame in two.
-/

namespace Residiuum

open ActiveSegment ByteLib List LogLib

/-! ## Worlds and steps -/

/-- A frame of the log and the offset its append returned. -/
structure LogEntry where
  offset : UInt64
  parts : FrameParts
  deriving DecidableEq, Repr

variable (R : Runtime)

def logImage (entries : List LogEntry) : Bytes :=
  entries.flatMap fun e => e.parts.image R

/-- A checkpoint, and the state it was taken in. -/
structure Snapshot where
  cp : ActiveSegmentCheckpoint
  seg : ActiveSegment
  file : Bytes
  entries : List LogEntry
  deriving DecidableEq, Repr

/-- A segment and its file. -/
structure World where
  seg : ActiveSegment
  /-- What write-through moved to disk. -/
  file : Bytes
  /-- The frames currently in the segment. -/
  entries : List LogEntry
  saved : List Snapshot
  deriving DecidableEq, Repr

/-- What a writer does. -/
inductive SegmentOp where
  | append (call : AppendCall)
  | discardThrough (absoluteEnd : UInt64)
  | checkpoint
  /-- Restore the checkpoint taken as number `i`. -/
  | restoreCheckpoint (i : ℕ)
  deriving DecidableEq, Repr

namespace World

def snapshot (w : World) : Snapshot := ⟨w.seg.checkpoint, w.seg, w.file, w.entries⟩

/-- One operation. A refused one changes nothing. -/
def step (w : World) : SegmentOp → World
  | .append call =>
    match call.run R w.seg with
    | .ok (seg, offset) =>
      { w with seg := seg, entries := w.entries ++ [⟨offset, call.parts w.seg⟩] }
    | .error _ => w
  | .discardThrough absoluteEnd =>
    let seg := w.seg.discardThrough absoluteEnd
    let dropped := w.seg.bytes.take (w.seg.bytes.length - seg.bytes.length)
    { w with seg := seg, file := w.file ++ dropped }
  | .checkpoint => { w with saved := w.saved ++ [w.snapshot] }
  | .restoreCheckpoint i =>
    match w.saved[i]? with
    | none => w
    | some s =>
      match w.seg.restoreCheckpoint s.cp with
      | .ok seg => { w with seg := seg, entries := s.entries }
      | .error _ => w

/-- The worlds a writer starts in: a created segment, or a resumed one whose caller supplied the
frames, their offsets and their number. -/
inductive Started (R : Runtime) : World → Prop
  | create {ids : SegmentId} {limits : SafetyLimits} {createdNs : UInt64} {envelope : Bytes}
      {seg : ActiveSegment}
      (h : ActiveSegment.createWithDescriptorEnvelope R ids limits createdNs envelope = .ok seg)
      (hfit : seg.bytes.length < 2 ^ 64) :
      Started R ⟨seg, [], [⟨0, ActiveSegment.descriptorParts ids limits createdNs envelope⟩], []⟩
  | resume {ids : SegmentId} {limits : SafetyLimits} {bytes : Bytes}
      {frameCount writerSequence createdNs : UInt64} {seg : ActiveSegment}
      {entries : List LogEntry}
      (h : ActiveSegment.resumeUnsealed ids limits bytes frameCount writerSequence createdNs =
        .ok seg) (hfit : bytes.length < 2 ^ 64) (hbytes : bytes = logImage R entries)
      (hcount : frameCount.toNat = entries.length)
      (hstarts : Starts (fun e => e.parts.image R) (fun e => e.offset.toNat) 0 entries) :
      Started R ⟨seg, [], entries, []⟩

/-- What an operation must meet in the world it runs in: an accepted append leaves a log shorter
than `2 ^ 64` bytes, and a restore that agrees on the base offset goes back to a beginning of the
present log. -/
def Safe (w : World) : SegmentOp → Prop
  | .append call => call.Accepted w.seg →
      w.file.length + w.seg.bytes.length + (120 + call.envelope.length + call.body.length) < 2 ^ 64
  | .discardThrough _ => True
  | .checkpoint => True
  | .restoreCheckpoint i => ∀ s, w.saved[i]? = some s → s.seg.baseOffset = w.seg.baseOffset →
      s.entries <+: w.entries

/-- The worlds reached from a start by safe operations. -/
inductive Reached (R : Runtime) : World → Prop
  | start {w : World} (h : Started R w) : Reached R w
  | step {w : World} (op : SegmentOp) (h : Reached R w) (hsafe : w.Safe op) :
      Reached R (w.step R op)

/-- **The bookkeeping of a writer**, as a property of one world. -/
structure Kept (R : Runtime) (w : World) : Prop where
  /-- File and buffer are the frames of the log, end to end. -/
  image : w.file ++ w.seg.bytes = logImage R w.entries
  base : w.seg.baseOffset.toNat = w.file.length
  len : w.seg.len.toNat = (w.file ++ w.seg.bytes).length
  count : w.seg.frameCount.toNat = w.entries.length
  /-- Every frame starts at the offset its append returned. -/
  offsets : ∀ before e after, w.entries = before ++ e :: after →
    e.offset.toNat = (logImage R before).length
  /-- A safe restore of a checkpoint taken since the last discard is accepted, and gives back the
  segment and the file of the checkpoint. -/
  restores : ∀ i s, w.saved[i]? = some s → s.seg.baseOffset = w.seg.baseOffset →
    w.Safe (.restoreCheckpoint i) → w.seg.restoreCheckpoint s.cp = .ok s.seg ∧ w.file = s.file

end World

/-! ## The invariant -/

/-- File, buffer and counters are those of the log. -/
structure Booked (R : Runtime) (seg : ActiveSegment) (file : Bytes)
    (entries : List LogEntry) : Prop where
  image : file ++ seg.bytes = logImage R entries
  base : seg.baseOffset.toNat = file.length
  fits : file.length + seg.bytes.length < 2 ^ 64
  count : seg.frameCount.toNat = entries.length
  starts : Starts (fun e => e.parts.image R) (fun e => e.offset.toNat) 0 entries

theorem FrameParts.length_image (parts : FrameParts) :
    (parts.image R).length = 120 + parts.envelope.length + parts.body.length :=
  length_frameImage _ _ _ _

theorem length_le_logImage (entries : List LogEntry) :
    entries.length ≤ (logImage R entries).length := by
  induction entries with
  | nil => rfl
  | cons e entries ih =>
    have hcons : logImage R (e :: entries) = e.parts.image R ++ logImage R entries := rfl
    rw [hcons, length_append, e.parts.length_image, length_cons]
    omega

namespace Booked

variable {R : Runtime} {seg : ActiveSegment} {file : Bytes} {entries : List LogEntry}
  (h : Booked R seg file entries)

include h

theorem len : seg.len.toNat = (file ++ seg.bytes).length := by
  have hfits := h.fits
  rw [← h.base] at hfits
  rw [seg.toNat_len hfits, h.base, length_append]

theorem counter_succ {parts : FrameParts}
    (hfit : file.length + seg.bytes.length + (parts.image R).length < 2 ^ 64) {counter : UInt64}
    (hcounter : counter.toNat = entries.length) (e : LogEntry) :
    (saturatingAdd counter 1).toNat = (entries ++ [e]).length := by
  have hle := length_le_logImage R entries
  have hone : (1 : UInt64).toNat = 1 := rfl
  rw [← h.image, length_append, ← hcounter] at hle
  rw [parts.length_image] at hfit
  rw [toNat_saturatingAdd (by omega), hcounter, length_append]
  rfl

theorem push (parts : FrameParts)
    (hfit : file.length + seg.bytes.length + (parts.image R).length < 2 ^ 64) :
    Booked R (seg.push (parts.image R)) file (entries ++ [⟨seg.len, parts⟩]) where
  image := by
    show file ++ (seg.bytes ++ parts.image R) = _
    rw [← append_assoc, h.image, logImage, logImage, flatMap_append,
      flatMap_singleton]
  base := h.base
  fits := by
    show file.length + (seg.bytes ++ parts.image R).length < _
    rw [length_append]
    omega
  count := h.counter_succ hfit h.count _
  starts := by
    refine starts_append_singleton.mpr ⟨h.starts, ?_⟩
    show seg.len.toNat = 0 + (logImage R entries).length
    rw [h.len, h.image, Nat.zero_add]

theorem discardThrough (absoluteEnd : UInt64) :
    Booked R (seg.discardThrough absoluteEnd)
      (file ++ seg.bytes.take (seg.bytes.length - (seg.discardThrough absoluteEnd).bytes.length))
      entries := by
  have hfits := h.fits
  have hbase := h.base
  rw [seg.discardThrough_eq absoluteEnd (by omega)]
  generalize hn : min (absoluteEnd.toNat - seg.baseOffset.toNat) seg.bytes.length = n
  have hle : n ≤ seg.bytes.length := hn ▸ Nat.min_le_right _ _
  have hdropped : seg.bytes.length - (seg.bytes.drop n).length = n := by
    rw [length_drop]
    omega
  have htake : (file ++ seg.bytes.take n).length = file.length + n := by
    rw [length_append, length_take, Nat.min_eq_left hle]
  simp only [hdropped]
  refine ⟨?_, ?_, ?_, h.count, h.starts⟩
  · rw [append_assoc, take_append_drop]
    exact h.image
  · rw [htake, ← hbase]
    exact UInt64.toNat_ofNat_of_lt' (by change _ < 2 ^ 64; omega)
  · rw [htake, length_drop]
    omega

/-- **Rolling back.** A checkpoint of a beginning of the log, at the same base, restores exactly
the segment it was taken from. -/
theorem restore {seg₀ : ActiveSegment} {entries₀ : List LogEntry}
    (h₀ : Booked R seg₀ file entries₀) (hbase : seg₀.baseOffset = seg.baseOffset)
    (hle : entries₀ <+: entries) (hids : seg₀.ids = seg.ids) (hlimits : seg₀.limits = seg.limits)
    (hcreated : seg₀.createdNs = seg.createdNs) :
    seg.restoreCheckpoint seg₀.checkpoint = .ok seg₀ := by
  obtain ⟨hlen, htake⟩ := take_eq_of_rollback h.image h₀.image hle
  apply restoreCheckpoint_eq_ok.mpr
  refine ⟨hbase.symm, hlen, ?_⟩
  obtain ⟨ids, limits, bytes, base, sequence, count, isSealed, created⟩ := seg₀
  simp only [checkpoint] at htake hbase hids hlimits hcreated ⊢
  rw [htake, hids, hlimits, hcreated, hbase]

end Booked

namespace World

variable {R : Runtime} {w w' : World} {s : Snapshot}

/-- A checkpoint of an earlier world of the same segment. -/
structure Taken (R : Runtime) (w : World) (s : Snapshot) : Prop where
  cp : s.cp = s.seg.checkpoint
  booked : Booked R s.seg s.file s.entries
  file_le : s.file <+: w.file
  ids : s.seg.ids = w.seg.ids
  limits : s.seg.limits = w.seg.limits
  createdNs : s.seg.createdNs = w.seg.createdNs

/-- The log agrees with segment and file, now and at every checkpoint. -/
structure Inv (R : Runtime) (w : World) : Prop where
  booked : Booked R w.seg w.file w.entries
  saved : ∀ s ∈ w.saved, Taken R w s

theorem Taken.file_eq (h : Taken R w s) (hw : Booked R w.seg w.file w.entries)
    (hbase : s.seg.baseOffset = w.seg.baseOffset) : s.file = w.file := by
  apply h.file_le.eq_of_length
  rw [← h.booked.base, hbase, hw.base]

theorem Taken.restore (h : Taken R w s) (hw : Booked R w.seg w.file w.entries)
    (hbase : s.seg.baseOffset = w.seg.baseOffset) (hle : s.entries <+: w.entries) :
    w.seg.restoreCheckpoint s.cp = .ok s.seg := by
  have h₀ := h.booked
  rw [h.file_eq hw hbase] at h₀
  rw [h.cp]
  exact hw.restore h₀ hbase hle h.ids h.limits h.createdNs

theorem Started.inv (h : Started R w) : Inv R w := by
  cases h with
  | create h hfit =>
    obtain ⟨-, rfl⟩ := create_eq_ok.mp h
    refine ⟨⟨?_, rfl, ?_, rfl, rfl, trivial⟩, fun s hs => absurd hs not_mem_nil⟩
    · exact (flatMap_singleton _ _).symm
    · rw [length_nil, Nat.zero_add]
      exact hfit
  | resume h hfit hbytes hcount hstarts =>
    unfold resumeUnsealed at h
    simp only [ite_throw_eq_ok] at h
    obtain rfl := Except.ok.inj h.2.2
    refine ⟨⟨hbytes, rfl, ?_, hcount, hstarts⟩, fun s hs => absurd hs not_mem_nil⟩
    rw [length_nil, Nat.zero_add]
    exact hfit

theorem Inv.step (h : Inv R w) {op : SegmentOp} (hsafe : w.Safe op) : Inv R (w.step R op) := by
  cases op with
  | append call =>
    cases hrun : call.run R w.seg with
    | error e =>
      simp only [World.step, hrun]
      exact h
    | ok r =>
      obtain ⟨seg, offset⟩ := r
      obtain ⟨hacc, rfl, rfl⟩ := AppendCall.run_eq_ok.mp hrun
      simp only [World.step, hrun]
      refine ⟨h.booked.push _ ?_, fun s hs => ?_⟩
      · rw [FrameParts.length_image, AppendCall.envelope_parts, AppendCall.body_parts]
        exact hsafe hacc
      · exact { h.saved s hs with }
  | discardThrough absoluteEnd =>
    refine ⟨h.booked.discardThrough absoluteEnd, fun s hs => ?_⟩
    have ht := h.saved s hs
    have hsame := w.seg.discardThrough_eq absoluteEnd (by rw [h.booked.base]; exact h.booked.fits)
    refine ⟨ht.cp, ht.booked, ht.file_le.trans (prefix_append _ _), ?_, ?_, ?_⟩
    · exact ht.ids.trans (congrArg ids hsame).symm
    · exact ht.limits.trans (congrArg limits hsame).symm
    · exact ht.createdNs.trans (congrArg createdNs hsame).symm
  | checkpoint =>
    refine ⟨h.booked, fun s hs => ?_⟩
    rcases mem_append.mp hs with hs | hs
    · exact { h.saved s hs with }
    · obtain rfl := mem_singleton.mp hs
      exact ⟨rfl, h.booked, prefix_rfl, rfl, rfl, rfl⟩
  | restoreCheckpoint i =>
    cases hs : w.saved[i]? with
    | none =>
      simp only [World.step, hs]
      exact h
    | some s =>
      have ht := h.saved s (mem_of_getElem? hs)
      cases hr : w.seg.restoreCheckpoint s.cp with
      | error e =>
        simp only [World.step, hs, hr]
        exact h
      | ok seg =>
        simp only [World.step, hs, hr]
        have hbase : s.seg.baseOffset = w.seg.baseOffset := by
          rw [(restoreCheckpoint_eq_ok.mp hr).1, ht.cp]
          rfl
        rw [ht.restore h.booked hbase (hsafe s hs hbase)] at hr
        cases hr
        refine ⟨?_, fun t htaken => ?_⟩
        · have := ht.booked
          rwa [ht.file_eq h.booked hbase] at this
        · have htt := h.saved t htaken
          exact ⟨htt.cp, htt.booked, htt.file_le, htt.ids.trans ht.ids.symm,
            htt.limits.trans ht.limits.symm, htt.createdNs.trans ht.createdNs.symm⟩

theorem Reached.inv (h : Reached R w) : Inv R w := by
  induction h with
  | start h => exact h.inv
  | step op _ hsafe ih => exact ih.step hsafe

end World

/-- **Write-through bookkeeping.** In every world reached by safe operations, file and buffer are
the frames of the log, the counters are exact, and safe restores give back the checkpoint. -/
theorem bookkeeping_run (R : Runtime) (w : World) (h : w.Reached R) : w.Kept R := by
  have hinv := h.inv
  refine ⟨hinv.booked.image, hinv.booked.base, hinv.booked.len, hinv.booked.count, ?_, ?_⟩
  · intro before e after heq
    rw [starts_iff.mp hinv.booked.starts before e after heq, Nat.zero_add]
    rfl
  · intro i s hs hbase hsafe
    have ht := hinv.saved s (mem_of_getElem? hs)
    exact ⟨ht.restore hinv.booked hbase (hsafe s hs hbase), (ht.file_eq hinv.booked hbase).symm⟩

/-- A new segment of the default limits. -/
def sampleWorld : World :=
  ⟨sampleSegment, [],
    [⟨0, ActiveSegment.descriptorParts ⟨zeroId, zeroId⟩ .draftDefaults 0 EMPTY_ENVELOPE⟩], []⟩

theorem sampleWorld_started : sampleWorld.Started productRuntime := by
  apply World.Started.create
  · apply create_eq_ok.mpr
    exact ⟨⟨by decide, ⟨by decide, by decide, rfl, by decide, by decide⟩⟩, rfl⟩
  · decide +kernel

/-- Take a checkpoint, append a frame, and roll it back. -/
theorem bookkeeping_run_sample : World.Kept productRuntime
    (((sampleWorld.step productRuntime .checkpoint).step productRuntime
      (.append (.append sampleContent))).step productRuntime (.restoreCheckpoint 0)) := by
  apply bookkeeping_run
  apply World.Reached.step
  · apply World.Reached.step
    · exact .step _ (.start sampleWorld_started) trivial
    · intro _
      decide +kernel
  · intro s hs _
    cases hs
    decide +kernel

/-- A checkpoint is taken, then one behind a short frame; the first is restored, a longer frame
is appended, and the second is restored. -/
def staleRun : List SegmentOp :=
  [.checkpoint, .append (.append ⟨.itemEvent, EMPTY_ENVELOPE, [], zeroId⟩), .checkpoint,
    .restoreCheckpoint 0, .append (.append ⟨.itemEvent, [0xa1, 0x01, 0x00], [], zeroId⟩),
    .restoreCheckpoint 1]

/-- The second restore is accepted, and leaves the longer frame cut to the length of the shorter:
file and buffer are not the frames of the log, and the buffer is not the one the checkpoint was
taken from. -/
theorem stale_restore_cuts_frame :
    sampleWorld.Started productRuntime ∧
    (staleRun.foldl (World.step productRuntime) sampleWorld).file ++
        (staleRun.foldl (World.step productRuntime) sampleWorld).seg.bytes ≠
      logImage productRuntime (staleRun.foldl (World.step productRuntime) sampleWorld).entries ∧
    (staleRun.foldl (World.step productRuntime) sampleWorld).seg.bytes ≠
      ((staleRun.take 2).foldl (World.step productRuntime) sampleWorld).seg.bytes :=
  ⟨sampleWorld_started, by decide +kernel, by decide +kernel⟩

end Residiuum
