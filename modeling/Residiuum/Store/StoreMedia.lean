import Mathlib.Data.List.TakeWhile
import Residiuum.Store.ReadPath

/-!
# The files of the store

What every step does to the segment files: frames are added to one segment, new segments appear, and
files move between the active, pending and sealed ones.

* **`Grows.onMedia`**: frames stay where they are.
-/

namespace Residiuum

open ActiveWriter ByteLib GroupLib List SegmentFile
open Std (TreeMap)

/-- The file with frames added, when it is that of segment `g`. -/
def appendAt (g : ℕ) (frames : List Frame) (file : SegmentFile) : SegmentFile :=
  if file.segmentId = g then file.append frames else file

/-- The frame `f` lies at `offset` of segment `g`. -/
def OnMedia (files : List SegmentFile) (g offset : ℕ) (f : Frame) : Prop :=
  ∃ file ∈ files, file.segmentId = g ∧ file.frameAt offset = some f

/-- `files'` is `files` with frames added to segment `g`, and new files, in some order. -/
def Grows (files : List SegmentFile) (g : ℕ) (frames : List Frame) (new files' : List SegmentFile) :
    Prop :=
  files'.Perm (files.map (appendAt g frames) ++ new)

section Grows

variable {files files' new : List SegmentFile} {g g' offset i : ℕ} {frames : List Frame} {f : Frame}
  {file : SegmentFile}

@[simp] theorem segmentId_appendAt (g : ℕ) (frames : List Frame) (file : SegmentFile) :
    (appendAt g frames file).segmentId = file.segmentId := by
  unfold appendAt
  split <;> rfl

theorem appendAt_nil (g : ℕ) : appendAt g [] = id := by
  funext file
  unfold appendAt
  split
  · rw [append, append_nil]
    rfl
  · rfl

theorem map_appendAt_of_notMem (h : g ∉ files.map segmentId) :
    files.map (appendAt g frames) = files := by
  refine (map_congr_left fun file hfile => ?_).trans (map_id _)
  exact if_neg fun heq => h (mem_map.mpr ⟨file, hfile, heq⟩)

theorem frameAt_appendAt (h : file.frameAt offset = some f) :
    (appendAt g frames file).frameAt offset = some f := by
  unfold appendAt
  split
  · exact frameAt_append frames h
  · exact h

section

variable (h : Grows files g frames new files')

include h

theorem Grows.onMedia (hon : OnMedia files g' offset f) : OnMedia files' g' offset f := by
  obtain ⟨file, hfile, hid, hat⟩ := hon
  refine ⟨appendAt g frames file, h.mem_iff.mpr ?_, ?_, frameAt_appendAt hat⟩
  · exact mem_append_left _ (mem_map_of_mem hfile)
  · rw [segmentId_appendAt, hid]

theorem Grows.onMedia_new (hfile : file ∈ files) (hid : file.segmentId = g) {l : Located}
    (hl : l ∈ locate file.frames.length file.byteLen frames) :
    OnMedia files' g l.offset l.frame := by
  refine ⟨appendAt g frames file, h.mem_iff.mpr ?_, ?_, ?_⟩
  · exact mem_append_left _ (mem_map_of_mem hfile)
  · rw [segmentId_appendAt, hid]
  · rw [appendAt, if_pos hid, frameAt_eq_some]
    refine ⟨l, ?_, rfl, rfl⟩
    rw [located_append]
    exact mem_append_right _ hl

/-- A frame that lies somewhere after a step lay there before, was added to the segment, or is in a
new file. -/
theorem Grows.onMedia_cases (hon : OnMedia files' g' offset f) :
    OnMedia files g' offset f ∨
      (g' = g ∧ ∃ file ∈ files, file.segmentId = g ∧
        ∃ l ∈ locate file.frames.length file.byteLen frames, l.offset = offset ∧ l.frame = f) ∨
      OnMedia new g' offset f := by
  obtain ⟨file', hfile', hid, hat⟩ := hon
  rcases mem_append.mp (h.mem_iff.mp hfile') with hold | hnew
  · obtain ⟨file, hfile, rfl⟩ := mem_map.mp hold
    rw [segmentId_appendAt] at hid
    by_cases hg : file.segmentId = g
    · rw [appendAt, if_pos hg] at hat
      obtain ⟨l, hl, hoff, hf⟩ := frameAt_eq_some.mp hat
      rw [located_append, mem_append] at hl
      rcases hl with hl | hl
      · exact .inl ⟨file, hfile, hid, frameAt_eq_some.mpr ⟨l, hl, hoff, hf⟩⟩
      · exact .inr (.inl ⟨hid.symm.trans hg, file, hfile, hg, l, hl, hoff, hf⟩)
    · rw [appendAt, if_neg hg] at hat
      exact .inl ⟨file, hfile, hid, hat⟩
  · exact .inr (.inr ⟨file', hnew, hid, hat⟩)

theorem Grows.segmentIds :
    (files'.map segmentId).Perm
      (files.map segmentId ++ new.map segmentId) := by
  have hmap := h.map segmentId
  rw [map_append, map_map] at hmap
  rwa [show segmentId ∘ appendAt g frames = segmentId from
    funext (segmentId_appendAt g frames)] at hmap

theorem Grows.nodup (hnodup : (files.map segmentId).Nodup) (hnew : (new.map segmentId).Nodup)
    (hdisjoint : ∀ file ∈ files, ∀ file' ∈ new, file.segmentId ≠ file'.segmentId) :
    (files'.map segmentId).Nodup := by
  rw [h.segmentIds.nodup_iff, nodup_append]
  refine ⟨hnodup, hnew, fun g hg g' hg' => ?_⟩
  obtain ⟨file, hfile, rfl⟩ := mem_map.mp hg
  obtain ⟨file', hfile', rfl⟩ := mem_map.mp hg'
  exact hdisjoint file hfile file' hfile'

end

theorem set_append_eq_map (hnodup : (files.map segmentId).Nodup) (hi : files[i]? = some file)
    (frames : List Frame) :
    files.set i (file.append frames) = files.map (appendAt file.segmentId frames) := by
  induction files generalizing i with
  | nil => simp at hi
  | cons first files ih =>
    rw [map_cons, nodup_cons] at hnodup
    cases i with
    | zero =>
      obtain rfl : first = file := by simpa using hi
      rw [set_cons_zero, map_cons, map_appendAt_of_notMem hnodup.1, appendAt,
        if_pos rfl]
    | succ i =>
      rw [getElem?_cons_succ] at hi
      have hne : first.segmentId ≠ file.segmentId := fun heq =>
        hnodup.1 (mem_map.mpr ⟨file, mem_of_getElem? hi, heq.symm⟩)
      rw [set_cons_succ, map_cons, ih hnodup.2 hi, appendAt, if_neg hne]

theorem set_append_perm {α : Type} {l : List α} {a b : α} (hi : l[i]? = some a) :
    (l.set i b ++ [a]).Perm (l ++ [b]) := by
  induction l generalizing i with
  | nil => simp at hi
  | cons c l ih =>
    cases i with
    | zero =>
      obtain rfl : c = a := by simpa using hi
      rw [set_cons_zero, cons_append, cons_append]
      exact ((perm_append_singleton c l).cons b).trans
        ((List.Perm.swap c b l).trans ((perm_append_singleton b l).symm.cons c))
    | succ i =>
      rw [getElem?_cons_succ] at hi
      rw [set_cons_succ, cons_append, cons_append]
      exact (ih hi).cons c

end Grows

/-! ## Reads -/

variable {g offset : ℕ} {s : Store} {f : Frame}

/-- The ids of the segment files are distinct and were minted, and readers verify every frame. -/
structure Store.IdsMinted (s : Store) : Prop where
  nodup : (s.files.map SegmentFile.segmentId).Nodup
  minted : ∀ file ∈ s.files, file.segmentId ≤ s.segmentSeq
  within : ∀ file ∈ s.files, ∀ f ∈ file.frames, f.Within

theorem Store.namedFrameAt_eq_some (hids : s.IdsMinted) :
    s.namedFrameAt g offset = some f ↔ OnMedia s.files g offset f := by
  rw [namedFrameAt]
  constructor
  · intro h
    obtain ⟨file, hfile, hat⟩ := exists_of_findSome?_eq_some h
    obtain ⟨hmem, hid⟩ := mem_filter.mp hfile
    exact ⟨file, hmem, of_decide_eq_true hid, (readAt_eq_some.mp hat).1⟩
  · rintro ⟨file, hfile, rfl, hat⟩
    replace hat := readAt_eq_some.mpr ⟨hat, hids.within file hfile f (mem_of_frameAt hat)⟩
    have honly : ∀ file' ∈ s.files.filter fun file' => file'.segmentId = file.segmentId,
        file' = file := by
      intro file' hfile'
      obtain ⟨hmem, hid⟩ := mem_filter.mp hfile'
      exact inj_on_of_nodup_map hids.nodup hmem hfile (of_decide_eq_true hid)
    cases hfind : (s.files.filter fun file' => file'.segmentId = file.segmentId).findSome?
        fun file' => file'.readAt offset with
    | none =>
      rw [findSome?_eq_none_iff] at hfind
      have hmem : file ∈ s.files.filter fun file' => file'.segmentId = file.segmentId :=
        mem_filter.mpr ⟨hfile, decide_eq_true rfl⟩
      rw [hfind file hmem] at hat
      cases hat
    | some f' =>
      obtain ⟨file', hfile', hat'⟩ := exists_of_findSome?_eq_some hfind
      rw [honly file' hfile', hat] at hat'
      exact hat'.symm

theorem Store.onMedia_of_tailFrameAt
    (h : s.tailFrameAt g offset = some f) : OnMedia s.files g offset f := by
  unfold tailFrameAt at h
  split at h
  · rename_i w hw
    split at h
    · have hid : w.file.segmentId = g := by simpa using find?_some hw
      have hmem : w.file ∈ s.files := by
        rw [Store.files, append_assoc]
        exact mem_append_left _ (mem_map_of_mem (mem_of_find?_eq_some hw))
      exact ⟨w.file, hmem, hid, (readAt_eq_some.mp h).1⟩
    · cases h
  · cases h

/-! ## Steps -/

section Steps

variable {s : Store} {shard g : ℕ} {w : ActiveWriter}

theorem Store.mem_files_active (hw : s.actives[shard]? = some w) : w.file ∈ s.files := by
  rw [files, append_assoc]
  exact mem_append_left _ (mem_map_of_mem (mem_of_getElem? hw))

section

variable (hids : s.IdsMinted)

include hids

theorem Store.active_notMem (hw : s.actives[shard]? = some w) :
    w.file.segmentId ∉ (s.sealed ++ s.pending).map segmentId := by
  have hnodup := hids.nodup
  rw [files, append_assoc, map_append, nodup_append] at hnodup
  have hmem : w.file.segmentId ∈ (s.actives.map file).map segmentId :=
    mem_map_of_mem (mem_map_of_mem (mem_of_getElem? hw))
  exact fun h => hnodup.2.2 _ hmem _ h rfl

theorem Store.nodup_actives : ((s.actives.map file).map segmentId).Nodup := by
  have hnodup := hids.nodup
  rw [files, append_assoc, map_append, nodup_append] at hnodup
  exact hnodup.1

theorem Store.map_appendAt_active (hw : s.actives[shard]? = some w) (frames : List Frame) :
    s.files.map (appendAt w.file.segmentId frames) =
      (s.actives.map file).set shard (w.file.append frames) ++ s.sealed ++ s.pending := by
  have hi : (s.actives.map file)[shard]? = some w.file := by
    rw [getElem?_map, hw]
    rfl
  have hrest : (s.sealed ++ s.pending).map (appendAt w.file.segmentId frames) =
      s.sealed ++ s.pending := map_appendAt_of_notMem (s.active_notMem hids hw)
  rw [map_append] at hrest
  rw [files, append_assoc, append_assoc, map_append, map_append, hrest,
    set_append_eq_map (s.nodup_actives hids) hi]

theorem Store.grows_write (hw : s.actives[shard]? = some w) (frames : List Frame)
    (mode : DurabilityMode) : Grows s.files w.file.segmentId frames []
      ((s.actives.set shard (w.write frames mode)).map file ++ s.sealed ++ s.pending) := by
  rw [Grows, append_nil, s.map_appendAt_active hids hw, map_set]
  exact List.Perm.refl _

end

theorem Store.grows_rotateActive (hw : s.actives[shard]? = some w) :
    Grows s.files w.file.segmentId [] [(start (s.segmentSeq + 1)).file]
      (s.rotateActive shard).files := by
  have hi : (s.actives.map file)[shard]? = some w.file := by
    rw [getElem?_map, hw]
    rfl
  rw [Grows, appendAt_nil, map_id, rotateActive, hw]
  dsimp [files, startActive]
  rw [map_set, ← append_assoc]
  have hperm := set_append_perm (b := (start (s.segmentSeq + 1)).file) hi
  rw [perm_iff_count]
  intro file
  have hcount := hperm.count_eq file
  simp only [count_append] at hcount ⊢
  omega

theorem Store.grows_finalizeSeal (hids : s.IdsMinted) :
    ∃ frames, (∀ f ∈ frames, f = summaryFrame) ∧
      Grows s.files g frames [] (s.finalizeSeal g).files := by
  have hsplit := filter_append_perm (fun file : SegmentFile => decide (file.segmentId = g))
    s.pending
  by_cases hg : g ∈ s.pending.map segmentId
  · have hnodup := hids.nodup
    rw [files, map_append, nodup_append] at hnodup
    have hfront : g ∉ (s.actives.map file ++ s.sealed).map segmentId :=
      fun h => hnodup.2.2 g h g hg rfl
    have hkept : (s.pending.filter fun file => file.segmentId ≠ g).map (appendAt g [summaryFrame]) =
        s.pending.filter fun file => file.segmentId ≠ g := by
      refine map_appendAt_of_notMem fun h => ?_
      obtain ⟨file, hfile, hid⟩ := mem_map.mp h
      exact of_decide_eq_true (mem_filter.mp hfile).2 hid
    have hmoved : (s.pending.filter fun file => file.segmentId = g).map
        (appendAt g [summaryFrame]) =
        (s.pending.filter fun file => file.segmentId = g).map
          (append ·.leading [summaryFrame]) := by
      refine map_congr_left fun file hfile => ?_
      have hwithin := hids.within file (mem_append_right _ (mem_filter.mp hfile).1)
      have hleading : file.leading = file := by
        rw [SegmentFile.leading,
          takeWhile_eq_self_iff.mpr fun f hf => decide_eq_true (hwithin f hf)]
      rw [hleading]
      exact if_pos (of_decide_eq_true (mem_filter.mp hfile).2)
    refine ⟨[summaryFrame], fun f hf => mem_singleton.mp hf, ?_⟩
    have hfiles : s.files.map (appendAt g [summaryFrame]) =
        s.actives.map file ++ s.sealed ++
          s.pending.map (appendAt g [summaryFrame]) := by
      rw [files, map_append, map_appendAt_of_notMem hfront]
    have hpending := hsplit.map (appendAt g [summaryFrame])
    simp only [← decide_not] at hpending
    rw [map_append, hmoved, hkept] at hpending
    rw [Grows, append_nil, hfiles]
    dsimp only [files, finalizeSeal]
    rw [perm_iff_count]
    intro file
    have hcount := hpending.count_eq file
    simp only [count_append] at hcount ⊢
    omega
  · have hnone : (s.pending.filter fun file => file.segmentId = g) = [] := by
      refine filter_eq_nil_iff.mpr fun file hfile hid => hg ?_
      exact mem_map.mpr ⟨file, hfile, of_decide_eq_true hid⟩
    refine ⟨[], fun f hf => absurd hf not_mem_nil, ?_⟩
    rw [Grows, appendAt_nil, map_id, append_nil]
    dsimp [files, finalizeSeal]
    rw [hnone] at hsplit ⊢
    simp only [← decide_not, nil_append] at hsplit
    rw [map_nil, append_nil]
    exact hsplit.append_left _

theorem Store.writeChimeraForSealed_eq (s : Store) (g : ℕ) :
    ∃ layouts, s.writeChimeraForSealed g = { s with layouts } := by
  unfold writeChimeraForSealed
  split
  · exact ⟨s.layouts, rfl⟩
  · split
    · exact ⟨s.layouts, rfl⟩
    · exact ⟨_, rfl⟩

theorem Store.sealActiveShard_eq (sidecar : Bool) (hw : s.actives[shard]? = some w) :
    ∃ layouts, s.sealActiveShard sidecar shard = { s.publishSealed shard w with layouts } := by
  rw [sealActiveShard, hw]
  dsimp only
  split
  · exact (s.publishSealed shard w).writeChimeraForSealed_eq w.file.segmentId
  · exact ⟨_, rfl⟩

theorem Store.files_sealActiveShard {sidecar : Bool} (hw : s.actives[shard]? = some w) :
    (s.sealActiveShard sidecar shard).files = (s.publishSealed shard w).files := by
  obtain ⟨layouts, heq⟩ := s.sealActiveShard_eq sidecar hw
  rw [heq]
  rfl

theorem Store.grows_sealActiveShard (hids : s.IdsMinted) (sidecar : Bool)
    (hw : s.actives[shard]? = some w) :
    Grows s.files w.file.segmentId [summaryFrame] [(start (s.segmentSeq + 1)).file]
      (s.sealActiveShard sidecar shard).files := by
  have hi : ((s.actives.map file).set shard (w.file.append [summaryFrame]))[shard]? =
      some (w.file.append [summaryFrame]) := by
    have hlt : shard < s.actives.length := (List.getElem?_eq_some_iff.mp hw).1
    rw [getElem?_set_self]
    rwa [length_map]
  have hperm := set_append_perm (b := (start (s.segmentSeq + 1)).file) hi
  rw [set_set] at hperm
  have hfiles : (s.sealActiveShard sidecar shard).files =
      (s.actives.map file).set shard (start (s.segmentSeq + 1)).file ++
        (s.sealed ++ [w.file.append [summaryFrame]]) ++ s.pending := by
    rw [files_sealActiveShard hw, ← map_set]
    rfl
  rw [Grows, hfiles, s.map_appendAt_active hids hw, perm_iff_count]
  intro file
  have hcount := hperm.count_eq file
  simp only [count_append] at hcount ⊢
  omega

theorem Store.IdsMinted.of_grows (hids : s.IdsMinted) {s' : Store} {frames : List Frame}
    {new : List SegmentFile} (hgrows : Grows s.files g frames new s'.files)
    (hseq : s.segmentSeq ≤ s'.segmentSeq) (hnew : (new.map segmentId).Nodup)
    (hfresh : ∀ file ∈ new, s.segmentSeq < file.segmentId ∧ file.segmentId ≤ s'.segmentSeq)
    (hframes : ∀ f ∈ frames, f.Within) (hwithin : ∀ file ∈ new, ∀ f ∈ file.frames, f.Within) :
    s'.IdsMinted where
  nodup := by
    refine hgrows.nodup hids.nodup hnew fun file hfile file' hfile' heq => ?_
    have := hids.minted file hfile
    have := hfresh file' hfile'
    omega
  minted := by
    intro file hfile
    have hmem : file.segmentId ∈ s'.files.map segmentId := mem_map_of_mem hfile
    rw [hgrows.segmentIds.mem_iff, mem_append] at hmem
    rcases hmem with hmem | hmem
    · obtain ⟨old, hold, heq⟩ := mem_map.mp hmem
      rw [← heq]
      exact (hids.minted old hold).trans hseq
    · obtain ⟨fresh, hmem, heq⟩ := mem_map.mp hmem
      rw [← heq]
      exact (hfresh fresh hmem).2
  within := by
    intro file hfile f hf
    rcases mem_append.mp (hgrows.mem_iff.mp hfile) with hold | hfile
    · obtain ⟨old, hmem, rfl⟩ := mem_map.mp hold
      unfold appendAt at hf
      split at hf
      · rcases mem_append.mp hf with hf | hf
        · exact hids.within old hmem f hf
        · exact hframes f hf
      · exact hids.within old hmem f hf
    · exact hwithin file hfile f hf

theorem within_start (g : ℕ) : ∀ f ∈ (start g).file.frames, f.Within := by
  intro f hf
  rw [mem_singleton.mp hf]
  decide

theorem Store.idsMinted_create (cfg : StoreConfig) : (Store.create cfg).IdsMinted := by
  have hfiles : (Store.create cfg).files.map segmentId =
      (List.range (max cfg.writerShards 1)).map (· + 1) := by
    simp only [create, files, append_nil, map_map]
    rfl
  constructor
  · rw [hfiles]
    exact nodup_range.map (fun a b h => Nat.succ.inj h)
  · intro file hfile
    have hmem : file.segmentId ∈ (Store.create cfg).files.map segmentId :=
      mem_map_of_mem hfile
    rw [hfiles] at hmem
    obtain ⟨shard, hshard, heq⟩ := mem_map.mp hmem
    rw [← heq]
    exact mem_range.mp hshard
  · intro file hfile
    simp only [create, files, append_nil, map_map] at hfile
    obtain ⟨shard, -, rfl⟩ := mem_map.mp hfile
    exact within_start (shard + 1)

end Steps

end Residiuum
