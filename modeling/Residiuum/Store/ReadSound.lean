import Mathlib.Data.List.Dedup
import Residiuum.Store.StoreWrites

/-!
# What reads find

* **`delivered_of_media`**: when the chunk frames of a value lie on the media, reading its manifest
  gives the value, from the locators or from a scan.
-/

namespace Residiuum

open ByteLib GroupLib List
open Std (TreeMap)

/-! ## The body cache -/

section Cache

variable {c : VerifiedBodyCache} {k subject : Bytes} {eventId : Arr 16} {body : Bytes}
  {entry : CachedVerifiedBody}

theorem VerifiedBodyCache.entries_evict {maxBytes residentBytes : ℕ}
    {entries : TreeMap Bytes CachedVerifiedBody} {order : List (Bytes × Arr 16)}
    (h : (evict maxBytes entries residentBytes order).entries[k]? = some entry) :
    entries[k]? = some entry := by
  induction order generalizing entries residentBytes with
  | nil => exact h
  | cons admission order ih =>
    unfold evict at h
    split at h
    · exact h
    split at h
    · split at h
      · have herase := ih h
        rw [TreeMap.getElem?_erase] at herase
        split at herase
        · cases herase
        · exact herase
      · exact ih h
    · exact ih h

theorem VerifiedBodyCache.entries_insert
    (h : (c.insert subject eventId body).entries[k]? = some entry) :
    c.entries[k]? = some entry ∨ k = subject ∧ entry.eventId = eventId ∧ entry.body = body := by
  have herase {entry : CachedVerifiedBody} (h : (c.entries.erase subject)[k]? = some entry) :
      c.entries[k]? = some entry := by
    rw [TreeMap.getElem?_erase] at h
    split at h
    · cases h
    · exact h
  unfold VerifiedBodyCache.insert at h
  split at h
  · exact .inl h
  split at h
  · exact .inl h
  dsimp only at h
  split at h
  · exact .inl (herase h)
  · have hinsert := entries_evict h
    rw [TreeMap.getElem?_insert] at hinsert
    split at hinsert
    · rename_i heq
      cases hinsert
      exact .inr ⟨(Std.LawfulEqCmp.compare_eq_iff_eq.mp heq).symm, rfl, rfl⟩
    · exact .inl (herase hinsert)

theorem VerifiedBodyCache.get_eq_some (h : c.get subject eventId = some body) :
    ∃ entry, c.entries[subject]? = some entry ∧ entry.eventId = eventId ∧ entry.body = body := by
  unfold VerifiedBodyCache.get at h
  split at h
  · rename_i entry hentry
    split at h
    · rename_i hid
      exact ⟨entry, hentry, hid, Option.some.inj h⟩
    · cases h
  · cases h

end Cache

/-! ## Chunks -/

variable {r : ResolvedChunk} {manifest : ChunkManifest}

section Chunks

variable {R : Runtime} {s : Store} {files : List SegmentFile} {id : Arr 16} {piece : ChunkPiece}
  {seen : List (Arr 16 × Arr 32)} {rs : List ResolvedChunk}

/-- A chunk frame of the event `id` lies on the media. -/
def ChunkOnMedia (files : List SegmentFile) (id : Arr 16) (piece : ChunkPiece) : Prop :=
  ∃ g offset envelopeLen, OnMedia files g offset ⟨envelopeLen, .chunk id piece⟩

/-- Every locator points at a chunk frame of its event. -/
def LocatorsSound (files : List SegmentFile) (locators : ChunkLocatorMap) : Prop :=
  ∀ id, ∀ loc ∈ (locators[id]?).getD [], ∃ envelopeLen piece,
    OnMedia files loc.segmentId loc.frameOffset ⟨envelopeLen, .chunk id piece⟩

/-- One event id names one piece. -/
def ChunksUnique (files : List SegmentFile) : Prop :=
  ∀ id piece piece', ChunkOnMedia files id piece → ChunkOnMedia files id piece' → piece = piece'

theorem OnMedia.unique {g offset : ℕ} {f f' : Frame}
    (hnodup : (files.map SegmentFile.segmentId).Nodup) (h : OnMedia files g offset f)
    (h' : OnMedia files g offset f') : f = f' := by
  obtain ⟨file, hfile, hid, hat⟩ := h
  obtain ⟨file', hfile', hid', hat'⟩ := h'
  obtain rfl := inj_on_of_nodup_map hnodup hfile hfile' (hid.trans hid'.symm)
  exact Option.some.inj (hat.symm.trans hat')

theorem chunkOnMedia_of_preadResolvedChunk (hids : s.IdsMinted)
    (hsound : LocatorsSound s.files s.chunkLocators) {loc : ChunkFrameLocator}
    (hloc : loc ∈ (s.chunkLocators[id]?).getD []) (h : s.preadResolvedChunk R id loc = some r) :
    ∃ piece g offset, ChunkOnMedia s.files id piece ∧ r = resolvedAt R id piece g offset := by
  obtain ⟨envelopeLen, piece, hon⟩ := hsound id loc hloc
  have hbody : s.preadBodyForLocator loc.segmentId loc.frameOffset =
      .ok (encodeChunkBody piece) := by
    rw [Store.preadBodyForLocator, (s.namedFrameAt_eq_some hids).mpr hon]
    rfl
  unfold Store.preadResolvedChunk at h
  dsimp only at h
  split at h
  · rename_i chunk hmemory
    cases h
    split at hmemory
    · rename_i id' piece' htail
      obtain ⟨f, hf, hcontent⟩ := Option.map_eq_some_iff.mp htail
      have heq := (s.onMedia_of_tailFrameAt hf).unique hids.nodup hon
      rw [heq] at hcontent
      obtain ⟨rfl, rfl⟩ := FrameContent.chunk.inj hcontent
      split at hmemory
      · exact ⟨piece, _, _, ⟨_, _, _, hon⟩, (Option.some.inj hmemory).symm⟩
      · cases hmemory
    · cases hmemory
  · rw [hbody] at h
    dsimp only at h
    rw [decodeChunkBody_encode] at h
    dsimp only at h
    split at h
    · exact ⟨piece, _, _, ⟨_, _, _, hon⟩, (Option.some.inj h).symm⟩
    · cases h

theorem mem_of_mem_dedupChunks (h : r ∈ dedupChunks seen rs) : r ∈ rs := by
  induction rs generalizing seen with
  | nil => exact h
  | cons first rs ih =>
    unfold dedupChunks at h
    split at h
    · exact mem_cons_of_mem _ (ih h)
    · rcases mem_cons.mp h with rfl | h
      · exact mem_cons_self
      · exact mem_cons_of_mem _ (ih h)

theorem exists_mem_dedupChunks (h : r ∈ rs) (hseen : ∀ e ∈ seen, e.1 ≠ r.frameEventId) :
    ∃ r' ∈ dedupChunks seen rs, r'.frameEventId = r.frameEventId := by
  induction rs generalizing seen with
  | nil => exact absurd h not_mem_nil
  | cons first rs ih =>
    unfold dedupChunks
    by_cases hid : first.frameEventId = r.frameEventId
    · rw [if_neg fun hmem => hseen _ hmem hid]
      exact ⟨first, mem_cons_self, hid⟩
    have hrs : r ∈ rs := by
      rcases mem_cons.mp h with rfl | h
      · exact absurd rfl hid
      · exact h
    split
    · exact ih hrs hseen
    have hseen' : ∀ e ∈ (first.frameEventId, first.verifiedBodyHash) :: seen,
        e.1 ≠ r.frameEventId := by
      intro e he
      rcases mem_cons.mp he with rfl | he
      · exact hid
      · exact hseen e he
    obtain ⟨r', hr', heq⟩ := ih hrs hseen'
    exact ⟨r', mem_cons_of_mem _ hr', heq⟩

theorem mem_scanned {expected : List (Arr 16)} (hids : s.IdsMinted) :
    r ∈ ((s.sealed ++ s.pending ++ s.actives.map ActiveWriter.file).flatMap fun file =>
        file.verified.filterMap (expectedChunk R expected file.segmentId)) ↔
      ∃ g offset envelopeLen id piece, OnMedia s.files g offset ⟨envelopeLen, .chunk id piece⟩ ∧
        id ∈ expected ∧ r = resolvedAt R id piece g offset := by
  have hfiles {file : SegmentFile} : file ∈ s.sealed ++ s.pending ++ s.actives.map ActiveWriter.file
      ↔ file ∈ s.files := by
    simp only [Store.files, mem_append]
    tauto
  rw [mem_flatMap]
  constructor
  · rintro ⟨file, hfile, hr⟩
    obtain ⟨l, hl, hchunk⟩ := mem_filterMap.mp hr
    unfold expectedChunk at hchunk
    split at hchunk
    · rename_i id piece hcontent
      split at hchunk
      · rename_i hmem
        have hat : file.frameAt l.offset = some ⟨l.frame.envelopeLen, .chunk id piece⟩ :=
          SegmentFile.frameAt_eq_some.mpr ⟨l, (mem_filter.mp hl).1, rfl, by rw [← hcontent]⟩
        exact ⟨file.segmentId, l.offset, l.frame.envelopeLen, id, piece,
          ⟨file, hfiles.mp hfile, rfl, hat⟩, hmem, (Option.some.inj hchunk).symm⟩
      · cases hchunk
    · cases hchunk
    · cases hchunk
  · rintro ⟨g, offset, envelopeLen, id, piece, ⟨file, hfile, rfl, hat⟩, hmem, rfl⟩
    obtain ⟨l, hl, rfl, hframe⟩ := SegmentFile.frameAt_eq_some.mp hat
    have hwithin := hids.within file hfile l.frame (frame_mem_of_locate hl)
    refine ⟨file, hfiles.mpr hfile, mem_filterMap.mpr
      ⟨l, mem_filter.mpr ⟨hl, decide_eq_true hwithin⟩, ?_⟩⟩
    rw [expectedChunk, hframe]
    exact if_pos hmem

theorem mem_resolveManifestChunks (hids : s.IdsMinted)
    (hsound : LocatorsSound s.files s.chunkLocators) (h : r ∈ s.resolveManifestChunks R manifest) :
    ∃ id piece g offset, ChunkOnMedia s.files id piece ∧ r = resolvedAt R id piece g offset := by
  unfold Store.resolveManifestChunks at h
  dsimp only at h
  split at h
  · obtain ⟨id, -, hr⟩ := mem_flatMap.mp h
    obtain ⟨loc, hloc, hr⟩ := mem_filterMap.mp hr
    obtain ⟨piece, g, offset, hon, heq⟩ := chunkOnMedia_of_preadResolvedChunk hids hsound hloc hr
    exact ⟨id, piece, g, offset, hon, heq⟩
  · obtain ⟨g, offset, envelopeLen, id, piece, hon, -, heq⟩ :=
      (mem_scanned hids).mp (mem_of_mem_dedupChunks h)
    exact ⟨id, piece, g, offset, ⟨g, offset, envelopeLen, hon⟩, heq⟩

theorem exists_mem_resolveManifestChunks (hids : s.IdsMinted)
    (hid : id ∈ manifest.chunks.map ChunkSlot.chunkEventId) (hon : ChunkOnMedia s.files id piece) :
    ∃ r ∈ s.resolveManifestChunks R manifest, r.frameEventId = id := by
  unfold Store.resolveManifestChunks
  dsimp only
  split
  · rename_i hall
    have hfound := all_eq_true.mp hall.2 id (mem_dedup.mpr hid)
    obtain ⟨r, hr, heq⟩ := mem_map.mp (contains_iff_mem.mp hfound)
    exact ⟨r, hr, heq⟩
  · obtain ⟨g, offset, envelopeLen, hon⟩ := hon
    have hscan := (mem_scanned (R := R) hids).mpr
      ⟨g, offset, envelopeLen, id, piece, hon, mem_dedup.mpr hid, rfl⟩
    exact exists_mem_dedupChunks hscan fun e he => absurd he not_mem_nil

theorem delivered_of_media (hids : s.IdsMinted) (hsound : LocatorsSound s.files s.chunkLocators)
    (hunique : ChunksUnique s.files) {itemId : Arr 16} {value : Bytes} {chunkSize : ℕ}
    {pieces : List ChunkPiece} {ids : List (Arr 16)} (hne : value ≠ [])
    (hdistinct : ids.Nodup) (hsplit : splitIntoPieces itemId value chunkSize = .ok pieces)
    (hmanifest : manifestFromPieces R pieces ids value = .ok manifest)
    (hon : ∀ e ∈ ids.zip pieces, ChunkOnMedia s.files e.1 e.2) :
    Delivered R itemId value chunkSize ids manifest (s.resolveManifestChunks R manifest) := by
  obtain ⟨hlen, -, hchunks⟩ := manifestFromPieces_eq_ok hmanifest
  have hslots : manifest.chunks.map ChunkSlot.chunkEventId = ids := by
    rw [hchunks, map_map]
    exact map_snd_zip hlen.ge
  have hown : ∀ r ∈ s.resolveManifestChunks R manifest, r.frameEventId ∈ ids →
      ∃ e ∈ ids.zip pieces, e.1 = r.frameEventId ∧
        r = resolvePiece R e.1 e.2 r.segmentId r.frameOffset := by
    intro r hr hmem
    obtain ⟨id, piece, g, offset, hchunk, rfl⟩ := mem_resolveManifestChunks hids hsound hr
    obtain ⟨i, hi⟩ := getElem?_of_mem hmem
    have hlt : i < pieces.length := by
      rw [hlen]
      exact (List.getElem?_eq_some_iff.mp hi).1
    have hzip : (id, pieces[i]) ∈ ids.zip pieces := by
      refine mem_of_getElem? (i := i) ?_
      rw [getElem?_zip_eq_some]
      exact ⟨hi, getElem?_eq_getElem hlt⟩
    obtain rfl := hunique id piece _ hchunk (hon _ hzip)
    exact ⟨_, hzip, rfl, rfl⟩
  refine ⟨hne, hdistinct, pieces, hsplit, hmanifest, ?_, ?_⟩
  · intro e he
    have hid : e.1 ∈ manifest.chunks.map ChunkSlot.chunkEventId := by
      rw [hslots]
      exact (of_mem_zip he).1
    obtain ⟨r, hr, heq⟩ := exists_mem_resolveManifestChunks (R := R) hids hid (hon e he)
    obtain ⟨e', he', hid', hres⟩ := hown r hr (heq ▸ (of_mem_zip he).1)
    refine ⟨r.segmentId, r.frameOffset, ?_⟩
    have hsame : e' = e := by
      obtain ⟨id, piece⟩ := e
      obtain ⟨id', piece'⟩ := e'
      obtain rfl : id' = id := hid'.trans heq
      rw [hunique id' piece piece' (hon _ he) (hon _ he')]
    rw [← hsame, ← hres]
    exact hr
  · intro r hr hmem
    obtain ⟨e, he, -, hres⟩ := hown r hr hmem
    exact ⟨e, he, hres⟩

end Chunks

end Residiuum
