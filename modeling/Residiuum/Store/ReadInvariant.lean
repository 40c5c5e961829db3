import Residiuum.Lib.Replay
import Residiuum.Store.ReadSound

/-!
# What a run of the store keeps

* **`ReadInv.get`**: under the invariant a read returns the expected value.
-/

namespace Residiuum

open ByteLib GroupLib List Option SegmentFile Store
open Std (TreeMap)

/-! ## What an entry stands for -/

/-- The record of a durable put lies at the place of its entry, and no later event of its subject in
the segment. -/
structure InlineAt (files : List SegmentFile) (k : Bytes) (lv : LiveValue) (v : Bytes) :
    Prop where
  body : lv.body = []
  offset : lv.frameOffset ≠ 0
  onMedia : ∃ envelopeLen operation, OnMedia files lv.segmentId lv.frameOffset
    ⟨envelopeLen, .item ⟨lv.eventId, .put, lv.itemId, k, v, operation⟩⟩
  last : ∀ offset envelopeLen item, OnMedia files lv.segmentId offset ⟨envelopeLen, .item item⟩ →
    item.subject = k → offset ≤ lv.frameOffset

/-- The entry holds the manifest of a value whose chunks lie on the media. -/
structure ChunkedAt (R : Runtime) (chunkSize : ℕ) (files : List SegmentFile) (lv : LiveValue)
    (v : Bytes) (ids : List (Arr 16)) (pieces : List ChunkPiece) (manifest : ChunkManifest) :
    Prop where
  nonempty : v ≠ []
  distinct : ids.Nodup
  split : splitIntoPieces lv.itemId v chunkSize = .ok pieces
  written : manifestFromPieces R pieces ids v = .ok manifest
  body : lv.body = encodeChunkManifest manifest
  onMedia : ∀ e ∈ ids.zip pieces, ChunkOnMedia files e.1 e.2

/-- A live entry stands for a value: resident, in its frame, or in chunks. -/
inductive Stored (R : Runtime) (chunkSize : ℕ) (files : List SegmentFile) (k : Bytes)
    (lv : LiveValue) (v : Bytes) : Prop
  | resident (hbody : lv.body = v) (hne : v ≠ []) (hplain : isChunkManifest v = false)
  | inline (hat : InlineAt files k lv v) (hplain : isChunkManifest v = false)
  | chunked {ids : List (Arr 16)} {pieces : List ChunkPiece} {manifest : ChunkManifest}
      (hat : ChunkedAt R chunkSize files lv v ids pieces manifest)

/-- Frames without an item event of the subject. -/
def NoItem (k : Bytes) (frames : List Frame) : Prop :=
  ∀ f ∈ frames, ∀ item, f.content = .item item → item.subject ≠ k

def ControlOnly (frames : List Frame) : Prop := ∀ f ∈ frames, ∃ len, f.content = .control len

section Grow

variable {R : Runtime} {chunkSize : ℕ} {files files' new : List SegmentFile} {g : ℕ}
  {frames : List Frame} {k v : Bytes} {lv : LiveValue}

theorem ControlOnly.noItem (h : ControlOnly frames) (k : Bytes) : NoItem k frames := by
  intro f hf item hitem
  obtain ⟨len, hlen⟩ := h f hf
  rw [hlen] at hitem
  cases hitem

theorem ChunkOnMedia.grows {id : Arr 16} {piece : ChunkPiece}
    (h : ChunkOnMedia files id piece) (hgrows : Grows files g frames new files') :
    ChunkOnMedia files' id piece := by
  obtain ⟨g', offset, envelopeLen, hon⟩ := h
  exact ⟨g', offset, envelopeLen, hgrows.onMedia hon⟩

theorem frame_mem_of_onMedia {g' offset : ℕ} {f : Frame} (h : OnMedia files g' offset f) :
    ∃ file ∈ files, file.segmentId = g' ∧ f ∈ file.frames := by
  obtain ⟨file, hfile, hid, hat⟩ := h
  exact ⟨file, hfile, hid, mem_of_frameAt hat⟩

theorem InlineAt.grows (h : InlineAt files k lv v) (hgrows : Grows files g frames new files')
    (hframes : NoItem k frames) (hnew : ∀ file ∈ new, NoItem k file.frames) :
    InlineAt files' k lv v where
  body := h.body
  offset := h.offset
  onMedia := by
    obtain ⟨envelopeLen, operation, hon⟩ := h.onMedia
    exact ⟨envelopeLen, operation, hgrows.onMedia hon⟩
  last := by
    intro offset envelopeLen item hon hk
    rcases hgrows.onMedia_cases hon with hold | ⟨-, file, -, -, l, hl, -, hl'⟩ | hfile
    · exact h.last offset envelopeLen item hold hk
    · exact absurd hk (hframes l.frame (frame_mem_of_locate hl) item (by rw [hl']))
    · obtain ⟨file, hfile, -, hmem⟩ := frame_mem_of_onMedia hfile
      exact absurd hk (hnew file hfile _ hmem item rfl)

theorem Stored.grows (h : Stored R chunkSize files k lv v)
    (hgrows : Grows files g frames new files') (hframes : NoItem k frames)
    (hnew : ∀ file ∈ new, NoItem k file.frames) : Stored R chunkSize files' k lv v := by
  cases h with
  | resident hbody hne hplain => exact .resident hbody hne hplain
  | inline hat hplain => exact .inline (hat.grows hgrows hframes hnew) hplain
  | chunked hat =>
    refine .chunked ⟨hat.nonempty, hat.distinct, hat.split, hat.written, hat.body, ?_⟩
    exact fun e he => (hat.onMedia e he).grows hgrows

theorem ChunkedAt.body_ne_nil {ids : List (Arr 16)} {pieces : List ChunkPiece}
    {manifest : ChunkManifest} (h : ChunkedAt R chunkSize files lv v ids pieces manifest) :
    lv.body ≠ [] := by
  rw [h.body]
  exact append_ne_nil_of_left_ne_nil (by simp [CHUNK_MANIFEST_MAGIC]) _

theorem Stored.inlineAt (h : Stored R chunkSize files k lv v) (hbody : lv.body = []) :
    InlineAt files k lv v := by
  cases h with
  | resident hbody' hne => exact absurd (hbody'.symm.trans hbody) hne
  | inline hat => exact hat
  | chunked hat => exact absurd hbody hat.body_ne_nil

end Grow

/-- What every run keeps. -/
structure ReadInv (R : Runtime) (mint : ℕ → Arr 16) (cfg : StoreConfig) (s : Store)
    (vals : Bytes → Option Bytes) : Prop where
  ids : s.IdsMinted
  started : ∀ file ∈ s.files, file.frames ≠ []
  refs : ∀ id : Arr 16, s.atomicValueRefs[id]? = none
  layoutSealed : ∀ (g : ℕ) (layout : ChimeraLayout), s.layouts[g]? = some layout →
    g ∈ s.sealed.map SegmentFile.segmentId
  cachedIds : ∀ (k : Bytes) (entry : CachedVerifiedBody),
    s.verifiedBodyCache.entries[k]? = some entry → ∃ i < s.minted, entry.eventId = mint i
  entryIds : ∀ (k : Bytes) (lv : LiveValue), s.index[k]? = some (.live lv) →
    ∃ i < s.minted, lv.eventId = mint i
  chunkIds : ∀ id piece, ChunkOnMedia s.files id piece → ∃ i < s.minted, id = mint i
  unique : ChunksUnique s.files
  locators : LocatorsSound s.files s.chunkLocators
  /-- Every live entry stands for the expected value, and no other value is expected. -/
  live : ∀ (k : Bytes) (lv : LiveValue), s.index[k]? = some (.live lv) →
    ∃ v, vals k = some v ∧ Stored R cfg.chunkSize s.files k lv v
  absent : ∀ k : Bytes, (∀ lv, s.index[k]? ≠ some (.live lv)) → vals k = none
  cached : ∀ (k : Bytes) (lv : LiveValue) (entry : CachedVerifiedBody),
    s.index[k]? = some (.live lv) → lv.body = [] →
    s.verifiedBodyCache.entries[k]? = some entry → entry.eventId = lv.eventId →
    vals k = some entry.body
  layout : ∀ (k : Bytes) (lv : LiveValue) (layout : ChimeraLayout) (body : Bytes),
    s.index[k]? = some (.live lv) → lv.body = [] → s.layouts[lv.segmentId]? = some layout →
    layout[k]? = some body → vals k = some body

section Inv

variable {R : Runtime} {mint : ℕ → Arr 16} {cfg : StoreConfig} {s s' : Store}
  {vals : Bytes → Option Bytes} {k : Bytes} {lv : LiveValue} {g : ℕ}
  {frames : List Frame} {file : SegmentFile} {item : ItemFrame} {offset : ℕ}

section

variable (h : ReadInv R mint cfg s vals) {v : Bytes}

include h

theorem ReadInv.resolve (hk : s.index[k]? = some (.live lv)) (hv : vals k = some v)
    (hstored : Stored R cfg.chunkSize s.files k lv v) :
    ∃ record cache, s.resolveLiveValueBody k lv = .ok (record, cache) ∧
      (lv.body = [] → record = v) ∧ (lv.body ≠ [] → record = lv.body) ∧
      (cache = s.verifiedBodyCache ∨
        lv.body = [] ∧ cache = s.verifiedBodyCache.insert k lv.eventId v) := by
  by_cases hbody : lv.body = []
  · have hat := hstored.inlineAt hbody
    obtain ⟨envelopeLen, operation, hon⟩ := hat.onMedia
    have hmatch : bodyMatching
        ⟨envelopeLen, .item ⟨lv.eventId, .put, lv.itemId, k, v, operation⟩⟩ k lv = .ok v := by
      simp [bodyMatching]
    unfold resolveLiveValueBody
    rw [if_neg (not_not_intro hbody)]
    cases hget : s.verifiedBodyCache.get k lv.eventId with
    | some body =>
      obtain ⟨entry, hentry, hid, rfl⟩ := VerifiedBodyCache.get_eq_some hget
      have hvals := h.cached k lv entry hk hbody hentry hid
      refine ⟨entry.body, _, rfl, fun _ => ?_, fun hne => absurd hbody hne, .inl rfl⟩
      exact some.inj (hvals.symm.trans hv)
    | none =>
      rw [h.refs lv.eventId]
      refine ⟨v, s.verifiedBodyCache.insert k lv.eventId v, ?_, fun _ => rfl,
        fun hne => absurd hbody hne, .inr ⟨hbody, rfl⟩⟩
      cases htail : s.tailFrameAt lv.segmentId lv.frameOffset with
      | some f =>
        rw [(s.onMedia_of_tailFrameAt htail).unique h.ids.nodup hon]
        dsimp only
        rw [hmatch]
        rfl
      | none =>
        rw [if_neg hat.offset, preadBodyForLocatorMatching,
          (s.namedFrameAt_eq_some h.ids).mpr hon]
        dsimp only
        rw [hmatch]
        rfl
  · refine ⟨lv.body, s.verifiedBodyCache, ?_, fun heq => absurd heq hbody, fun _ => rfl, .inl rfl⟩
    rw [Store.resolveLiveValueBody, if_pos hbody]

theorem ReadInv.readRecord (hk : s.index[k]? = some (.live lv)) (hv : vals k = some v)
    (hstored : Stored R cfg.chunkSize s.files k lv v) {record : Bytes}
    (hnil : lv.body = [] → record = v) (hne : lv.body ≠ [] → record = lv.body) :
    s.readRecord R k lv record = .ok (.complete v) := by
  unfold Store.readRecord
  cases hstored with
  | resident hbody hvne hplain =>
    obtain rfl := hne (hbody ▸ hvne)
    rw [hbody, if_neg hvne, hplain]
    rfl
  | inline hat hplain =>
    obtain rfl := hnil hat.body
    by_cases hempty : record = []
    · rw [if_pos hempty]
      cases hvia : s.tryGetViaChimera k lv.segmentId with
      | none => rfl
      | some body =>
        obtain ⟨layout, hlayout, hbody⟩ := bind_eq_some_iff.mp hvia
        have hvals := h.layout k lv layout body hk hat.body hlayout hbody
        rw [getD_some, some.inj (hvals.symm.trans hv)]
    · rw [if_neg hempty, hplain]
      rfl
  | chunked hat =>
    obtain rfl := hne hat.body_ne_nil
    have hlt := length_chunks_lt hat.split hat.written
    rw [if_neg hat.body_ne_nil, hat.body, isChunkManifest_encode hlt,
      decodeChunkManifest_eq_some.mpr ⟨hlt, rfl⟩]
    have hdelivered := delivered_of_media h.ids h.locators h.unique hat.nonempty hat.distinct
      hat.split hat.written hat.onMedia
    dsimp only
    rw [complete_of_delivered hdelivered]
    rfl

theorem ReadInv.get (k : Bytes) :
    (s.get R k).2 = .ok (vals k) ∧ ReadInv R mint cfg (s.get R k).1 vals := by
  by_cases hlive : ∃ lv, s.index[k]? = some (.live lv)
  · obtain ⟨lv, hk⟩ := hlive
    obtain ⟨v, hv, hstored⟩ := h.live k lv hk
    obtain ⟨record, cache, hresolve, hnil, hne, hcache⟩ := h.resolve hk hv hstored
    have hget : s.getPayloadBytes R k =
        ({ s with verifiedBodyCache := cache }, .ok (some (.complete v))) := by
      rw [getPayloadBytes, hk]
      dsimp only
      rw [hresolve]
      dsimp only
      rw [h.readRecord hk hv hstored hnil hne]
      rfl
    rw [Store.get, hget]
    refine ⟨by rw [hv]; rfl, ?_⟩
    change ReadInv R mint cfg { s with verifiedBodyCache := cache } vals
    rcases hcache with rfl | ⟨hbody, rfl⟩
    · exact h
    refine { h with
      ids := ⟨h.ids.nodup, h.ids.minted, h.ids.within⟩, cachedIds := ?_, cached := ?_ }
    · intro k' entry hentry
      rcases VerifiedBodyCache.entries_insert hentry with hold | ⟨-, hid, -⟩
      · exact h.cachedIds k' entry hold
      · rw [hid]
        exact h.entryIds k lv hk
    · intro k' lv' entry hk' hbody' hentry hid
      rcases VerifiedBodyCache.entries_insert hentry with hold | ⟨rfl, -, hbody⟩
      · exact h.cached k' lv' entry hk' hbody' hold hid
      · rw [hv, hbody]
  · have hget : s.getPayloadBytes R k = (s, .ok none) := by
      rw [Store.getPayloadBytes]
      split
      · rename_i lv hk
        exact absurd ⟨lv, hk⟩ hlive
      · rfl
    rw [Store.get, hget, h.absent k fun lv hk => hlive ⟨lv, hk⟩]
    exact ⟨rfl, h⟩

end

/-! ### Seals -/

theorem ReadInv.grows (h : ReadInv R mint cfg s vals)
    {new : List SegmentFile} (hgrows : Grows s.files g frames new s'.files)
    (hframes : ControlOnly frames) (hnew : ∀ file ∈ new, ControlOnly file.frames)
    (hstarted : ∀ file ∈ new, file.frames ≠ []) (hids : s'.IdsMinted)
    (hsealed : ∀ g ∈ s.sealed.map segmentId, g ∈ s'.sealed.map segmentId)
    (hsame : s' = { s with actives := s'.actives, pending := s'.pending, sealed := s'.sealed,
                           segmentSeq := s'.segmentSeq }) :
    ReadInv R mint cfg s' vals := by
  have hchunk {id : Arr 16} {piece : ChunkPiece} (hon : ChunkOnMedia s'.files id piece) :
      ChunkOnMedia s.files id piece := by
    obtain ⟨g', offset, envelopeLen, hon⟩ := hon
    rcases hgrows.onMedia_cases hon with hold | ⟨-, file, -, -, l, hl, -, hl'⟩ | hfile
    · exact ⟨g', offset, envelopeLen, hold⟩
    · obtain ⟨len, hlen⟩ := hframes l.frame (frame_mem_of_locate hl)
      rw [hl'] at hlen
      cases hlen
    · obtain ⟨file, hfile, -, hmem⟩ := frame_mem_of_onMedia hfile
      obtain ⟨len, hlen⟩ := hnew file hfile _ hmem
      cases hlen
  have hindex : s'.index = s.index := by rw [hsame]
  have hcache : s'.verifiedBodyCache = s.verifiedBodyCache := by rw [hsame]
  have hminted : s'.minted = s.minted := by rw [hsame]
  have hlayouts : s'.layouts = s.layouts := by rw [hsame]
  have hlocators : s'.chunkLocators = s.chunkLocators := by rw [hsame]
  have hrefs : s'.atomicValueRefs = s.atomicValueRefs := by rw [hsame]
  constructor
  case ids => exact hids
  case started =>
    intro file hfile
    rcases mem_append.mp (hgrows.mem_iff.mp hfile) with hold | hfile
    · obtain ⟨old, hmem, rfl⟩ := List.mem_map.mp hold
      unfold appendAt
      split
      · exact append_ne_nil_of_left_ne_nil (h.started old hmem) _
      · exact h.started old hmem
    · exact hstarted file hfile
  case refs => rw [hrefs]; exact h.refs
  case layoutSealed =>
    rw [hlayouts]
    exact fun g layout hlayout => hsealed g (h.layoutSealed g layout hlayout)
  case cachedIds => rw [hcache, hminted]; exact h.cachedIds
  case entryIds => rw [hindex, hminted]; exact h.entryIds
  case chunkIds =>
    rw [hminted]
    exact fun id piece hon => h.chunkIds id piece (hchunk hon)
  case unique =>
    exact fun id piece piece' hp hp' => h.unique id piece piece' (hchunk hp) (hchunk hp')
  case locators =>
    rw [hlocators]
    intro id loc hloc
    obtain ⟨envelopeLen, piece, hon⟩ := h.locators id loc hloc
    exact ⟨envelopeLen, piece, hgrows.onMedia hon⟩
  case live =>
    rw [hindex]
    intro k lv hk
    obtain ⟨v, hv, hstored⟩ := h.live k lv hk
    exact ⟨v, hv, hstored.grows hgrows (hframes.noItem k) fun file hfile =>
      (hnew file hfile).noItem k⟩
  case absent => rw [hindex]; exact h.absent
  case cached => rw [hindex, hcache]; exact h.cached
  case layout => rw [hindex, hlayouts]; exact h.layout

theorem controlOnly_start (g : ℕ) : ControlOnly (ActiveWriter.start g).file.frames := by
  intro f hf
  obtain rfl := mem_singleton.mp hf
  exact ⟨_, rfl⟩

theorem controlOnly_summary : ControlOnly [summaryFrame] := by
  intro f hf
  obtain rfl := mem_singleton.mp hf
  exact ⟨_, rfl⟩

theorem within_summary : ∀ f ∈ [summaryFrame], f.Within := by decide

theorem Store.idsMinted_of_start (hids : s.IdsMinted)
    (hgrows : Grows s.files g frames [(ActiveWriter.start (s.segmentSeq + 1)).file] s'.files)
    (hseq : s'.segmentSeq = s.segmentSeq + 1) (hframes : ∀ f ∈ frames, f.Within) :
    s'.IdsMinted := by
  refine hids.of_grows hgrows (by omega) (nodup_singleton _) (fun file hfile => ?_) hframes
    fun file hfile => ?_
  · obtain rfl := mem_singleton.mp hfile
    change s.segmentSeq < s.segmentSeq + 1 ∧ s.segmentSeq + 1 ≤ s'.segmentSeq
    omega
  · obtain rfl := mem_singleton.mp hfile
    exact within_start _

section

variable (h : ReadInv R mint cfg s vals)

include h

theorem ReadInv.rotateActive (shard : ℕ) : ReadInv R mint cfg (s.rotateActive shard) vals := by
  cases hw : s.actives[shard]? with
  | none =>
    rw [Store.rotateActive, hw]
    exact h
  | some w =>
    have hgrows := Store.grows_rotateActive hw
    have heq : s.rotateActive shard =
        { s.startActive shard with pending := s.pending ++ [w.file] } := by
      rw [Store.rotateActive, hw]
    refine h.grows hgrows (fun f hf => absurd hf not_mem_nil) ?_ ?_ ?_ ?_ ?_
    · intro file hfile
      obtain rfl := mem_singleton.mp hfile
      exact controlOnly_start _
    · intro file hfile
      obtain rfl := mem_singleton.mp hfile
      exact cons_ne_nil _ _
    · exact idsMinted_of_start h.ids hgrows (by rw [heq]; rfl) (forall_mem_nil _)
    · rw [heq]
      exact fun g hg => hg
    · rw [heq]
      rfl

theorem ReadInv.finalizeSeal (g : ℕ) : ReadInv R mint cfg (s.finalizeSeal g) vals := by
  obtain ⟨frames, hframes, hgrows⟩ := s.grows_finalizeSeal (g := g) h.ids
  refine h.grows hgrows ?_ (fun file hfile => absurd hfile not_mem_nil)
    (fun file hfile => absurd hfile not_mem_nil) ?_ ?_ rfl
  · intro f hf
    rw [hframes f hf]
    exact ⟨_, rfl⟩
  · exact h.ids.of_grows hgrows (Nat.le_refl _) nodup_nil (forall_mem_nil _)
      (fun f hf => hframes f hf ▸ within_summary _ mem_cons_self) (forall_mem_nil _)
  · intro g' hg'
    rw [Store.finalizeSeal, map_append]
    exact mem_append_left _ hg'

theorem ReadInv.publishSealed {shard : ℕ} {w : ActiveWriter} (hw : s.actives[shard]? = some w) :
    ReadInv R mint cfg (s.publishSealed shard w) vals := by
  have hgrows := Store.grows_sealActiveShard h.ids false hw
  rw [files_sealActiveShard hw] at hgrows
  refine h.grows hgrows controlOnly_summary ?_ ?_ ?_ ?_ rfl
  · intro file hfile
    obtain rfl := mem_singleton.mp hfile
    exact controlOnly_start _
  · intro file hfile
    obtain rfl := mem_singleton.mp hfile
    exact cons_ne_nil _ _
  · exact idsMinted_of_start h.ids hgrows rfl within_summary
  · intro g hg
    rw [Store.publishSealed, map_append]
    exact mem_append_left _ hg

end

/-! ### Sidecars -/

theorem ReadInv.insertLayout (h : ReadInv R mint cfg s vals) {layout : ChimeraLayout}
    (hg : g ∈ s.sealed.map segmentId)
    (hlayout : ∀ (k : Bytes) (lv : LiveValue) (body : Bytes),
      s.index[k]? = some (.live lv) → lv.body = [] → lv.segmentId = g → layout[k]? = some body →
      vals k = some body) :
    ReadInv R mint cfg { s with layouts := s.layouts.insert g layout } vals := by
  have hcases {g' : ℕ} {layout' : ChimeraLayout}
      (hl : (s.layouts.insert g layout)[g']? = some layout') :
      g = g' ∧ layout = layout' ∨ s.layouts[g']? = some layout' := by
    rw [TreeMap.getElem?_insert] at hl
    split at hl
    · rename_i heq
      exact .inl ⟨Std.LawfulEqCmp.compare_eq_iff_eq.mp heq, some.inj hl⟩
    · exact .inr hl
  refine { h with ids := ⟨h.ids.nodup, h.ids.minted, h.ids.within⟩, layoutSealed := ?_,
                  layout := ?_ }
  · intro g' layout' hl
    rcases hcases hl with ⟨rfl, -⟩ | hl
    · exact hg
    · exact h.layoutSealed g' layout' hl
  · intro k lv layout' body hk hbody hl hbody'
    rcases hcases hl with ⟨heq, rfl⟩ | hl
    · exact hlayout k lv body hk hbody heq.symm hbody'
    · exact h.layout k lv layout' body hk hbody hl hbody'

theorem mem_items (h : ∀ f ∈ file.frames, f.Within) : (offset, item) ∈ file.items ↔
      ∃ envelopeLen, file.frameAt offset = some ⟨envelopeLen, .item item⟩ := by
  rw [SegmentFile.items, mem_filterMap]
  constructor
  · rintro ⟨l, hl, hitem⟩
    unfold Located.item at hitem
    split at hitem
    · rename_i frame hcontent
      cases hitem
      exact ⟨l.frame.envelopeLen,
        frameAt_eq_some.mpr ⟨l, (mem_filter.mp hl).1, rfl, by rw [← hcontent]⟩⟩
    · cases hitem
  · rintro ⟨envelopeLen, hat⟩
    obtain ⟨l, hl, rfl, hframe⟩ := frameAt_eq_some.mp hat
    refine ⟨l, mem_filter.mpr ⟨hl, decide_eq_true (h _ (frame_mem_of_locate hl))⟩, ?_⟩
    rw [Located.item, hframe]

theorem getElem?_lastPuts (hmem : (offset, item) ∈ file.items) (hput : item.kind = .put)
    (hlast : ∀ e ∈ file.items, e.2.subject = item.subject → e.1 ≤ offset) :
    file.lastPuts[item.subject]? = some item.body := by
  have hnote (last : ChimeraLayout) (e : ℕ × ItemFrame) (k : Bytes) :
      (last.note e)[k]? = if e.2.subject = k then (if e.2.kind = .put then some e.2.body else none)
        else last[k]? := by
    unfold ChimeraLayout.note
    cases hkind : e.2.kind with
    | put =>
      rw [TreeMap.getElem?_insert]
      simp
    | delete =>
      rw [TreeMap.getElem?_erase]
      simp
  have hsorted : file.items.Pairwise fun a b => a.1 < b.1 := by
    refine List.Pairwise.filterMap _ (fun l m hlm a ha b hb => ?_)
      ((pairwise_locate 0 0 file.frames).filter _)
    unfold Located.item at ha hb
    split at ha
    · split at hb
      · cases ha
        cases hb
        exact hlm.2
      · cases hb
    · cases ha
  have hfor : ReplayLib.lastFor (fun e : ℕ × ItemFrame => e.2.subject) item.subject file.items =
      some (offset, item) :=
    ReplayLib.lastFor_eq_some hsorted hmem rfl fun e he hk => .inr (by
      have := hlast e he hk
      omega)
  rw [SegmentFile.lastPuts, ReplayLib.lookup_foldl_elim (fun (m : ChimeraLayout) k => m[k]?) hnote,
    hfor]
  exact if_pos hput

section

variable (h : ReadInv R mint cfg s vals)

include h

theorem ReadInv.enrich (g : ℕ) : ReadInv R mint cfg (s.enrich g) vals := by
  unfold Store.enrich
  split
  · exact h
  rename_i file hfind
  have hfile := mem_of_find?_eq_some hfind
  have hid : file.segmentId = g := by simpa using find?_some hfind
  split
  · exact h
  refine h.insertLayout (List.mem_map.mpr ⟨file, hfile, hid⟩) ?_
  intro k lv body hk hbody hseg hlast
  obtain ⟨v, hv, hstored⟩ := h.live k lv hk
  have hat := hstored.inlineAt hbody
  have hmem : file ∈ s.files := by
    simp only [files, mem_append]
    exact .inl (.inr hfile)
  have hwithin := h.ids.within file hmem
  have hon_iff {offset : ℕ} {f : Frame} : OnMedia s.files lv.segmentId offset f ↔
      file.frameAt offset = some f := by
    constructor
    · rintro ⟨file', hfile', hid', hat'⟩
      rwa [inj_on_of_nodup_map h.ids.nodup hfile' hmem (hid'.trans (hseg.trans hid.symm))]
        at hat'
    · exact fun hat' => ⟨file, hmem, hid.trans hseg.symm, hat'⟩
  obtain ⟨envelopeLen, operation, hon⟩ := hat.onMedia
  have hitem := (mem_items hwithin).mpr ⟨envelopeLen, hon_iff.mp hon⟩
  have hput := getElem?_lastPuts hitem rfl fun e he hk' => by
    obtain ⟨envelopeLen', hat'⟩ := (mem_items hwithin).mp (Prod.mk.eta (p := e) ▸ he)
    exact hat.last e.1 envelopeLen' e.2 (hon_iff.mpr hat') hk'
  rw [hv]
  exact congrArg some (some.inj (hput.symm.trans hlast))

theorem ReadInv.writeChimeraForSealed (hg : g ∈ s.sealed.map segmentId) :
    ReadInv R mint cfg (s.writeChimeraForSealed g) vals := by
  unfold Store.writeChimeraForSealed
  split
  · exact h
  rename_i pairs hpairs
  split
  · exact h
  refine h.insertLayout hg ?_
  intro k lv body hk hbody hseg hlayout
  have hinsert (m : ChimeraLayout) (pair : Bytes × Bytes) (k : Bytes) :
      (m.insert pair.1 pair.2)[k]? = if pair.1 = k then some pair.2 else m[k]? := by
    rw [TreeMap.getElem?_insert]
    simp
  rw [ReplayLib.lookup_foldl (fun (m : ChimeraLayout) k => m[k]?) hinsert,
    TreeMap.getElem?_emptyc, or_none] at hlayout
  obtain ⟨⟨k', body'⟩, hfor, rfl⟩ := map_eq_some_iff.mp hlayout
  obtain ⟨hmem, rfl⟩ := ReplayLib.mem_of_lastFor hfor
  obtain ⟨⟨k'', lv'⟩, he, hpair⟩ := (mem_mapM_ok hpairs).mp hmem
  have hlive := PrimaryIndex.mem_liveEntries.mp (mem_filter.mp he).1
  obtain ⟨body, hread, hpair⟩ := map_eq_ok.mp hpair
  cases hpair
  obtain rfl : lv' = lv := by
    rw [hk] at hlive
    exact (IndexEntry.live.inj (some.inj hlive)).symm
  obtain ⟨v, hv, hstored⟩ := h.live _ lv' hk
  obtain ⟨envelopeLen, operation, hon⟩ := (hstored.inlineAt hbody).onMedia
  rw [if_neg (not_not_intro hbody), preadBodyForLocator,
    (s.namedFrameAt_eq_some h.ids).mpr hon] at hread
  rw [hv]
  exact congrArg some (Except.ok.inj hread)

theorem ReadInv.sealActiveShard (sidecar : Bool) (shard : ℕ) :
    ReadInv R mint cfg (s.sealActiveShard sidecar shard) vals := by
  cases hw : s.actives[shard]? with
  | none =>
    rw [Store.sealActiveShard, hw]
    exact h
  | some w =>
    rw [Store.sealActiveShard, hw]
    dsimp only
    split
    · refine (h.publishSealed hw).writeChimeraForSealed ?_
      rw [Store.publishSealed, map_append]
      exact mem_append_right _ mem_cons_self
    · exact h.publishSealed hw

theorem ReadInv.sealActive (sidecar : Bool) : ReadInv R mint cfg (s.sealActive sidecar) vals := by
  have hwait : ReadInv R mint cfg s.waitSealsApplied vals :=
    List.foldlRecOn (motive := fun s => ReadInv R mint cfg s vals) _ _ h
      fun s hs g _ => hs.finalizeSeal g
  exact List.foldlRecOn (motive := fun s => ReadInv R mint cfg s vals) _ _ hwait
    fun s hs shard _ => hs.sealActiveShard sidecar shard

end

end Inv

end Residiuum
