import Residiuum.Store.ReadInvariant

/-!
# Read your writes

Runs of puts, deletes, seals, background work and reads on an open store, and what a read returns.

* **`ReadInv.memoryWrite`**, **`ReadInv.durableWrite`**: writes keep the invariant.
* **`read_your_writes`**: in a run that puts no inline value that looks like a manifest, no empty
  value in memory mode and no chunks above the limits, every read returns the last accepted put, and
  nothing after a delete.
-/

namespace Residiuum

open ByteLib Function GroupLib IndexEvent List Nat Store
open Std (TreeMap)

/-! ## Runs -/

/-- Calls on an open store, and the background work between them. -/
inductive StoreCall
  | put (subject value : Bytes) (mode : DurabilityMode) (lens : EnvelopeLens)
  | delete (subject : Bytes) (mode : DurabilityMode) (lens : EnvelopeLens)
  /-- The automatic seal of a full segment. -/
  | rotate (shard : ℕ)
  | finalize (segmentId : ℕ)
  | enrich (segmentId : ℕ)
  | sealActive (sidecar : Bool)
  | get (subject : Bytes)
  deriving DecidableEq, Repr

section Runs

variable (R : Runtime) (mint : ℕ → Arr 16) (cfg : StoreConfig)

def Store.step (s : Store) : StoreCall → Store
  | .put subject value mode lens => (s.put R mint cfg subject value mode none lens).1
  | .delete subject mode lens => (s.delete R mint cfg subject mode none lens).1
  | .rotate shard => s.rotateActive shard
  | .finalize segmentId => s.finalizeSeal segmentId
  | .enrich segmentId => s.enrich segmentId
  | .sealActive sidecar => s.sealActive sidecar
  | .get subject => (s.get R subject).1

/-- The expected values after a call: an accepted write decides that of its subject. -/
def Store.noteCall (s : Store) (vals : Bytes → Option Bytes) :
    StoreCall → Bytes → Option Bytes
  | .put subject value mode lens =>
    if (s.put R mint cfg subject value mode none lens).2.isOk then
      Function.update vals subject (some value)
    else vals
  | .delete subject mode lens =>
    if (s.delete R mint cfg subject mode none lens).2.isOk then Function.update vals subject none
    else vals
  | _ => vals

/-- The store after a list of calls, and the values expected of it. -/
def Store.runCalls (calls : List StoreCall) : Store × (Bytes → Option Bytes) :=
  calls.foldl (fun st call => (st.1.step R mint cfg call, st.1.noteCall R mint cfg st.2 call))
    (Store.create cfg, fun _ => none)

/-- The chunk frames and the manifest of a value of `len` bytes are within the limits. -/
def ChunksWithin (cfg : StoreConfig) (lens : EnvelopeLens) (len : ℕ) : Prop :=
  let limits := SafetyLimits.draftDefaults
  limits.Accepts lens.chunk (CHUNK_BODY_HEADER_LEN + min len cfg.chunkSize) ∧
    limits.Accepts lens.item (52 + 24 * ((len + cfg.chunkSize - 1) / cfg.chunkSize))

instance decidableChunksWithin (cfg : StoreConfig) (lens : EnvelopeLens) (len : ℕ) :
    Decidable (ChunksWithin cfg lens len) :=
  inferInstanceAs (Decidable ((_ ∧ _ ∧ _) ∧ _ ∧ _ ∧ _))

/-- A put of no empty value in memory mode, of no inline value that looks like a manifest, and of no
value whose chunks or manifest are above the limits. -/
def PlainPut (cfg : StoreConfig) (value : Bytes) (mode : DurabilityMode) (lens : EnvelopeLens) :
    Prop :=
  (mode = .memory → value ≠ []) ∧
    if mode = .memory ∨ cfg.policy.admit value.length ≠ .ok .chunked then
      isChunkManifest value = false
    else ChunksWithin cfg lens value.length

instance decidablePlainPut (cfg : StoreConfig) (value : Bytes) (mode : DurabilityMode)
    (lens : EnvelopeLens) : Decidable (PlainPut cfg value mode lens) :=
  inferInstanceAs (Decidable (_ ∧ ite _ _ _))

/-- Every put is plain. -/
def StoreCall.Plain (cfg : StoreConfig) : StoreCall → Prop
  | .put _ value mode lens => PlainPut cfg value mode lens
  | _ => True

instance decidablePlain (cfg : StoreConfig) : DecidablePred (StoreCall.Plain cfg) := fun call =>
  match call with
  | .put _ value mode lens => decidablePlainPut cfg value mode lens
  | .delete .. | .rotate _ | .finalize _ | .enrich _ | .sealActive _ | .get _ =>
    inferInstanceAs (Decidable True)

end Runs

/-! ## Writes -/

section Inv

variable {R : Runtime} {mint : ℕ → Arr 16} {cfg : StoreConfig} {s s' : Store}
  {vals : Bytes → Option Bytes} {k : Bytes} {lv : LiveValue} {e : IndexEvent}
  {v : Bytes} {files : List SegmentFile} {n : ℕ}

theorem IndexEvent.entry_eq_live (h : e.entry = .live lv) : e.kind = .put ∧
      lv = ⟨e.body, e.itemId, e.eventId, e.segmentId, e.writerSequence, e.frameOffset⟩ := by
  unfold entry at h
  split at h
  · rename_i hkind
    exact ⟨hkind, (IndexEntry.live.inj h).symm⟩
  · cases h

def writtenValue (kind : EventKind) (value : Bytes) : Option Bytes :=
  match kind with
  | .put => some value
  | .delete => none

section

variable (h : ReadInv R mint cfg s vals)

include h

theorem ReadInv.live_applyEvent
    (hkept : ∀ k lv v, k ≠ e.subject → Stored R cfg.chunkSize s.files k lv v →
      Stored R cfg.chunkSize files k lv v)
    (hput : ∀ lv, e.entry = .live lv → Stored R cfg.chunkSize files e.subject lv v)
    (hk : (s.index.applyEvent e)[k]? = some (.live lv)) :
    ∃ v', Function.update vals e.subject (writtenValue e.kind v) k = some v' ∧
      Stored R cfg.chunkSize files k lv v' := by
  rcases PrimaryIndex.applyEvent_eq_some hk with ⟨rfl, hentry⟩ | ⟨hne, hold⟩
  · refine ⟨v, ?_, hput lv hentry⟩
    rw [update_self, (IndexEvent.entry_eq_live hentry).1]
    rfl
  · obtain ⟨v', hv', hstored⟩ := h.live k lv hold
    exact ⟨v', by rw [update_of_ne hne.symm, hv'], hkept k lv v' hne.symm hstored⟩

theorem ReadInv.absent_applyEvent (hk : ∀ lv, (s.index.applyEvent e)[k]? ≠ some (.live lv)) :
    Function.update vals e.subject (writtenValue e.kind v) k = none := by
  simp only [PrimaryIndex.getElem?_applyEvent] at hk
  by_cases heq : e.subject = k
  · subst heq
    rw [update_self]
    cases hkind : e.kind with
    | delete => rfl
    | put =>
      refine absurd ?_ (hk ⟨e.body, e.itemId, e.eventId, e.segmentId, e.writerSequence,
        e.frameOffset⟩)
      rw [if_pos rfl, entry, hkind]
  · simp only [if_neg heq] at hk
    rw [update_of_ne (Ne.symm heq)]
    exact h.absent k hk

theorem ReadInv.entryIds_applyEvent (hn : s.minted ≤ n) (hid : ∃ i < n, e.eventId = mint i)
    (hk : (s.index.applyEvent e)[k]? = some (.live lv)) : ∃ i < n, lv.eventId = mint i := by
  rcases PrimaryIndex.applyEvent_eq_some hk with ⟨rfl, hentry⟩ | ⟨-, hold⟩
  · rw [(IndexEvent.entry_eq_live hentry).2]
    exact hid
  · obtain ⟨i, hi, heq⟩ := h.entryIds k lv hold
    exact ⟨i, by omega, heq⟩

theorem ReadInv.memoryWrite (e : IndexEvent) (hid : e.eventId = mint s.minted)
    (hput : e.kind = .put → e.body ≠ [] ∧ isChunkManifest e.body = false) :
    ReadInv R mint cfg (s.memoryWrite e)
      (Function.update vals e.subject (writtenValue e.kind e.body)) := by
  have hresident {k : Bytes} {lv : LiveValue}
      (hk : (s.index.applyEvent e)[k]? = some (.live lv)) (hbody : lv.body = []) :
      e.subject ≠ k ∧ s.index[k]? = some (.live lv) := by
    rcases PrimaryIndex.applyEvent_eq_some hk with ⟨rfl, hentry⟩ | hold
    · obtain ⟨hkind, rfl⟩ := IndexEvent.entry_eq_live hentry
      exact absurd hbody (hput hkind).1
    · exact hold
  constructor
  case ids => exact ⟨h.ids.nodup, h.ids.minted, h.ids.within⟩
  case started => exact h.started
  case refs => exact h.refs
  case layoutSealed => exact h.layoutSealed
  case cachedIds =>
    intro k entry hentry
    obtain ⟨i, hi, heq⟩ := h.cachedIds k entry hentry
    exact ⟨i, lt_succ_of_lt hi, heq⟩
  case entryIds =>
    exact fun k lv hk =>
      h.entryIds_applyEvent (le_succ _) ⟨s.minted, lt_succ_self _, hid⟩ hk
  case chunkIds =>
    intro id piece hon
    obtain ⟨i, hi, heq⟩ := h.chunkIds id piece hon
    exact ⟨i, lt_succ_of_lt hi, heq⟩
  case unique => exact h.unique
  case locators => exact h.locators
  case live =>
    refine fun k lv hk => h.live_applyEvent (fun k lv v _ hstored => hstored) ?_ hk
    intro lv hentry
    obtain ⟨hkind, rfl⟩ := IndexEvent.entry_eq_live hentry
    exact .resident rfl (hput hkind).1 (hput hkind).2
  case absent => exact fun k hk => h.absent_applyEvent hk
  case cached =>
    intro k lv entry hk hbody hentry heq
    obtain ⟨hne, hold⟩ := hresident hk hbody
    rw [update_of_ne hne.symm]
    exact h.cached k lv entry hold hbody hentry heq
  case layout =>
    intro k lv layout body hk hbody hlayout hmem
    obtain ⟨hne, hold⟩ := hresident hk hbody
    rw [update_of_ne hne.symm]
    exact h.layout k lv layout body hold hbody hlayout hmem

end

theorem locatorsSound_recordChunks {locators : ChunkLocatorMap}
    {g : ℕ} {ls : List Located} (h : LocatorsSound files locators)
    (hls : ∀ l ∈ ls, OnMedia files g l.offset l.frame) :
    LocatorsSound files (ls.foldl (Located.recordChunk R g) locators) := by
  refine List.foldlRecOn (motive := LocatorsSound files) ls _ h fun locators hsound l hl => ?_
  unfold Located.recordChunk
  split
  · rename_i eventId piece hcontent
    intro id loc hloc
    rcases mem_pushEntry.mp hloc with hold | ⟨rfl, rfl⟩
    · exact hsound id loc hold
    · have hframe : l.frame = ⟨l.frame.envelopeLen, .chunk eventId piece⟩ := by rw [← hcontent]
      exact ⟨l.frame.envelopeLen, piece, hframe ▸ hls l hl⟩
  · exact hsound

/-- What a durable write draws from the stream of ids: one for its event, and distinct ones for its
chunks. -/
structure DrawsFresh (mint : ℕ → Arr 16) (s : Store) (a : Appended) (draws : ℕ)
    (entries : List (Arr 16 × ChunkPiece)) : Prop where
  eventId : ∃ i, s.minted ≤ i ∧ i < s.minted + draws ∧ a.item.eventId = mint i
  chunks : ∃ envelopeLen, a.chunks = chunkFrames envelopeLen entries
  chunkIds : ∀ e ∈ entries, ∃ i, s.minted ≤ i ∧ i < s.minted + draws ∧ e.1 = mint i
  distinct : (entries.map Prod.fst).Nodup

section Durable

variable {shard draws : ℕ} {w : ActiveWriter} {a : Appended} {mode : DurabilityMode}
  {entries : List (Arr 16 × ChunkPiece)} {f : Frame}

theorem grows_durableWrite (hids : s.IdsMinted) (hw : s.actives[shard]? = some w) (R : Runtime)
    (a : Appended) (mode : DurabilityMode) (draws : ℕ) :
    Grows s.files w.file.segmentId a.frames [] (s.durableWrite R shard w a mode draws).files :=
  Store.grows_write hids hw a.frames mode

theorem mem_chunkFrames {envelopeLen : ℕ} : f ∈ chunkFrames envelopeLen entries ↔
      ∃ id piece, (id, piece) ∈ entries ∧ f = ⟨envelopeLen, .chunk id piece⟩ := by
  rw [chunkFrames, mem_map]
  constructor
  · rintro ⟨⟨id, piece⟩, hmem, rfl⟩
    exact ⟨id, piece, hmem, rfl⟩
  · rintro ⟨id, piece, hmem, rfl⟩
    exact ⟨(id, piece), hmem, rfl⟩

theorem exists_mem_locate {fs : List Frame} (h : f ∈ fs) (sequence offset : ℕ) :
    ∃ l ∈ locate sequence offset fs, l.frame = f := by
  induction fs generalizing sequence offset with
  | nil => exact absurd h not_mem_nil
  | cons first fs ih =>
    rcases mem_cons.mp h with rfl | h
    · exact ⟨_, mem_cons_self, rfl⟩
    · obtain ⟨l, hl, hframe⟩ := ih h (sequence + 1) (offset + first.len)
      exact ⟨l, mem_cons_of_mem _ hl, hframe⟩

theorem onMedia_durableWrite (hids : s.IdsMinted) (hw : s.actives[shard]? = some w) (R : Runtime)
    (a : Appended) (mode : DurabilityMode) (draws : ℕ) :
    OnMedia (s.durableWrite R shard w a mode draws).files w.file.segmentId
      (w.file.byteLen + framesLen a.chunks) ⟨a.envelopeLen, .item a.item⟩ := by
  have hl : (⟨w.file.frames.length + a.chunks.length, w.file.byteLen + framesLen a.chunks,
      ⟨a.envelopeLen, .item a.item⟩⟩ : Located) ∈
        locate w.file.frames.length w.file.byteLen a.frames := by
    rw [Appended.frames, locate_append]
    exact mem_append_right _ mem_cons_self
  exact (grows_durableWrite hids hw R a mode draws).onMedia_new (s.mem_files_active hw) rfl hl

theorem chunkOnMedia_durableWrite (hids : s.IdsMinted) (hw : s.actives[shard]? = some w)
    (hfresh : DrawsFresh mint s a draws entries) {e : Arr 16 × ChunkPiece} (he : e ∈ entries) :
    ChunkOnMedia (s.durableWrite R shard w a mode draws).files e.1 e.2 := by
  obtain ⟨envelopeLen, hchunks⟩ := hfresh.chunks
  have hmem : (⟨envelopeLen, .chunk e.1 e.2⟩ : Frame) ∈ a.frames := by
    rw [Appended.frames, hchunks]
    exact mem_append_left _ (mem_chunkFrames.mpr ⟨e.1, e.2, he, rfl⟩)
  obtain ⟨l, hl, hframe⟩ := exists_mem_locate hmem w.file.frames.length w.file.byteLen
  have hon := (grows_durableWrite hids hw R a mode draws).onMedia_new
    (s.mem_files_active hw) rfl hl
  rw [hframe] at hon
  exact ⟨_, _, _, hon⟩

theorem chunkOnMedia_durableWrite_cases (hids : s.IdsMinted) (hw : s.actives[shard]? = some w)
    (hfresh : DrawsFresh mint s a draws entries) {id : Arr 16} {piece : ChunkPiece}
    (hon : ChunkOnMedia (s.durableWrite R shard w a mode draws).files id piece) :
    ChunkOnMedia s.files id piece ∨ (id, piece) ∈ entries := by
  obtain ⟨g, offset, envelopeLen, hon⟩ := hon
  rcases (grows_durableWrite hids hw R a mode draws).onMedia_cases hon with
    hold | ⟨-, file, -, -, l, hl, -, hl'⟩ | ⟨file, hfile, -⟩
  · exact .inl ⟨g, offset, envelopeLen, hold⟩
  · obtain ⟨envelopeLen', hchunks⟩ := hfresh.chunks
    have hmem := frame_mem_of_locate hl
    rw [hl', Appended.frames, hchunks, mem_append, mem_singleton] at hmem
    rcases hmem with hmem | hitem
    · obtain ⟨id', piece', hmem, heq⟩ := mem_chunkFrames.mp hmem
      obtain ⟨-, heq⟩ := Frame.mk.inj heq
      obtain ⟨rfl, rfl⟩ := FrameContent.chunk.inj heq
      exact .inr hmem
    · cases (Frame.mk.inj hitem).2
  · exact absurd hfile not_mem_nil

theorem noItem_frames (hfresh : DrawsFresh mint s a draws entries) (hk : k ≠ a.item.subject) :
    NoItem k a.frames := by
  intro f hf item hitem
  obtain ⟨envelopeLen, hchunks⟩ := hfresh.chunks
  rw [Appended.frames, hchunks, mem_append, mem_singleton] at hf
  rcases hf with hf | rfl
  · obtain ⟨id, piece, -, rfl⟩ := mem_chunkFrames.mp hf
    cases hitem
  · obtain rfl := FrameContent.item.inj hitem
    exact hk.symm

theorem inlineAt_durableWrite (h : ReadInv R mint cfg s vals) (hw : s.actives[shard]? = some w)
    (hchunks : a.chunks = []) (hresident : a.resident = []) (hkind : a.item.kind = .put)
    (hlv : (a.event w.file).entry = .live lv) :
    InlineAt (s.durableWrite R shard w a mode draws).files a.item.subject lv a.item.body := by
  have hgrows := grows_durableWrite h.ids hw R a mode draws
  have hon := onMedia_durableWrite h.ids hw R a mode draws
  obtain ⟨-, rfl⟩ := IndexEvent.entry_eq_live hlv
  constructor
  case body => exact hresident
  case offset =>
    have hne := h.started _ (s.mem_files_active hw)
    obtain ⟨f, fs, hfs⟩ := exists_cons_of_ne_nil hne
    have hpos := f.len_pos
    change w.file.byteLen + framesLen a.chunks ≠ 0
    rw [SegmentFile.byteLen, hfs, framesLen_cons]
    omega
  case onMedia =>
    refine ⟨a.envelopeLen, a.item.operation, ?_⟩
    have hitem : (⟨a.item.eventId, .put, a.item.itemId, a.item.subject, a.item.body,
        a.item.operation⟩ : ItemFrame) = a.item := by rw [← hkind]
    change OnMedia _ w.file.segmentId (w.file.byteLen + framesLen a.chunks) ⟨_, .item
      ⟨a.item.eventId, .put, a.item.itemId, a.item.subject, a.item.body, a.item.operation⟩⟩
    rw [hitem]
    exact hon
  case last =>
    intro offset envelopeLen item hon' _
    change offset ≤ w.file.byteLen + framesLen a.chunks
    rcases hgrows.onMedia_cases hon' with
      ⟨file, hfile, hid, hat⟩ | ⟨-, file, hfile, hid, l, hl, rfl, -⟩ | ⟨file, hfile, -⟩
    · obtain rfl := inj_on_of_nodup_map h.ids.nodup hfile (s.mem_files_active hw) hid
      obtain ⟨l, hl, rfl, -⟩ := SegmentFile.frameAt_eq_some.mp hat
      have := locate_bounds hl
      rw [SegmentFile.byteLen]
      omega
    · obtain rfl := inj_on_of_nodup_map h.ids.nodup hfile (s.mem_files_active hw) hid
      rw [Appended.frames, hchunks] at hl
      obtain rfl := mem_singleton.mp hl
      exact le_add_right _ _
    · exact absurd hfile not_mem_nil

theorem ReadInv.durableWrite (h : ReadInv R mint cfg s vals) (hw : s.actives[shard]? = some w)
    (hinj : ∀ i < s.minted + draws, ∀ j < s.minted + draws, mint i = mint j → i = j)
    (hfresh : DrawsFresh mint s a draws entries) (hwithin : ∀ f ∈ a.frames, f.Within)
    (hput : ∀ lv, (a.event w.file).entry = .live lv →
      Stored R cfg.chunkSize (s.durableWrite R shard w a mode draws).files a.item.subject lv v) :
    ReadInv R mint cfg (s.durableWrite R shard w a mode draws)
      (Function.update vals a.item.subject (writtenValue a.item.kind v)) := by
  have hgrows := grows_durableWrite h.ids hw R a mode draws
  have hcases {id : Arr 16} {piece : ChunkPiece}
      (hon : ChunkOnMedia (s.durableWrite R shard w a mode draws).files id piece) :
      ChunkOnMedia s.files id piece ∨ (id, piece) ∈ entries :=
    chunkOnMedia_durableWrite_cases h.ids hw hfresh hon
  -- An id drawn now differs from every id of the store.
  have hnew {id : Arr 16} (hold : ∃ i < s.minted, id = mint i)
      (hdrawn : ∃ i, s.minted ≤ i ∧ i < s.minted + draws ∧ id = mint i) : False := by
    obtain ⟨i, hi, rfl⟩ := hold
    obtain ⟨j, hj, hj', heq⟩ := hdrawn
    have := hinj i (by omega) j hj' heq
    omega
  constructor
  case ids =>
    exact h.ids.of_grows hgrows (Nat.le_refl _) nodup_nil (forall_mem_nil _) hwithin
      (forall_mem_nil _)
  case started =>
    intro file hfile
    rw [hgrows.mem_iff, append_nil] at hfile
    obtain ⟨old, hmem, rfl⟩ := mem_map.mp hfile
    unfold appendAt
    split
    · exact append_ne_nil_of_left_ne_nil (h.started old hmem) _
    · exact h.started old hmem
  case refs => exact h.refs
  case layoutSealed => exact h.layoutSealed
  case cachedIds =>
    intro k entry hentry
    obtain ⟨i, hi, heq⟩ := h.cachedIds k entry hentry
    exact ⟨i, Nat.lt_add_right draws hi, heq⟩
  case entryIds =>
    refine fun k lv hk => h.entryIds_applyEvent (Nat.le_add_right _ draws) ?_ hk
    obtain ⟨i, -, hi, heq⟩ := hfresh.eventId
    exact ⟨i, hi, heq⟩
  case chunkIds =>
    intro id piece hon
    rcases hcases hon with hold | hmem
    · obtain ⟨i, hi, heq⟩ := h.chunkIds id piece hold
      exact ⟨i, Nat.lt_add_right draws hi, heq⟩
    · obtain ⟨i, -, hi, heq⟩ := hfresh.chunkIds _ hmem
      exact ⟨i, hi, heq⟩
  case unique =>
    intro id piece piece' hon hon'
    rcases hcases hon with hold | hmem <;> rcases hcases hon' with hold' | hmem'
    · exact h.unique id piece piece' hold hold'
    · exact (hnew (h.chunkIds id piece hold) (hfresh.chunkIds _ hmem')).elim
    · exact (hnew (h.chunkIds id piece' hold') (hfresh.chunkIds _ hmem)).elim
    · exact (Prod.mk.inj (inj_on_of_nodup_map hfresh.distinct hmem hmem' rfl)).2
  case locators =>
    refine locatorsSound_recordChunks ?_ fun l hl => ?_
    · intro id loc hloc
      obtain ⟨envelopeLen, piece, hon⟩ := h.locators id loc hloc
      exact ⟨envelopeLen, piece, hgrows.onMedia hon⟩
    · refine hgrows.onMedia_new (s.mem_files_active hw) rfl ?_
      rw [Appended.frames, locate_append]
      exact mem_append_left _ hl
  case live =>
    refine fun k lv hk => h.live_applyEvent (fun k lv v hne hstored => ?_) hput hk
    exact hstored.grows hgrows (noItem_frames hfresh hne) fun file hfile =>
      absurd hfile not_mem_nil
  case absent => exact fun k hk => h.absent_applyEvent hk
  case cached =>
    intro k lv entry hk hbody hentry heq
    rcases PrimaryIndex.applyEvent_eq_some hk with ⟨rfl, hlv⟩ | ⟨hne, hold⟩
    · refine (hnew (h.cachedIds _ entry hentry) ?_).elim
      rw [heq, (entry_eq_live hlv).2]
      exact hfresh.eventId
    · rw [update_of_ne (show k ≠ a.item.subject from Ne.symm hne)]
      exact h.cached k lv entry hold hbody hentry heq
  case layout =>
    intro k lv layout body hk hbody hlayout hmem
    rcases PrimaryIndex.applyEvent_eq_some hk with ⟨rfl, hlv⟩ | ⟨hne, hold⟩
    · -- The active segment has no sidecar.
      rw [(IndexEvent.entry_eq_live hlv).2] at hlayout
      have hsealed := h.layoutSealed _ layout hlayout
      refine absurd ?_ (s.active_notMem h.ids hw)
      rw [map_append]
      exact mem_append_left _ hsealed
    · rw [update_of_ne (show k ≠ a.item.subject from Ne.symm hne)]
      exact h.layout k lv layout body hold hbody hlayout hmem

end Durable

/-! ## Steps -/

theorem ReadInv.poisoned (h : ReadInv R mint cfg s vals) (poisoned : Bool) :
    ReadInv R mint cfg { s with awoWriterPoisoned := poisoned } vals :=
  { h with ids := ⟨h.ids.nodup, h.ids.minted, h.ids.within⟩ }

variable {subject value : Bytes} {mode : DurabilityMode} {lens : EnvelopeLens}
  {operation : Option (Arr 16 × Arr 32)} {receipt : WriteReceipt} {kind : EventKind}

theorem ReadInv.writeEvent (h : ReadInv R mint cfg s vals)
    (hwrite : s.writeEvent R mint cfg subject kind value mode operation lens = .ok (s', receipt))
    (hput : kind = .put → (mode = .memory → value ≠ []) ∧ isChunkManifest value = false)
    (hinj : ∀ i < s'.minted, ∀ j < s'.minted, mint i = mint j → i = j) :
    ReadInv R mint cfg s' (Function.update vals subject (writtenValue kind value)) := by
  obtain ⟨w, hw, -, ⟨hmode, rfl⟩ | ⟨-, hwithin, rfl⟩⟩ := writeEvent_eq_ok hwrite
  · refine h.memoryWrite _ rfl fun hkind => ?_
    exact ⟨(hput hkind).1 hmode, (hput hkind).2⟩
  · have hfresh : DrawsFresh mint s
        (.inline lens ⟨mint s.minted, kind, s.itemIdFor R subject, subject, value, operation⟩)
        1 [] :=
      ⟨⟨s.minted, Nat.le_refl _, lt_succ_self _, rfl⟩, ⟨0, rfl⟩,
        fun e he => absurd he not_mem_nil, nodup_nil⟩
    refine h.durableWrite hw hinj hfresh (forall_mem_singleton.mpr hwithin) fun lv hlv => ?_
    have hkind : kind = .put := (entry_eq_live hlv).1
    exact .inline (inlineAt_durableWrite h hw rfl rfl hkind hlv) (hput hkind).2

theorem nodup_drawn {m N : ℕ} (hN : m + n ≤ N) (hinj : ∀ i < N, ∀ j < N, mint i = mint j → i = j) :
    ((List.range n).map fun i => mint (m + i)).Nodup := by
  rw [nodup_map_iff_inj_on nodup_range]
  intro i hi j hj heq
  rw [mem_range] at hi hj
  have := hinj (m + i) (by omega) (m + j) (by omega) heq
  omega

theorem within_chunked (item : ItemFrame) {itemId : Arr 16} {pieces : List ChunkPiece}
    {ids : List (Arr 16)} {manifest : ChunkManifest} (hne : value ≠ [])
    (hfits : ChunksWithin cfg lens value.length)
    (hsplit : splitIntoPieces itemId value cfg.chunkSize = .ok pieces)
    (hmanifest : manifestFromPieces R pieces ids value = .ok manifest)
    (hbody : item.body = encodeChunkManifest manifest) :
    ∀ f ∈ (Appended.chunked lens (ids.zip pieces) item).frames, f.Within := by
  obtain ⟨hcount, hsize⟩ := size_of_splitIntoPieces hne hsplit
  obtain ⟨hlen, -, hchunks⟩ := manifestFromPieces_eq_ok hmanifest
  obtain ⟨⟨henvelope, hpiece, htotal⟩, hitem⟩ := hfits
  intro f hf
  rcases mem_append.mp hf with hf | hf
  · obtain ⟨id, piece, hmem, rfl⟩ := mem_chunkFrames.mp hf
    have hle := hsize piece (of_mem_zip hmem).2
    have hlen : (encodeChunkBody piece).length = CHUNK_BODY_HEADER_LEN + piece.body.length := by
      simp [encodeChunkBody, CHUNK_BODY_HEADER_LEN, piece.itemId.2]
      omega
    refine ⟨henvelope, ?_, ?_⟩
    · change (encodeChunkBody piece).length ≤ _
      omega
    · change 120 + lens.chunk + (encodeChunkBody piece).length ≤ _
      omega
  · have hlen : item.body.length =
        52 + 24 * ((value.length + cfg.chunkSize - 1) / cfg.chunkSize) := by
      rw [hbody, encodeChunkManifest_eq, length_append, length_manifestHeader,
        length_flatMap_encodeSlot, hchunks, length_map, length_zip, hlen, min_self, ← hlen, hcount]
    rw [mem_singleton.mp hf, Frame.Within]
    change SafetyLimits.draftDefaults.Accepts lens.item item.body.length
    rw [hlen]
    exact hitem

section

variable (h : ReadInv R mint cfg s vals)

include h

theorem ReadInv.writeChunkedPut (hne : value ≠ []) (hfits : ChunksWithin cfg lens value.length)
    (hwrite : s.writeChunkedPut R mint cfg subject value mode operation lens = .ok (s', receipt))
    (hinj : ∀ i < s'.minted, ∀ j < s'.minted, mint i = mint j → i = j) :
    ReadInv R mint cfg s' (Function.update vals subject (some value)) := by
  obtain ⟨w, pieces, manifest, ids, hw, hids, hsplit, hmanifest, -, rfl⟩ :=
    writeChunkedPut_eq_ok hwrite
  have hnodup : ids.Nodup := by
    rw [hids]
    exact nodup_drawn (Nat.add_le_add_left (le_succ _) _) hinj
  have hlen : ids.length = pieces.length := by rw [hids, length_map, length_range]
  have hfst : (ids.zip pieces).map Prod.fst = ids := map_fst_zip hlen.le
  have hfresh : DrawsFresh mint s
      (.chunked lens (ids.zip pieces) ⟨mint (s.minted + pieces.length), .put,
        s.itemIdFor R subject, subject, encodeChunkManifest manifest, operation⟩)
      (pieces.length + 1) (ids.zip pieces) := by
    refine ⟨⟨s.minted + pieces.length, Nat.le_add_right _ _, lt_succ_self _, rfl⟩,
      ⟨lens.chunk, rfl⟩, fun e he => ?_, hfst.symm ▸ hnodup⟩
    have hmem : e.1 ∈ ids := hfst ▸ mem_map_of_mem he
    rw [hids] at hmem
    obtain ⟨i, hi, heq⟩ := mem_map.mp hmem
    rw [mem_range] at hi
    exact ⟨s.minted + i, by omega, by omega, heq.symm⟩
  have hwithin := within_chunked ⟨mint (s.minted + pieces.length), .put, s.itemIdFor R subject,
    subject, encodeChunkManifest manifest, operation⟩ hne hfits hsplit hmanifest rfl
  refine h.durableWrite hw hinj hfresh hwithin fun lv hlv => ?_
  obtain ⟨-, rfl⟩ := entry_eq_live hlv
  refine .chunked ⟨hne, hnodup, hsplit, hmanifest, rfl, fun e he => ?_⟩
  exact chunkOnMedia_durableWrite h.ids hw hfresh he

theorem ReadInv.put (hplain : PlainPut cfg value mode lens)
    (hinj : ∀ i < (s.put R mint cfg subject value mode none lens).1.minted,
      ∀ j < (s.put R mint cfg subject value mode none lens).1.minted, mint i = mint j → i = j) :
    ReadInv R mint cfg (s.put R mint cfg subject value mode none lens).1
      (s.noteCall R mint cfg vals (.put subject value mode lens)) := by
  rw [Store.noteCall]
  rcases put_cases R mint cfg s subject value mode none lens with
    ⟨e, poisoned, heq⟩ | ⟨s', receipt, heq, hroute, hwrite⟩ |
      ⟨s', receipt, heq, hchunked, hmode, hwrite⟩
  · rw [heq]
    exact h.poisoned poisoned
  · rw [heq] at hinj ⊢
    rw [PlainPut, if_pos hroute] at hplain
    exact h.writeEvent hwrite (fun _ => hplain) hinj
  · rw [heq] at hinj ⊢
    rw [PlainPut, if_neg (by simp [hmode, hchunked])] at hplain
    exact h.writeChunkedPut (length_pos_iff.mp (admit_chunked hchunked)) hplain.2 hwrite hinj

theorem ReadInv.delete
    (hinj : ∀ i < (s.delete R mint cfg subject mode none lens).1.minted,
      ∀ j < (s.delete R mint cfg subject mode none lens).1.minted, mint i = mint j → i = j) :
    ReadInv R mint cfg (s.delete R mint cfg subject mode none lens).1
      (s.noteCall R mint cfg vals (.delete subject mode lens)) := by
  rw [Store.noteCall]
  rcases delete_cases R mint cfg s subject mode none lens with
    ⟨e, poisoned, heq⟩ | ⟨s', receipt, heq, hwrite⟩
  · rw [heq]
    exact h.poisoned poisoned
  · rw [heq] at hinj ⊢
    exact h.writeEvent hwrite (fun hkind => by cases hkind) hinj

theorem ReadInv.step {call : StoreCall} (hplain : call.Plain cfg)
    (hinj : ∀ i < (s.step R mint cfg call).minted, ∀ j < (s.step R mint cfg call).minted,
      mint i = mint j → i = j) :
    ReadInv R mint cfg (s.step R mint cfg call) (s.noteCall R mint cfg vals call) := by
  cases call with
  | put subject value mode lens => exact h.put hplain hinj
  | delete subject mode lens => exact h.delete hinj
  | rotate shard => exact h.rotateActive shard
  | finalize segmentId => exact h.finalizeSeal segmentId
  | enrich segmentId => exact h.enrich segmentId
  | sealActive sidecar => exact h.sealActive sidecar
  | get subject => exact (h.get subject).2

end

theorem ReadInv.create (R : Runtime) (mint : ℕ → Arr 16) (cfg : StoreConfig) :
    ReadInv R mint cfg (Store.create cfg) fun _ => none := by
  have hfiles {file : SegmentFile} (hfile : file ∈ (Store.create cfg).files) :
      ∃ g, file = (ActiveWriter.start g).file := by
    simp only [Store.create, Store.files, append_nil, map_map] at hfile
    obtain ⟨shard, -, rfl⟩ := mem_map.mp hfile
    exact ⟨shard + 1, rfl⟩
  have hchunk (id : Arr 16) (piece : ChunkPiece) :
      ¬ChunkOnMedia (Store.create cfg).files id piece := by
    rintro ⟨g, offset, envelopeLen, hon⟩
    obtain ⟨file, hfile, -, hmem⟩ := frame_mem_of_onMedia hon
    obtain ⟨g', rfl⟩ := hfiles hfile
    obtain ⟨len, hlen⟩ := controlOnly_start g' _ hmem
    cases hlen
  have hindex (k : Bytes) (entry : IndexEntry) : (Store.create cfg).index[k]? ≠ some entry := by
    rw [show (Store.create cfg).index[k]? = none from TreeMap.getElem?_emptyc]
    exact Option.some_ne_none entry |>.symm
  constructor
  case ids => exact Store.idsMinted_create cfg
  case started =>
    intro file hfile
    obtain ⟨g, rfl⟩ := hfiles hfile
    exact cons_ne_nil _ _
  case refs => exact fun id => TreeMap.getElem?_emptyc
  case layoutSealed =>
    intro g layout hlayout
    rw [show (Store.create cfg).layouts[g]? = none from TreeMap.getElem?_emptyc] at hlayout
    cases hlayout
  case cachedIds =>
    intro k entry hentry
    rw [show (Store.create cfg).verifiedBodyCache.entries[k]? = none from
      TreeMap.getElem?_emptyc] at hentry
    cases hentry
  case entryIds => exact fun k lv hk => absurd hk (hindex k _)
  case chunkIds => exact fun id piece hon => absurd hon (hchunk id piece)
  case unique => exact fun id piece _ hon => absurd hon (hchunk id piece)
  case locators =>
    intro id loc hloc
    rw [show (Store.create cfg).chunkLocators[id]? = none from TreeMap.getElem?_emptyc] at hloc
    exact absurd hloc not_mem_nil
  case live => exact fun k lv hk => absurd hk (hindex k _)
  case absent => exact fun k _ => rfl
  case cached => exact fun k lv entry hk => absurd hk (hindex k _)
  case layout => exact fun k lv layout body hk => absurd hk (hindex k _)

/-! ## Runs -/

theorem minted_sealActive (s : Store) (sidecar : Bool) :
    (s.sealActive sidecar).minted = s.minted := by
  have hwait : s.waitSealsApplied.minted = s.minted :=
    List.foldlRecOn (motive := fun s' : Store => s'.minted = s.minted) _ _ rfl fun s' hs' g _ => hs'
  refine List.foldlRecOn (motive := fun s' : Store => s'.minted = s.minted) _ _ hwait
    fun s' hs' shard _ => ?_
  cases hw : s'.actives[shard]? with
  | none =>
    rw [Store.sealActiveShard, hw]
    exact hs'
  | some w =>
    obtain ⟨layouts, heq⟩ := s'.sealActiveShard_eq sidecar hw
    rw [heq]
    exact hs'

theorem Store.get_fst (R : Runtime) (s : Store) (k : Bytes) :
    ∃ verifiedBodyCache, (s.get R k).1 = { s with verifiedBodyCache } := by
  change ∃ verifiedBodyCache, (s.getPayloadBytes R k).1 = { s with verifiedBodyCache }
  unfold getPayloadBytes
  split
  · split
    · exact ⟨s.verifiedBodyCache, rfl⟩
    · exact ⟨_, rfl⟩
  · exact ⟨s.verifiedBodyCache, rfl⟩

theorem minted_le_writeEvent
    (h : s.writeEvent R mint cfg subject kind value mode operation lens = .ok (s', receipt)) :
    s.minted ≤ s'.minted := by
  obtain ⟨w, -, -, ⟨-, rfl⟩ | ⟨-, -, rfl⟩⟩ := writeEvent_eq_ok h
  all_goals exact le_succ _

theorem minted_le_step (R : Runtime) (mint : ℕ → Arr 16) (cfg : StoreConfig) (s : Store)
    (call : StoreCall) : s.minted ≤ (s.step R mint cfg call).minted := by
  cases call with
  | put subject value mode lens =>
    rw [Store.step]
    rcases put_cases R mint cfg s subject value mode none lens with
      ⟨e, poisoned, heq⟩ | ⟨s', receipt, heq, -, hwrite⟩ | ⟨s', receipt, heq, -, -, hwrite⟩
    · rw [heq]
    · rw [heq]
      exact minted_le_writeEvent hwrite
    · obtain ⟨w, pieces, manifest, ids, -, -, -, -, -, rfl⟩ := writeChunkedPut_eq_ok hwrite
      rw [heq]
      exact le_add_right _ _
  | delete subject mode lens =>
    rw [Store.step]
    rcases delete_cases R mint cfg s subject mode none lens with
      ⟨e, poisoned, heq⟩ | ⟨s', receipt, heq, hwrite⟩
    · rw [heq]
    · rw [heq]
      exact minted_le_writeEvent hwrite
  | rotate shard =>
    rw [Store.step, Store.rotateActive]
    split <;> exact le_refl _
  | finalize segmentId => exact le_refl _
  | enrich segmentId =>
    rw [Store.step, Store.enrich]
    split
    · exact le_refl _
    · split <;> exact le_refl _
  | sealActive sidecar =>
    rw [Store.step, minted_sealActive]
  | get subject =>
    obtain ⟨cache, heq⟩ := Store.get_fst R s subject
    rw [Store.step, heq]

theorem readInv_runCalls (R : Runtime) (mint : ℕ → Arr 16) (cfg : StoreConfig)
    (calls : List StoreCall)
    (hinj : ∀ i < (Store.runCalls R mint cfg calls).1.minted,
      ∀ j < (Store.runCalls R mint cfg calls).1.minted, mint i = mint j → i = j)
    (hplain : ∀ call ∈ calls, call.Plain cfg) :
    ReadInv R mint cfg (Store.runCalls R mint cfg calls).1 (Store.runCalls R mint cfg calls).2 := by
  induction calls using List.reverseRecOn with
  | nil => exact ReadInv.create R mint cfg
  | append_singleton calls call ih =>
    have hrun : Store.runCalls R mint cfg (calls ++ [call]) =
        ((Store.runCalls R mint cfg calls).1.step R mint cfg call,
          (Store.runCalls R mint cfg calls).1.noteCall R mint cfg
            (runCalls R mint cfg calls).2 call) := by
      rw [runCalls, foldl_append]
      rfl
    rw [hrun] at hinj ⊢
    have hle := minted_le_step R mint cfg (runCalls R mint cfg calls).1 call
    have hprev := ih (fun i hi j hj => hinj i (hi.trans_le hle) j (hj.trans_le hle))
      fun call' hcall' => hplain call' (mem_append_left _ hcall')
    exact hprev.step (hplain call (mem_append_right _ mem_cons_self)) hinj

/-- **Read your writes.** In a run that puts no inline value that looks like a chunk manifest, no
empty value in memory mode and no chunks above the limits, a read returns the bytes of the last put
accepted for the subject, and nothing after a delete. -/
theorem read_your_writes (R : Runtime) (mint : ℕ → Arr 16) (cfg : StoreConfig)
    (calls : List StoreCall)
    (hfresh : Set.InjOn mint (Set.Iio (Store.runCalls R mint cfg calls).1.minted))
    (hplain : ∀ call ∈ calls, call.Plain cfg) (subject : Bytes) :
    ((Store.runCalls R mint cfg calls).1.get R subject).2 =
      .ok ((Store.runCalls R mint cfg calls).2 subject) :=
  ((readInv_runCalls R mint cfg calls (fun _ hi _ hj heq => hfresh hi hj heq) hplain).get
    subject).1

/-- Values of more than two bytes are chunked. -/
def sampleStoreConfig : StoreConfig where
  policy := ⟨2 ^ 20, 2, 2, 2 ^ 20, 2 ^ 20, 2 ^ 24⟩
  chunkSize := 2
  writerShards := 2
  verifiedBodyCacheBytes := 4096

/-- Values of all layouts, overwritten, deleted and sealed. -/
def sampleStoreCalls : List StoreCall :=
  [.put [1] [9] .buffered ⟨40, 30⟩, .put [2] [1, 2, 3] .durable ⟨40, 30⟩,
    .put [3] [5, 6] .memory ⟨40, 30⟩, .put [4] [] .buffered ⟨40, 30⟩, .delete [1] .durable ⟨40, 30⟩,
    .rotate 0, .finalize 1, .enrich 1, .get [2], .sealActive true, .put [4] [8] .buffered ⟨40, 30⟩]

theorem sample_writes_read :
    (Store.runCalls productRuntime sampleId sampleStoreConfig sampleStoreCalls).2 [2] =
        some [1, 2, 3] ∧
      ∀ subject, ((Store.runCalls productRuntime sampleId sampleStoreConfig
          sampleStoreCalls).1.get productRuntime subject).2 =
        .ok ((Store.runCalls productRuntime sampleId sampleStoreConfig
          sampleStoreCalls).2 subject) := by
  have hminted : (runCalls productRuntime sampleId sampleStoreConfig
      sampleStoreCalls).1.minted ≤ 256 ^ 16 := by decide +kernel
  refine ⟨by decide +kernel, read_your_writes productRuntime sampleId sampleStoreConfig
    sampleStoreCalls (fun i hi j hj heq => ?_) (by decide +kernel)⟩
  exact sampleId_inj (hi.trans_le hminted) (hj.trans_le hminted) heq

def applicationStoreConfig : StoreConfig where
  policy := .applicationV1
  chunkSize := 16 * 1024
  writerShards := 1
  verifiedBodyCacheBytes := 0

/-- A value that starts as a chunk manifest does. -/
def manifestLookalike : Bytes := CHUNK_MANIFEST_MAGIC ++ List.replicate 44 0

def lookalikeCalls : List StoreCall := [.put [107] manifestLookalike .durable ⟨40, 30⟩]

/-- A durable value, replaced by an empty one in memory mode before the segment gets its sidecar. -/
def emptiedCalls : List StoreCall :=
  [.put [107] [1] .durable ⟨40, 30⟩, .put [107] [] .memory ⟨40, 30⟩, .rotate 0, .finalize 1,
    .enrich 1]

/-- **Accepted values that reads do not return**: one that looks like a manifest is refused, and in
place of an empty one the value before it is returned. -/
theorem accepted_values_not_returned :
    ((Store.runCalls productRuntime sampleId applicationStoreConfig lookalikeCalls).2 [107] =
        some manifestLookalike ∧
      ((Store.runCalls productRuntime sampleId applicationStoreConfig lookalikeCalls).1.get
        productRuntime [107]).2 = .error .payloadPartial) ∧
    (Store.runCalls productRuntime sampleId applicationStoreConfig emptiedCalls).2 [107] =
        some [] ∧
      ((Store.runCalls productRuntime sampleId applicationStoreConfig emptiedCalls).1.get
        productRuntime [107]).2 = .ok (some [1]) := by
  decide +kernel

end Inv

end Residiuum
