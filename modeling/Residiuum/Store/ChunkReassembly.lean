import Residiuum.Store.ChunkPayload

/-!
# Reading a chunked payload back

* `candidates resolved id`: the resolved chunks under an event id. **`slotPiece_eq`**: what the slot
  loop takes for a slot depends on the candidates of that slot only.
* **`chunked_payload_law`**: a delivered payload is read back; whatever is read as complete has the
  manifest's hash, and is assembled when a `u32` can count the slots of the manifest.
-/

namespace Residiuum

open ByteLib ChunkSlot GroupLib List Option
open Std (TreeMap)

variable {R : Runtime} {itemId : Arr 16} {total : UInt32} {manifest : ChunkManifest}
  {slots : List ChunkSlot} {resolved resolved' : List ResolvedChunk}
  {expected : TreeMap (Arr 16) (UInt32 × UInt64)}

/-! ## The candidates of a slot -/

def candidates (resolved : List ResolvedChunk) (id : Arr 16) : List ResolvedChunk :=
  resolved.filter fun r => r.frameEventId = id

variable {id : Arr 16} {r : ResolvedChunk} {entry : ChunkSlot × ℕ} {body : Bytes}
  {p : ChunkPiece} {n : ℕ} {i : ℕ} {result : PayloadResult}

theorem mem_candidates : r ∈ candidates resolved id ↔ r ∈ resolved ∧ r.frameEventId = id := by
  rw [candidates, mem_filter, decide_eq_true_eq]

theorem map_zipIdx_chunkEventId (slots : List ChunkSlot) :
    (slots.zipIdx.map fun e => e.1.chunkEventId) = slots.map chunkEventId := by
  have h : (fun e : ChunkSlot × ℕ => e.1.chunkEventId) = chunkEventId ∘ Prod.fst := rfl
  rw [h, ← List.map_map, zipIdx_map_fst]

theorem contains_expectedSlots (h : expectedSlots slots = .ok expected) :
    expected.contains id = true ↔ id ∈ slots.map chunkEventId := by
  rw [contains_foldlM_insertNew h id, map_zipIdx_chunkEventId]
  simp

theorem exists_expectedSlots : (∃ expected, expectedSlots slots = .ok expected) ↔
      (slots.map chunkEventId).Nodup := by
  rw [expectedSlots, exists_foldlM_insertNew, map_zipIdx_chunkEventId]
  simp

theorem expectedSlots_error (h : expectedSlots slots = .error result) :
    ∃ i, result = .conflicting i := by
  obtain ⟨m, entry, -, he⟩ := exists_of_foldlM_error h
  unfold insertNew at he
  split_ifs at he
  exact ⟨_, (Except.error.inj he).symm⟩

theorem getElem?_groupByEvent (resolved : List ResolvedChunk)
    (hid : expected.contains id = true) (group : List ResolvedChunk) :
    (groupByEvent expected resolved)[id]? = some group ↔
      group ≠ [] ∧ candidates resolved id = group := by
  have hgroup := isGrouping_foldl ResolvedChunk.frameEventId
    (resolved.filter fun r => expected.contains r.frameEventId)
  rw [foldl_filter] at hgroup
  refine (hgroup id group).trans ?_
  rw [List.filter_filter, candidates]
  have hsame : (resolved.filter fun r =>
      decide (r.frameEventId = id) && expected.contains r.frameEventId) =
      resolved.filter fun r => r.frameEventId = id := by
    refine filter_congr fun r _ => ?_
    by_cases hr : r.frameEventId = id
    · rw [hr, hid, Bool.and_true]
    · rw [decide_eq_false hr, Bool.false_and]
  rw [hsame]

/-- The checks of the slot loop on the candidates of one slot. -/
structure SlotOk (itemId : Arr 16) (total : UInt32) (entry : ChunkSlot × ℕ)
    (group : List ResolvedChunk) : Prop where
  accepts : ∀ r ∈ group, slotAccepts itemId total (UInt32.ofNat entry.2) entry.1 r = true
  same : ∀ r ∈ group, ∀ r' ∈ group,
    r.verifiedBodyHash = r'.verifiedBodyHash ∧ r.piece.body = r'.piece.body

theorem slotPiece_eq (itemId : Arr 16) (total : UInt32) (resolved : List ResolvedChunk)
    (entry : ChunkSlot × ℕ) (hid : expected.contains entry.1.chunkEventId = true) :
    SlotOk itemId total entry (candidates resolved entry.1.chunkEventId) ∧
      slotPiece itemId total (groupByEvent expected resolved) entry =
        .ok ((candidates resolved entry.1.chunkEventId).head?.map ResolvedChunk.piece) ∨
    ¬SlotOk itemId total entry (candidates resolved entry.1.chunkEventId) ∧
      slotPiece itemId total (groupByEvent expected resolved) entry =
        .error (.conflicting (UInt32.ofNat entry.2)) := by
  have hget := getElem?_groupByEvent resolved hid
  generalize candidates resolved entry.1.chunkEventId = cands at hget
  cases cands with
  | nil =>
    have hnone : (groupByEvent expected resolved)[entry.1.chunkEventId]? = none := by
      refine eq_none_iff_forall_ne_some.mpr fun group hgroup => ?_
      obtain ⟨hne, rfl⟩ := (hget group).mp hgroup
      exact hne rfl
    refine .inl ⟨⟨by simp, by simp⟩, ?_⟩
    simp only [slotPiece, hnone]
    rfl
  | cons first rest =>
    have hsome := (hget (first :: rest)).mpr ⟨cons_ne_nil _ _, rfl⟩
    simp only [slotPiece, hsome]
    split_ifs with haccept hsame
    · refine .inr ⟨fun hok => ?_, rfl⟩
      obtain ⟨r, hr, hbad⟩ := any_eq_true.mp haccept
      rw [hok.accepts r hr] at hbad
      cases hbad
    · refine .inr ⟨fun hok => ?_, rfl⟩
      obtain ⟨r, hr, hbad⟩ := any_eq_true.mp hsame
      have heq := hok.same r hr first mem_cons_self
      rw [decide_eq_true_eq] at hbad
      exact hbad.elim (fun h => h heq.1) fun h => h heq.2
    have hfirst : ∀ r ∈ first :: rest, r.verifiedBodyHash = first.verifiedBodyHash ∧
        r.piece.body = first.piece.body := by
      simpa only [List.any_eq_true, decide_eq_true_eq, not_exists, not_and, not_or, not_not]
        using hsame
    refine .inl ⟨⟨?_, fun r hr r' hr' => ?_⟩, rfl⟩
    · simpa only [List.any_eq_true, Bool.not_eq_true', not_exists, not_and, Bool.not_eq_false]
        using haccept
    · rw [(hfirst r hr).1, (hfirst r hr).2, (hfirst r' hr').1, (hfirst r' hr').2]
      exact ⟨rfl, rfl⟩

theorem slotPiece_eq_ok
    (hid : expected.contains entry.1.chunkEventId = true) {o : Option ChunkPiece} :
    slotPiece itemId total (groupByEvent expected resolved) entry = .ok o ↔
      SlotOk itemId total entry (candidates resolved entry.1.chunkEventId) ∧
        (candidates resolved entry.1.chunkEventId).head?.map ResolvedChunk.piece = o := by
  obtain ⟨hok, heq⟩ | ⟨hnot, heq⟩ := slotPiece_eq itemId total resolved entry hid
  · rw [heq, Except.ok.injEq]
    exact ⟨fun h => ⟨hok, h⟩, fun h => h.2⟩
  · rw [heq]
    exact ⟨fun h => (by cases h), fun h => absurd h.1 hnot⟩

theorem selectPieces_selected (itemId : Arr 16) (total : UInt32)
    (byEvent : TreeMap (Arr 16) (List ResolvedChunk)) (slots : List ChunkSlot) :
    (selectPieces itemId total byEvent slots).map Selection.selected =
      (slots.zipIdx.mapM (slotPiece itemId total byEvent)).map reduceOption := by
  refine (foldlM_collect _ Selection.take Selection.selected ?_ _ _).trans ?_
  · rintro s entry (_ | p)
    · exact (append_nil _).symm
    · rfl
  · simp

theorem reassembleWithManifest_eq (R : Runtime) (itemId : Arr 16) (resolved : List ResolvedChunk)
    (hzero : UInt32.ofNat manifest.chunks.length ≠ 0)
    (hexp : expectedSlots manifest.chunks = .ok expected) :
    reassembleWithManifest R itemId manifest resolved =
      match manifest.chunks.zipIdx.mapM (slotPiece itemId (UInt32.ofNat manifest.chunks.length)
        (groupByEvent expected resolved)) with
      | .error result => result
      | .ok os => finishSelection R manifest.contentHash (UInt32.ofNat manifest.chunks.length)
          os.reduceOption := by
  have hsel := selectPieces_selected itemId (UInt32.ofNat manifest.chunks.length)
    (groupByEvent expected resolved) manifest.chunks
  simp only [reassembleWithManifest, if_neg hzero, hexp]
  generalize selectPieces _ _ _ _ = run at hsel ⊢
  generalize mapM (slotPiece _ _ _) _ = mapped at hsel ⊢
  cases run with
  | error result =>
    cases mapped with
    | error result' => exact Except.error.inj hsel
    | ok os => cases hsel
  | ok s =>
    cases mapped with
    | error result => cases hsel
    | ok os => exact congrArg (finishSelection R manifest.contentHash _) (Except.ok.inj hsel)

/-! ## What is read as complete -/

/-- A piece with the checks of its slot. -/
structure FillsSlot (itemId : Arr 16) (manifest : ChunkManifest) (resolved : List ResolvedChunk)
    (entry : ChunkSlot × ℕ) (p : ChunkPiece) : Prop where
  found : ∃ r ∈ resolved, r.frameEventId = entry.1.chunkEventId ∧ r.piece = p
  item : p.itemId = itemId
  index : p.index.toNat = entry.2
  total : p.total.toNat = manifest.chunks.length
  slotLen : p.logicalLen = entry.1.logicalLen
  bodyLen : p.logicalLen = UInt64.ofNat p.body.length

/-- `body` is the concatenation of one piece per slot, in slot order. -/
def Assembled (itemId : Arr 16) (manifest : ChunkManifest) (resolved : List ResolvedChunk)
    (body : Bytes) : Prop :=
  ∃ pieces : List ChunkPiece, (pieces.map ChunkPiece.body).flatten = body ∧
    List.Forall₂ (FillsSlot itemId manifest resolved) manifest.chunks.zipIdx pieces

theorem finishSelection_eq_complete {contentHash : Arr 32} {selected : List ChunkPiece}
    (h : finishSelection R contentHash total selected = .complete body) :
    ∃ hash, reassembleChunks R selected (some contentHash) = .complete body hash := by
  unfold finishSelection at h
  split_ifs at h
  split at h
  next body' hash heq =>
    obtain rfl := PayloadResult.complete.inj h
    exact ⟨hash, heq⟩
  all_goals cases h

theorem slotPiece_error {byEvent : TreeMap (Arr 16) (List ResolvedChunk)}
    (h : slotPiece itemId total byEvent entry = .error result) : ∃ i, result = .conflicting i := by
  unfold slotPiece at h
  dsimp only at h
  split at h
  · split_ifs at h
    · exact ⟨_, (Except.error.inj h).symm⟩
    · exact ⟨_, (Except.error.inj h).symm⟩
  · cases h

theorem reassembleWithManifest_eq_complete
    (h : reassembleWithManifest R itemId manifest resolved = .complete body) :
    ∃ expected os hash, expectedSlots manifest.chunks = .ok expected ∧
      List.Forall₂ (fun entry o => slotPiece itemId (UInt32.ofNat manifest.chunks.length)
        (groupByEvent expected resolved) entry = .ok o) manifest.chunks.zipIdx os ∧
      reassembleChunks R os.reduceOption (some manifest.contentHash) = .complete body hash := by
  by_cases hzero : UInt32.ofNat manifest.chunks.length = 0
  · simp only [reassembleWithManifest, if_pos hzero] at h
    cases h
  cases hexp : expectedSlots manifest.chunks with
  | error result =>
    obtain ⟨i, rfl⟩ := expectedSlots_error hexp
    simp only [reassembleWithManifest, if_neg hzero, hexp] at h
    cases h
  | ok expected =>
    rw [reassembleWithManifest_eq R itemId resolved hzero hexp] at h
    split at h
    next result hmap =>
      obtain ⟨entry, -, he⟩ := exists_of_mapM_error hmap
      obtain ⟨i, rfl⟩ := slotPiece_error he
      cases h
    next os hmap =>
      obtain ⟨hash, hhash⟩ := finishSelection_eq_complete h
      exact ⟨expected, os, hash, rfl, mapM_eq_ok.mp hmap, hhash⟩

theorem slotPiece_eq_some
    (hid : expected.contains entry.1.chunkEventId = true)
    (h : slotPiece itemId total (groupByEvent expected resolved) entry = .ok (some p)) :
    ∃ r ∈ resolved, r.piece = p ∧
      slotAccepts itemId total (UInt32.ofNat entry.2) entry.1 r = true := by
  obtain ⟨hok, hhead⟩ := (slotPiece_eq_ok hid).mp h
  obtain ⟨r, hr, rfl⟩ := map_eq_some_iff.mp hhead
  have hmem := mem_of_mem_head? hr
  exact ⟨r, (mem_candidates.mp hmem).1, rfl, hok.accepts r hmem⟩

theorem fillsSlot_of_accepts
    (hlt : manifest.chunks.length < 2 ^ 32) (hentry : entry.2 < manifest.chunks.length)
    (hr : r ∈ resolved) (h : slotAccepts itemId (UInt32.ofNat manifest.chunks.length)
      (UInt32.ofNat entry.2) entry.1 r = true) :
    FillsSlot itemId manifest resolved entry r.piece := by
  rw [slotAccepts, decide_eq_true_eq] at h
  obtain ⟨hid, hitem, hindex, htotal, hlen, hbody⟩ := h
  refine ⟨⟨r, hr, hid, rfl⟩, hitem, ?_, ?_, hlen, hbody⟩
  · rw [hindex, UInt32.toNat_ofNat_of_lt' (hentry.trans hlt)]
  · rw [htotal, UInt32.toNat_ofNat_of_lt' hlt]

theorem getElem?_indices (h : i < total.toNat) : (indices total)[i]? = some (UInt32.ofNat i) := by
  rw [indices, getElem?_map, getElem?_range h, map_some]

theorem length_indices (total : UInt32) : (indices total).length = total.toNat := by
  rw [indices, length_map, length_range]

theorem eq_map_some_of_indices {os : List (Option ChunkPiece)} {chosen : List ChunkPiece}
    (hlt : os.length < 2 ^ 32) (hindex : ∀ j p, os[j]? = some (some p) → p.index = UInt32.ofNat j)
    (h : (indices (UInt32.ofNat os.length)).map (pieceAt os.reduceOption) = chosen.map some) :
    os = chosen.map some := by
  have hn : (UInt32.ofNat os.length).toNat = os.length := UInt32.toNat_ofNat_of_lt' hlt
  have hlen : chosen.length = os.length := by
    have := congrArg length h
    rw [length_map, length_map, length_indices, hn] at this
    exact this.symm
  refine ext_getElem (by rw [length_map, hlen]) fun i hi hi' => ?_
  rw [length_map] at hi'
  have hat := congrArg (fun l => l[i]?) h
  simp only [getElem?_map, getElem?_indices (hn ▸ hi), getElem?_eq_getElem hi',
    map_some, Option.some.injEq] at hat
  obtain ⟨hmem, hi''⟩ := pieceAt_eq_some hat
  obtain ⟨j, hj⟩ := getElem?_of_mem (reduceOption_mem_iff.mp hmem)
  have hjlt : j < os.length := (List.getElem?_eq_some_iff.mp hj).1
  have hji : j = i := by
    have := congrArg UInt32.toNat ((hindex j _ hj).symm.trans hi'')
    rwa [UInt32.toNat_ofNat_of_lt' (hjlt.trans hlt), UInt32.toNat_ofNat_of_lt' (hi.trans hlt)]
      at this
  subst hji
  rw [(List.getElem?_eq_some_iff.mp hj).2, getElem_map]

theorem hash_of_complete
    (h : reassembleWithManifest R itemId manifest resolved = .complete body) :
    R.blake3 body = manifest.contentHash := by
  obtain ⟨expected, os, hash, -, -, hbody⟩ := reassembleWithManifest_eq_complete h
  obtain ⟨total, chosen, -, -, -, hhash, hexpected⟩ := reassembleChunks_eq_complete.mp hbody
  exact hhash.trans (hexpected _ rfl).symm

theorem assembled_of_complete (hlt : manifest.chunks.length < 2 ^ 32)
    (h : reassembleWithManifest R itemId manifest resolved = .complete body) :
    Assembled itemId manifest resolved body := by
  obtain ⟨expected, os, hash, hexp, hslots, hbody⟩ := reassembleWithManifest_eq_complete h
  obtain ⟨total, chosen, hcons, hchosen, hflat, -, -⟩ := reassembleChunks_eq_complete.mp hbody
  have hlen : os.length = manifest.chunks.length := by
    rw [← hslots.length_eq, length_zipIdx]
  have haccept : ∀ j p, os[j]? = some (some p) → ∃ r ∈ resolved, ∃ hj : j < manifest.chunks.length,
      r.piece = p ∧ slotAccepts itemId (UInt32.ofNat manifest.chunks.length) (UInt32.ofNat j)
        (manifest.chunks[j]) r = true := by
    intro j p hj
    obtain ⟨hjo, hget⟩ := List.getElem?_eq_some_iff.mp hj
    have hjm : j < manifest.chunks.length := hlen ▸ hjo
    have hslot := (forall₂_iff_get.mp hslots).2 j (by rwa [length_zipIdx]) hjo
    simp only [get_eq_getElem, getElem_zipIdx, hget, Nat.zero_add] at hslot
    obtain ⟨r, hr, hp, ha⟩ := slotPiece_eq_some ((contains_expectedSlots hexp).mpr
      (mem_map_of_mem (getElem_mem hjm))) hslot
    exact ⟨r, hr, hjm, hp, ha⟩
  have hindex : ∀ j p, os[j]? = some (some p) → p.index = UInt32.ofNat j ∧
      p.total = UInt32.ofNat manifest.chunks.length := by
    intro j p hj
    obtain ⟨r, -, hlt, rfl, ha⟩ := haccept j p hj
    obtain ⟨-, -, hi, ht, -⟩ := of_decide_eq_true ha
    exact ⟨hi, ht⟩
  obtain ⟨p, hp⟩ := exists_mem_of_ne_nil _ hcons.nonempty
  obtain ⟨j, hj⟩ := getElem?_of_mem (reduceOption_mem_iff.mp hp)
  have htotal : total = UInt32.ofNat os.length := by
    rw [← hcons.declared p hp, (hindex j p hj).2, hlen]
  have hos := eq_map_some_of_indices (hlen ▸ hlt) (fun j p hj => (hindex j p hj).1)
    (htotal ▸ hchosen)
  refine ⟨chosen, hflat, ?_⟩
  rw [forall₂_iff_get]
  refine ⟨by rw [length_zipIdx, ← hlen, hos, length_map], fun i hi hi' => ?_⟩
  obtain ⟨r, hr, hj, hpiece, ha⟩ := haccept i (chosen[i]) (by
    rw [hos, getElem?_map, getElem?_eq_getElem hi', map_some])
  simp only [get_eq_getElem, getElem_zipIdx, Nat.zero_add]
  rw [← hpiece]
  exact fillsSlot_of_accepts hlt hj hr ha

variable {payload : Bytes} {chunkSize : ℕ} {pieces : List ChunkPiece} {ids : List (Arr 16)}

/-- The pieces of a payload. -/
structure IsSplit (itemId : Arr 16) (payload : Bytes) (pieces : List ChunkPiece) : Prop where
  nonempty : pieces ≠ []
  count : pieces.length < 2 ^ 32
  item : ∀ p ∈ pieces, p.itemId = itemId
  total : ∀ p ∈ pieces, p.total = UInt32.ofNat pieces.length
  len : ∀ p ∈ pieces, p.logicalLen = UInt64.ofNat p.body.length
  index : ∀ i p, pieces[i]? = some p → p.index = UInt32.ofNat i
  body : (pieces.map ChunkPiece.body).flatten = payload

theorem isSplit_of_splitIntoPieces (hne : payload ≠ [])
    (h : splitIntoPieces itemId payload chunkSize = .ok pieces) :
    IsSplit itemId payload pieces := by
  simp only [splitIntoPieces, if_neg hne] at h
  split_ifs at h with hsize hmany
  have hpieces := (Except.ok.inj h).symm
  have hlen : pieces.length = (payload.length + chunkSize - 1) / chunkSize := by
    rw [hpieces, length_map, length_zipIdx, length_chunks]
  have hmem : ∀ (i : ℕ) (p : ChunkPiece), pieces[i]? = some p → ∃ chunk : Bytes,
      p = ⟨itemId, UInt32.ofNat i, UInt32.ofNat pieces.length, UInt64.ofNat chunk.length,
        chunk⟩ := by
    intro i p hi
    rw [hpieces, getElem?_map, map_eq_some_iff] at hi
    obtain ⟨e, he, rfl⟩ := hi
    rw [getElem?_zipIdx, map_eq_some_iff] at he
    obtain ⟨chunk, -, rfl⟩ := he
    exact ⟨chunk, by rw [hlen, Nat.zero_add]⟩
  have hall : ∀ p ∈ pieces, ∃ (i : ℕ) (chunk : Bytes), p = ⟨itemId, UInt32.ofNat i,
      UInt32.ofNat pieces.length, UInt64.ofNat chunk.length, chunk⟩ := by
    intro p hp
    obtain ⟨i, hi⟩ := getElem?_of_mem hp
    exact ⟨i, hmem i p hi⟩
  have hbody : (pieces.map ChunkPiece.body).flatten = payload := by
    rw [hpieces, List.map_map]
    have hfst : (ChunkPiece.body ∘ fun chunk : Bytes × ℕ =>
        (⟨itemId, UInt32.ofNat chunk.2, UInt32.ofNat ((payload.length + chunkSize - 1) / chunkSize),
          UInt64.ofNat chunk.1.length, chunk.1⟩ : ChunkPiece)) = Prod.fst := rfl
    rw [hfst, zipIdx_map_fst, flatten_chunks (Nat.pos_of_ne_zero hsize)]
  refine ⟨?_, by omega, ?_, ?_, ?_, ?_, hbody⟩
  · rintro rfl
    exact hne hbody.symm
  · intro p hp
    obtain ⟨i, chunk, rfl⟩ := hall p hp
    rfl
  · intro p hp
    obtain ⟨i, chunk, rfl⟩ := hall p hp
    rfl
  · intro p hp
    obtain ⟨i, chunk, rfl⟩ := hall p hp
    rfl
  · intro i p hi
    obtain ⟨chunk, rfl⟩ := hmem i p hi
    rfl

theorem size_of_splitIntoPieces (hne : payload ≠ [])
    (h : splitIntoPieces itemId payload chunkSize = .ok pieces) :
    pieces.length = (payload.length + chunkSize - 1) / chunkSize ∧
      ∀ p ∈ pieces, p.body.length ≤ min payload.length chunkSize := by
  simp only [splitIntoPieces, if_neg hne] at h
  split_ifs at h
  obtain rfl := Except.ok.inj h
  refine ⟨by rw [length_map, length_zipIdx, length_chunks], fun p hp => ?_⟩
  obtain ⟨e, he, rfl⟩ := mem_map.mp hp
  obtain ⟨i, -, hi⟩ := mem_map.mp (fst_mem_of_mem_zipIdx he)
  have hsize : (i + 1) * chunkSize = i * chunkSize + chunkSize := Nat.succ_mul i chunkSize
  rw [← hi, slice, length_take, length_drop]
  omega

theorem IsSplit.pieceAt (h : IsSplit itemId payload pieces)
    (hi : pieces[i]? = some p) : pieceAt pieces (UInt32.ofNat i) = some p := by
  obtain ⟨hlt, hget⟩ := List.getElem?_eq_some_iff.mp hi
  refine find?_eq_some_iff_getElem.mpr ⟨decide_eq_true (h.index i p hi), i, hlt, hget,
    fun j hj => ?_⟩
  rw [h.index j _ (getElem?_eq_getElem (hj.trans hlt)), Bool.not_eq_true',
    decide_eq_false_iff_not]
  intro heq
  have := congrArg UInt32.toNat heq
  rw [UInt32.toNat_ofNat_of_lt' ((hj.trans hlt).trans h.count),
    UInt32.toNat_ofNat_of_lt' (hlt.trans h.count)] at this
  omega

theorem IsSplit.map_pieceAt (h : IsSplit itemId payload pieces) :
    (indices (UInt32.ofNat pieces.length)).map (Residiuum.pieceAt pieces) = pieces.map some := by
  have hn : (UInt32.ofNat pieces.length).toNat = pieces.length := UInt32.toNat_ofNat_of_lt' h.count
  refine ext_getElem? fun i => ?_
  rw [getElem?_map, getElem?_map]
  by_cases hi : i < pieces.length
  · rw [getElem?_indices (hn.symm ▸ hi), getElem?_eq_getElem hi, map_some,
      map_some, h.pieceAt (getElem?_eq_getElem hi)]
  · rw [getElem?_eq_none (by rw [length_indices]; omega), getElem?_eq_none (by omega)]
    rfl

theorem IsSplit.reassembleChunks (R : Runtime) (h : IsSplit itemId payload pieces) :
    reassembleChunks R pieces (some (bodyHash R payload)) =
      .complete payload (bodyHash R payload) := by
  have hn : (UInt32.ofNat pieces.length).toNat = pieces.length := UInt32.toNat_ofNat_of_lt' h.count
  have hpos := length_pos_of_ne_nil h.nonempty
  have hat : ∀ p ∈ pieces, ∃ i, i < pieces.length ∧ pieces[i]? = some p ∧
      p.index.toNat = i := by
    intro p hp
    obtain ⟨i, hi⟩ := getElem?_of_mem hp
    have hlt := (List.getElem?_eq_some_iff.mp hi).1
    exact ⟨i, hlt, hi, by rw [h.index i p hi, UInt32.toNat_ofNat_of_lt' (hlt.trans h.count)]⟩
  refine reassembleChunks_eq_complete.mpr ⟨UInt32.ofNat pieces.length, pieces, ?_, h.map_pieceAt,
    h.body, rfl, fun e he => (some.inj he).symm⟩
  refine ⟨h.nonempty, fun hzero => ?_, h.total, fun p hp q hq => ?_, fun p hp => ?_,
    fun p hp q hq hpq => ?_⟩
  · have := congrArg UInt32.toNat hzero
    rw [hn] at this
    exact absurd this hpos.ne'
  · rw [h.item p hp, h.item q hq]
  · obtain ⟨i, hlt, -, hi⟩ := hat p hp
    rw [UInt32.lt_iff_toNat_lt, hi, hn]
    exact hlt
  · obtain ⟨i, -, hgi, hi⟩ := hat p hp
    obtain ⟨j, -, hgj, hj⟩ := hat q hq
    rw [hpq, hj] at hi
    rw [hi, hgi] at hgj
    rw [some.inj hgj]

/-- A payload was split, a manifest written under distinct event ids, and the resolved chunks hold
every piece under its id and nothing else under these ids. -/
structure Delivered (R : Runtime) (itemId : Arr 16) (payload : Bytes) (chunkSize : ℕ)
    (ids : List (Arr 16)) (manifest : ChunkManifest) (resolved : List ResolvedChunk) : Prop where
  nonempty : payload ≠ []
  distinct : ids.Nodup
  written : ∃ pieces, splitIntoPieces itemId payload chunkSize = .ok pieces ∧
    manifestFromPieces R pieces ids payload = .ok manifest ∧
    (∀ e ∈ ids.zip pieces, ∃ segmentId frameOffset,
      resolvePiece R e.1 e.2 segmentId frameOffset ∈ resolved) ∧
    ∀ r ∈ resolved, r.frameEventId ∈ ids → ∃ e ∈ ids.zip pieces,
      r = resolvePiece R e.1 e.2 r.segmentId r.frameOffset

theorem manifestFromPieces_eq_ok (h : manifestFromPieces R pieces ids payload = .ok manifest) :
    pieces.length = ids.length ∧ manifest.contentHash = bodyHash R payload ∧
      manifest.chunks = (pieces.zip ids).map fun e => ⟨e.2, e.1.logicalLen⟩ := by
  unfold manifestFromPieces at h
  split_ifs at h with hlen
  cases h
  exact ⟨not_not.mp hlen, rfl, rfl⟩

theorem eq_resolvePiece_of_own (hdistinct : ids.Nodup)
    (hown : ∀ r ∈ resolved, r.frameEventId ∈ ids → ∃ e ∈ ids.zip pieces,
      r = resolvePiece R e.1 e.2 r.segmentId r.frameOffset)
    (hid : ids[i]? = some id) (hp : pieces[i]? = some p) (hr : r ∈ candidates resolved id) :
    r = resolvePiece R id p r.segmentId r.frameOffset := by
  obtain ⟨hmem, rfl⟩ := mem_candidates.mp hr
  obtain ⟨e, he, heq⟩ := hown r hmem (mem_of_getElem? hid)
  obtain ⟨j, hj⟩ := getElem?_of_mem he
  obtain ⟨hj₁, hj₂⟩ := getElem?_zip_eq_some.mp hj
  have hfst : e.1 = r.frameEventId := by
    rw [heq]
    rfl
  have hji : j = i := (getElem?_inj (List.getElem?_eq_some_iff.mp hj₁).1 hdistinct).mp
    (by rw [hj₁, hid, hfst])
  subst hji
  rw [hp] at hj₂
  rw [some.inj hj₂, ← hfst]
  exact heq

theorem IsSplit.slotPiece (h : IsSplit itemId payload pieces)
    (hp : pieces[i]? = some p) (hid : expected.contains id = true)
    (hcand : ∀ r ∈ candidates resolved id,
      r = resolvePiece R id p r.segmentId r.frameOffset)
    (hsome : candidates resolved id ≠ []) :
    slotPiece itemId (UInt32.ofNat pieces.length) (groupByEvent expected resolved)
      (⟨id, p.logicalLen⟩, i) = .ok (some p) := by
  have hmem := mem_of_getElem? hp
  refine (slotPiece_eq_ok hid).mpr ⟨⟨fun r hr => ?_, fun r hr r' hr' => ?_⟩, ?_⟩
  · rw [hcand r hr]
    exact decide_eq_true ⟨rfl, h.item p hmem, h.index i p hp, h.total p hmem, rfl, h.len p hmem⟩
  · rw [hcand r hr, hcand r' hr']
    exact ⟨rfl, rfl⟩
  · obtain ⟨r, rest, hc⟩ := exists_cons_of_ne_nil hsome
    have hr := hcand r (hc ▸ mem_cons_self)
    rw [hc, head?_cons, map_some, hr]
    rfl

theorem complete_of_delivered
    (h : Delivered R itemId payload chunkSize ids manifest resolved) :
    reassembleWithManifest R itemId manifest resolved = .complete payload := by
  obtain ⟨hne, hdistinct, pieces, hsplit, hmanifest, hpresent, hown⟩ := h
  have hs := isSplit_of_splitIntoPieces hne hsplit
  obtain ⟨hlen, hhash, hchunks⟩ := manifestFromPieces_eq_ok hmanifest
  have hcount : manifest.chunks.length = pieces.length := by
    rw [hchunks, length_map, length_zip, hlen, Nat.min_self]
  have hids : manifest.chunks.map chunkEventId = ids := by
    rw [hchunks, List.map_map]
    exact map_snd_zip hlen.ge
  have hn : (UInt32.ofNat manifest.chunks.length).toNat = pieces.length := by
    rw [hcount, UInt32.toNat_ofNat_of_lt' hs.count]
  have hzero : UInt32.ofNat manifest.chunks.length ≠ 0 := by
    intro hz
    rw [hz] at hn
    exact hs.nonempty (length_eq_zero_iff.mp hn.symm)
  obtain ⟨expected, hexp⟩ := exists_expectedSlots.mpr (hids.symm ▸ hdistinct)
  have hslots : manifest.chunks.zipIdx.mapM (slotPiece itemId
      (UInt32.ofNat manifest.chunks.length) (groupByEvent expected resolved)) =
      .ok (pieces.map some) := by
    refine mapM_eq_ok.mpr (forall₂_iff_get.mpr ⟨by simp [hcount], fun i hi hi' => ?_⟩)
    rw [length_map] at hi'
    have hp := getElem?_eq_getElem hi'
    have hid := getElem?_eq_getElem (hlen ▸ hi')
    have hslot : manifest.chunks.zipIdx.get ⟨i, hi⟩ =
        (⟨ids[i], pieces[i].logicalLen⟩, i) := by
      simp [hchunks]
    obtain ⟨segmentId, frameOffset, hmem⟩ := hpresent (ids[i], pieces[i])
      (mem_of_getElem? (getElem?_zip_eq_some.mpr ⟨hid, hp⟩))
    rw [hslot, get_eq_getElem, getElem_map, hcount]
    exact hs.slotPiece hp ((contains_expectedSlots hexp).mpr (hids.symm ▸ getElem_mem _))
      (fun r hr => eq_resolvePiece_of_own hdistinct hown hid hp hr)
      (ne_nil_of_mem (mem_candidates.mpr ⟨hmem, rfl⟩))
  rw [reassembleWithManifest_eq R itemId resolved hzero hexp, hslots, hhash]
  have hselected : (pieces.map some).reduceOption = pieces := by
    rw [reduceOption, filterMap_map, Function.id_comp, filterMap_some]
  simp [hselected, finishSelection, if_neg hs.nonempty, hs.reassembleChunks R]

/-! ## The law of chunked payloads -/

/-- **A delivered payload is read back, and whatever is read as complete has the manifest's hash**
and is assembled when a `u32` can count the slots of the manifest. -/
theorem chunked_payload_law (R : Runtime) (itemId : Arr 16) (manifest : ChunkManifest)
    (resolved : List ResolvedChunk) :
    (∀ payload chunkSize ids, Delivered R itemId payload chunkSize ids manifest resolved →
      reassembleWithManifest R itemId manifest resolved = .complete payload) ∧
    ∀ body, reassembleWithManifest R itemId manifest resolved = .complete body →
      R.blake3 body = manifest.contentHash ∧
      (manifest.chunks.length < 2 ^ 32 → Assembled itemId manifest resolved body) :=
  ⟨fun _ _ _ h => complete_of_delivered h,
    fun _ h => ⟨hash_of_complete h, fun hlt => assembled_of_complete hlt h⟩⟩

/-- The `i`-th event id of the samples. -/
def sampleId (i : ℕ) : Arr 16 := ⟨leBytes 16 i, length_leBytes 16 i⟩

/-- Two pieces of a three-byte payload. -/
def samplePieces : List ChunkPiece := [⟨sampleId 9, 0, 2, 2, [1, 2]⟩, ⟨sampleId 9, 1, 2, 1, [3]⟩]

def sampleManifest (R : Runtime) : ChunkManifest :=
  ⟨bodyHash R [1, 2, 3], [⟨sampleId 0, 2⟩, ⟨sampleId 1, 1⟩], 3⟩

/-- The pieces out of order, one of them twice, with a chunk of another generation. -/
def sampleResolved (R : Runtime) : List ResolvedChunk :=
  [resolvePiece R (sampleId 1) ⟨sampleId 9, 1, 2, 1, [3]⟩ (sampleId 5) 64,
    resolvePiece R (sampleId 7) ⟨sampleId 9, 0, 2, 2, [8, 8]⟩ (sampleId 5) 128,
    resolvePiece R (sampleId 0) ⟨sampleId 9, 0, 2, 2, [1, 2]⟩ (sampleId 5) 0,
    resolvePiece R (sampleId 1) ⟨sampleId 9, 1, 2, 1, [3]⟩ (sampleId 6) 0]

theorem sample_delivered : Delivered productRuntime (sampleId 9) [1, 2, 3] 2
    [sampleId 0, sampleId 1] (sampleManifest productRuntime) (sampleResolved productRuntime) where
  nonempty := by decide
  distinct := by decide
  written := by
    refine ⟨samplePieces, by decide, by decide +kernel, ?_, by decide +kernel⟩
    rw [samplePieces, zip_cons_cons, zip_cons_cons, forall_mem_cons,
      forall_mem_cons]
    exact ⟨⟨sampleId 5, 0, by decide +kernel⟩, ⟨sampleId 5, 64, by decide +kernel⟩, by simp⟩

theorem chunked_payload_sample :
    reassembleWithManifest productRuntime (sampleId 9) (sampleManifest productRuntime)
      (sampleResolved productRuntime) = .complete [1, 2, 3] ∧
    productRuntime.blake3 [1, 2, 3] = (sampleManifest productRuntime).contentHash ∧
    Assembled (sampleId 9) (sampleManifest productRuntime) (sampleResolved productRuntime)
      [1, 2, 3] := by
  obtain ⟨hread, hassembled⟩ := chunked_payload_law productRuntime (sampleId 9)
    (sampleManifest productRuntime) (sampleResolved productRuntime)
  have hcomplete := hread _ _ _ sample_delivered
  obtain ⟨hhash, hpieces⟩ := hassembled _ hcomplete
  exact ⟨hcomplete, hhash, hpieces (by decide)⟩

/-! ## More slots than a `u32` counts -/

theorem sampleId_inj {i j : ℕ} (hi : i < 256 ^ 16) (hj : j < 256 ^ 16)
    (h : sampleId i = sampleId j) : i = j := by
  have := congrArg (fun id => ofLe id.1) h
  simpa only [sampleId, ofLe_leBytes, Nat.mod_eq_of_lt hi, Nat.mod_eq_of_lt hj] using this

/-- A manifest of `n` slots of one byte, for a payload of one byte. -/
def wideManifest (R : Runtime) (n : ℕ) : ChunkManifest :=
  ⟨bodyHash R [7], (List.range n).map fun i => ⟨sampleId i, 1⟩, UInt64.ofNat n⟩

def widePiece : ChunkPiece := ⟨sampleId 9, 0, 1, 1, [7]⟩

/-- It is found under the first id. -/
def wideResolved (R : Runtime) : List ResolvedChunk :=
  [resolvePiece R (sampleId 0) widePiece (sampleId 5) 0]

def wideRest (n : ℕ) : List ChunkSlot := (List.range n).map fun i => ⟨sampleId (i + 1), 1⟩

theorem wideManifest_chunks (R : Runtime) (n : ℕ) :
    (wideManifest R (n + 1)).chunks = ⟨sampleId 0, 1⟩ :: wideRest n := by
  rw [wideManifest, range_succ_eq_map, map_cons, List.map_map]
  rfl

theorem wideManifest_nodup (R : Runtime) (hn : n ≤ 256 ^ 16) :
    ((wideManifest R n).chunks.map chunkEventId).Nodup := by
  rw [wideManifest, List.map_map]
  refine List.Nodup.map_on (fun i hi j hj h => ?_) nodup_range
  exact sampleId_inj ((mem_range.mp hi).trans_le hn) ((mem_range.mp hj).trans_le hn) h

theorem candidates_wideResolved (R : Runtime) (hi : i + 1 < 256 ^ 16) :
    candidates (wideResolved R) (sampleId (i + 1)) = [] := by
  rw [candidates, wideResolved, filter_singleton, decide_eq_false, cond_false]
  intro h
  exact absurd (sampleId_inj (by omega) hi h) (by omega)

theorem wide_complete (R : Runtime) (hn : UInt32.ofNat (n + 1) = 1) (hsmall : n + 1 ≤ 256 ^ 16) :
    reassembleWithManifest R (sampleId 9) (wideManifest R (n + 1)) (wideResolved R) =
      .complete [7] := by
  have htotal : UInt32.ofNat (wideManifest R (n + 1)).chunks.length = 1 := by
    rw [wideManifest, length_map, length_range, hn]
  obtain ⟨expected, hexp⟩ := exists_expectedSlots.mpr (wideManifest_nodup R hsmall)
  have hsplit : IsSplit (sampleId 9) [7] [widePiece] :=
    isSplit_of_splitIntoPieces (by decide)
      (by decide : splitIntoPieces (sampleId 9) [7] 1 = .ok [widePiece])
  have hmem : ∀ slot ∈ (wideManifest R (n + 1)).chunks,
      expected.contains slot.chunkEventId = true := fun slot hslot =>
    (contains_expectedSlots hexp).mpr (mem_map_of_mem hslot)
  rw [wideManifest_chunks, forall_mem_cons] at hmem
  have hfirst : slotPiece (sampleId 9) 1 (groupByEvent expected (wideResolved R))
      (⟨sampleId 0, 1⟩, 0) = .ok (some widePiece) := by
    refine hsplit.slotPiece (R := R) (i := 0) (p := widePiece) rfl hmem.1 (fun r hr => ?_) ?_
    · rw [mem_singleton.mp (mem_candidates.mp hr).1]
      rfl
    · exact ne_nil_of_mem (mem_candidates.mpr ⟨mem_singleton_self _, rfl⟩)
  have hrest : ∀ e ∈ (wideRest n).zipIdx 1,
      slotPiece (sampleId 9) 1 (groupByEvent expected (wideResolved R)) e = .ok none := by
    intro e he
    have hslot := fst_mem_of_mem_zipIdx he
    refine (slotPiece_eq_ok (hmem.2 e.1 hslot)).mpr ?_
    obtain ⟨i, hi, heq⟩ := mem_map.mp hslot
    rw [← heq, candidates_wideResolved R (by have := mem_range.mp hi; omega)]
    exact ⟨⟨by simp, by simp⟩, rfl⟩
  have hmap : (wideManifest R (n + 1)).chunks.zipIdx.mapM (slotPiece (sampleId 9) 1
      (groupByEvent expected (wideResolved R))) =
      .ok (some widePiece :: ((wideRest n).zipIdx 1).map fun _ => none) := by
    rw [wideManifest_chunks, zipIdx_cons, mapM_eq_ok]
    refine .cons hfirst (forall₂_map_right_iff.mpr (forall₂_same.mpr hrest))
  rw [reassembleWithManifest_eq R (sampleId 9) (wideResolved R) (by rw [htotal]; decide) hexp,
    htotal, hmap]
  have hselected : (some widePiece :: ((wideRest n).zipIdx 1).map fun _ => none).reduceOption =
      [widePiece] := by
    rw [reduceOption_cons_of_some, reduceOption, filterMap_map]
    exact congrArg _ (filterMap_eq_nil_iff.mpr fun _ _ => rfl)
  have hhash : (wideManifest R (n + 1)).contentHash = bodyHash R [7] := rfl
  simp [finishSelection, hhash, hsplit.reassembleChunks R]

theorem wide_not_assembled (R : Runtime) :
    ¬Assembled (sampleId 9) (wideManifest R (n + 2)) (wideResolved R) [7] := by
  rintro ⟨pieces, -, hfills⟩
  rw [wideManifest_chunks, wideRest, range_succ_eq_map, map_cons, zipIdx_cons,
    zipIdx_cons] at hfills
  obtain ⟨p, pieces, -, hfills, -⟩ := forall₂_cons_left_iff.mp hfills
  obtain ⟨p', pieces, hsecond, -, -⟩ := forall₂_cons_left_iff.mp hfills
  obtain ⟨r, hr, hid, -⟩ := hsecond.found
  rw [mem_singleton.mp hr] at hid
  exact absurd (sampleId_inj (by omega) (by omega) hid) (by decide)

/-- With `2 ^ 32 + 1` slots the count wraps to one: a payload that lacks all pieces but the first is
read as complete. -/
theorem wide_manifest_complete_unassembled :
    reassembleWithManifest productRuntime (sampleId 9) (wideManifest productRuntime (2 ^ 32 + 1))
      (wideResolved productRuntime) = .complete [7] ∧
    ¬Assembled (sampleId 9) (wideManifest productRuntime (2 ^ 32 + 1))
      (wideResolved productRuntime) [7] :=
  ⟨wide_complete productRuntime rfl (by decide), wide_not_assembled productRuntime⟩

end Residiuum
