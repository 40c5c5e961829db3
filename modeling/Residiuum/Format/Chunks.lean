import Residiuum.Lib.Group
import Residiuum.Format.Scan
import Residiuum.Format.Segment

/-!
# Chunk reassembly

A large payload is stored as independently verifiable pieces. `reassembleChunks` puts the pieces
of one item together, or says why it cannot.

* `reassembleChunks`: group by index, refuse differing contents, lay the groups out in index order.
* **`reassembleChunks_eq_complete`**: a complete body is the concatenation, in index order, of the
  first piece of every index below the declared total.
-/

namespace Residiuum

open ByteLib GroupLib List
open Std (TreeMap)

/-! ## Pieces -/

/-- One independently verified payload chunk contribution. -/
structure ChunkPiece where
  itemId : Arr 16
  /-- Zero-based position in the ordered chunk map. -/
  index : UInt32
  /-- Declared number of chunks of the item. -/
  total : UInt32
  logicalLen : UInt64
  body : Bytes
  deriving DecidableEq, Repr

def CHUNK_BODY_HEADER_LEN : ℕ := 16 + 4 + 4 + 8

def encodeChunkBody (piece : ChunkPiece) : Bytes :=
  [piece.itemId.1, leBytes 4 piece.index.toNat, leBytes 4 piece.total.toNat,
    leBytes 8 piece.logicalLen.toNat, piece.body].flatten

def decodeChunkBody (body : Bytes) : Option ChunkPiece :=
  if body.length < CHUNK_BODY_HEADER_LEN then none
  else
    some
      { itemId := toArr 16 (slice body 0 16)
        index := UInt32.ofNat (ofLe (slice body 16 20))
        total := UInt32.ofNat (ofLe (slice body 20 24))
        logicalLen := UInt64.ofNat (ofLe (slice body 24 32))
        body := body.drop 32 }

theorem decodeChunkBody_encode (piece : ChunkPiece) :
    decodeChunkBody (encodeChunkBody piece) = some piece := by
  have hid := piece.itemId.2
  have hlen : ¬(encodeChunkBody piece).length < CHUNK_BODY_HEADER_LEN := by
    simp [encodeChunkBody, CHUNK_BODY_HEADER_LEN, hid]
    omega
  have h0 : slice (encodeChunkBody piece) 0 16 = piece.itemId.1 :=
    slice_field _ (i := 0) (by simp) rfl (by simp [hid])
  have h1 : slice (encodeChunkBody piece) 16 20 = leBytes 4 piece.index.toNat :=
    slice_field _ (i := 1) (by simp) (by simp [fieldOffset, hid]) (by simp)
  have h2 : slice (encodeChunkBody piece) 20 24 = leBytes 4 piece.total.toNat :=
    slice_field _ (i := 2) (by simp) (by simp [fieldOffset, hid]) (by simp)
  have h3 : slice (encodeChunkBody piece) 24 32 = leBytes 8 piece.logicalLen.toNat :=
    slice_field _ (i := 3) (by simp) (by simp [fieldOffset, hid]) (by simp)
  have h4 : (encodeChunkBody piece).drop 32 = piece.body := by
    have hsplit : encodeChunkBody piece = [piece.itemId.1, leBytes 4 piece.index.toNat,
        leBytes 4 piece.total.toNat, leBytes 8 piece.logicalLen.toNat].flatten ++ piece.body := by
      simp [encodeChunkBody]
    rw [hsplit]
    exact drop_left' (by simp [hid])
  unfold decodeChunkBody
  rw [if_neg hlen, h0, h1, h2, h3, h4, toArr_val, ofLe_leBytes_u32, ofLe_leBytes_u32,
    ofLe_leBytes_u64]

/-! ## Reassembly -/

/-- One extent of a partial map, in byte offsets of the logical stream. -/
structure LogicalExtent where
  index : UInt32
  range : ByteRange
  present : Bool
  deriving DecidableEq, Repr

/-- Result of putting the pieces of one item together. -/
inductive ReassemblyState
  | complete (body : Bytes) (contentHash : Arr 32)
  /-- `Partial` in the source. -/
  | partialMap (extents : List LogicalExtent) (missing : List UInt32)
  | unavailable
  | conflicting (index : UInt32) (bodyHashes : List (Arr 32))
  deriving DecidableEq, Repr

/-- The grouping loop; an index outside the declared total ends it. -/
def groupByIndex (R : Runtime) (total : UInt32) (pieces : List ChunkPiece) :
    Except ReassemblyState (TreeMap UInt32 (List ChunkPiece)) :=
  pieces.foldlM (fun byIndex p =>
    if total ≤ p.index then .error (.conflicting p.index [bodyHash R p.body])
    else .ok (pushEntry byIndex p.index p)) ∅

def sortedHashes (R : Runtime) (group : List ChunkPiece) : List (Arr 32) :=
  ((group.map fun p => bodyHash R p.body).mergeSort fun a b => (compare a b).isLE).destutter (· ≠ ·)

/-- The conflict a group reports when two of its bodies differ. -/
def groupConflict (R : Runtime) (entry : UInt32 × List ChunkPiece) : Option ReassemblyState :=
  match entry.2 with
  | [] => none
  | first :: _ =>
    if entry.2.any fun p => bodyHash R p.body ≠ bodyHash R first.body then
      some (.conflicting entry.1 (sortedHashes R entry.2))
    else none

/-- The state of the loop that lays the groups out. -/
structure Layout where
  extents : List LogicalExtent
  missing : List UInt32
  cursor : UInt64
  completeBody : Bytes
  allPresent : Bool

/-- One round of the layout loop. A group is never empty, so `group[0]` exists. -/
def layoutStep (byIndex : TreeMap UInt32 (List ChunkPiece)) (s : Layout) (i : UInt32) : Layout :=
  match byIndex[i]? with
  | some (p :: _) =>
    let stop := saturatingAdd s.cursor p.logicalLen
    { s with
      extents := s.extents ++ [⟨i, ⟨s.cursor.toNat, stop.toNat⟩, true⟩]
      completeBody := s.completeBody ++ p.body
      cursor := stop }
  | _ =>
    { s with
      allPresent := false
      missing := s.missing ++ [i]
      extents := s.extents ++ [⟨i, ⟨s.cursor.toNat, s.cursor.toNat⟩, false⟩] }

def indices (total : UInt32) : List UInt32 := (List.range total.toNat).map UInt32.ofNat

def layoutGroups (byIndex : TreeMap UInt32 (List ChunkPiece)) (total : UInt32) : Layout :=
  (indices total).foldl (layoutStep byIndex) ⟨[], [], 0, [], true⟩

/-- What the reassembly returns once the groups are laid out. -/
def finishLayout (R : Runtime) (expectedContentHash : Option (Arr 32)) (s : Layout) :
    ReassemblyState :=
  if !s.allPresent then .partialMap s.extents s.missing
  else
    let contentHash := bodyHash R s.completeBody
    match expectedContentHash with
    | some expected =>
      if expected ≠ contentHash then .conflicting 0 [contentHash, expected]
      else .complete s.completeBody contentHash
    | none => .complete s.completeBody contentHash

def reassembleChunks (R : Runtime) (pieces : List ChunkPiece)
    (expectedContentHash : Option (Arr 32)) : ReassemblyState :=
  match pieces with
  | [] => .unavailable
  | first :: _ =>
    if first.total = 0 then .unavailable
    else
      match pieces.find? fun p => p.total ≠ first.total ∨ p.itemId ≠ first.itemId with
      | some p => .conflicting p.index (pieces.map fun p => bodyHash R p.body)
      | none =>
        match groupByIndex R first.total pieces with
        | .error state => state
        | .ok byIndex =>
          match byIndex.toList.findSome? (groupConflict R) with
          | some state => state
          | none => finishLayout R expectedContentHash (layoutGroups byIndex first.total)

/-! ## What a consistent set of pieces gives -/

variable {R : Runtime} {pieces : List ChunkPiece} {total : UInt32}
  {entry : UInt32 × List ChunkPiece} {p : ChunkPiece} {state : ReassemblyState} {i : UInt32}
  {expected : Option (Arr 32)} {body : Bytes} {hash : Arr 32}

def pieceAt (pieces : List ChunkPiece) (i : UInt32) : Option ChunkPiece :=
  pieces.find? fun p => p.index = i

/-- The pieces belong to one item of `total` chunks and agree wherever they overlap. -/
structure Consistent (R : Runtime) (pieces : List ChunkPiece) (total : UInt32) : Prop where
  nonempty : pieces ≠ []
  total_ne : total ≠ 0
  declared : ∀ p ∈ pieces, p.total = total
  item : ∀ p ∈ pieces, ∀ q ∈ pieces, p.itemId = q.itemId
  inside : ∀ p ∈ pieces, p.index < total
  agree : ∀ p ∈ pieces, ∀ q ∈ pieces, p.index = q.index → bodyHash R p.body = bodyHash R q.body

theorem pieceAt_eq_some (h : pieceAt pieces i = some p) : p ∈ pieces ∧ p.index = i := by
  refine ⟨mem_of_find?_eq_some h, ?_⟩
  simpa only [decide_eq_true_eq] using find?_some h

theorem groupConflict_eq_none : groupConflict R entry = none ↔
      ∀ p ∈ entry.2, ∀ q ∈ entry.2, bodyHash R p.body = bodyHash R q.body := by
  obtain ⟨i, group⟩ := entry
  cases group with
  | nil => simp [groupConflict]
  | cons first rest =>
    simp only [groupConflict, ite_eq_right_iff, reduceCtorEq, imp_false, Bool.not_eq_true,
      any_eq_false, decide_eq_true_eq, not_not]
    constructor
    · intro h p hp q hq
      rw [h p hp, h q hq]
    · intro h p hp
      exact h p hp first mem_cons_self

theorem findSome?_groupConflict {byIndex : TreeMap UInt32 (List ChunkPiece)}
    (h : IsGrouping ChunkPiece.index pieces byIndex) :
    byIndex.toList.findSome? (groupConflict R) = none ↔ ∀ p ∈ pieces, ∀ q ∈ pieces,
      p.index = q.index → bodyHash R p.body = bodyHash R q.body := by
  rw [findSome?_eq_none_iff]
  constructor
  · intro hnone p hp q hq hpq
    have hgroup : byIndex[p.index]? = some (pieces.filter fun x => x.index = p.index) :=
      (h _ _).mpr ⟨ne_nil_of_mem (mem_filter.mpr ⟨hp, decide_eq_true rfl⟩), rfl⟩
    exact groupConflict_eq_none.mp
      (hnone (_, _) (TreeMap.mem_toList_iff_getElem?_eq_some.mpr hgroup))
      p (mem_filter.mpr ⟨hp, decide_eq_true rfl⟩)
      q (mem_filter.mpr ⟨hq, decide_eq_true hpq.symm⟩)
  · rintro hagree ⟨i, group⟩ hmem
    have hgroup := TreeMap.mem_toList_iff_getElem?_eq_some.mp hmem
    rw [groupConflict_eq_none]
    intro p hp q hq
    obtain ⟨hp, hpi⟩ := (h.mem_group hgroup).mp hp
    obtain ⟨hq, hqi⟩ := (h.mem_group hgroup).mp hq
    exact hagree p hp q hq (hpi.trans hqi.symm)

theorem groupConflict_eq_some (h : groupConflict R entry = some state) :
    state = .conflicting entry.1 (sortedHashes R entry.2) := by
  unfold groupConflict at h
  split at h
  · cases h
  · split_ifs at h
    exact (Option.some.inj h).symm

/-- The pieces declare one item and one total. -/
def OneManifest (pieces : List ChunkPiece) : Prop :=
  ∀ p ∈ pieces, ∀ q ∈ pieces, q.total = p.total ∧ q.itemId = p.itemId

theorem reassemble_mismatch {ps : List ChunkPiece} {q : ChunkPiece} (hzero : p.total ≠ 0)
    (hfind : (p :: ps).find? (fun q => q.total ≠ p.total ∨ q.itemId ≠ p.itemId) = some q) :
    reassembleChunks R (p :: ps) expected =
      .conflicting q.index ((p :: ps).map fun p => bodyHash R p.body) := by
  unfold reassembleChunks
  dsimp only
  rw [if_neg hzero, hfind]

theorem reassemble_matching (hne : pieces ≠ []) (hone : OneManifest pieces)
    (htotal : ∀ p ∈ pieces, p.total = total) (hzero : total ≠ 0) :
    reassembleChunks R pieces expected =
      match pieces.find? fun q => total ≤ q.index with
      | some x => .conflicting x.index [bodyHash R x.body]
      | none =>
        let byIndex := pieces.foldl (fun m p => pushEntry m p.index p) ∅
        match byIndex.toList.findSome? (groupConflict R) with
        | some state => state
        | none => finishLayout R expected (layoutGroups byIndex total) := by
  cases pieces with
  | nil => exact absurd rfl hne
  | cons p ps =>
    obtain rfl := htotal p mem_cons_self
    have hfind : (p :: ps).find? (fun q => q.total ≠ p.total ∨ q.itemId ≠ p.itemId) = none := by
      rw [find?_eq_none]
      intro q hq
      simp [hone p mem_cons_self q hq]
    unfold reassembleChunks groupByIndex
    dsimp only
    rw [if_neg hzero, hfind, foldlM_guard]
    dsimp only
    cases (p :: ps).find? fun q => p.total ≤ q.index <;> rfl

theorem Consistent.oneManifest (h : Consistent R pieces total) : OneManifest pieces :=
  fun p hp q hq => ⟨(h.declared q hq).trans (h.declared p hp).symm, h.item q hq p hp⟩

/-- **Consistent pieces are laid out.** -/
theorem Consistent.reassemble (h : Consistent R pieces total) :
    reassembleChunks R pieces expected = finishLayout R expected
      (layoutGroups (pieces.foldl (fun m p => pushEntry m p.index p) ∅) total) := by
  have hfind : pieces.find? (fun q => total ≤ q.index) = none := by
    rw [find?_eq_none]
    intro q hq
    simpa using h.inside q hq
  rw [reassemble_matching h.nonempty h.oneManifest h.declared h.total_ne, hfind]
  dsimp only
  rw [(findSome?_groupConflict (isGrouping_foldl ChunkPiece.index pieces)).mpr h.agree]

/-- All others are unavailable or in conflict. -/
theorem exists_consistent (h : reassembleChunks R pieces expected = .complete body hash) :
    ∃ total, Consistent R pieces total := by
  cases pieces with
  | nil => cases h
  | cons p ps =>
    by_cases hzero : p.total = 0
    · rw [reassembleChunks, if_pos hzero] at h
      cases h
    cases hfind : (p :: ps).find? (fun q => q.total ≠ p.total ∨ q.itemId ≠ p.itemId) with
    | some q =>
      rw [reassemble_mismatch hzero hfind] at h
      cases h
    | none =>
      have hsame : ∀ q ∈ p :: ps, q.total = p.total ∧ q.itemId = p.itemId := by
        simpa only [find?_eq_none, decide_eq_true_eq, not_or, not_not] using hfind
      have hone : OneManifest (p :: ps) := fun a ha b hb =>
        ⟨(hsame b hb).1.trans (hsame a ha).1.symm, (hsame b hb).2.trans (hsame a ha).2.symm⟩
      have hne := cons_ne_nil p ps
      rw [reassemble_matching hne hone (fun q hq => (hsame q hq).1) hzero] at h
      split at h
      next => cases h
      next hin =>
        dsimp only at h
        split at h
        next state hconflict =>
          obtain ⟨entry, -, hentry⟩ := exists_of_findSome?_eq_some hconflict
          cases (groupConflict_eq_some hentry).symm.trans h
        next hagree =>
          refine ⟨p.total, hne, hzero, fun q hq => (hsame q hq).1, fun a ha b hb =>
            (hone b hb a ha).2, fun q hq => ?_,
            (findSome?_groupConflict (isGrouping_foldl ChunkPiece.index (p :: ps))).mp hagree⟩
          simpa using find?_eq_none.mp hin q hq

/-- Where the layout loop stands after the indices `done`. -/
structure LaidOut (pieces : List ChunkPiece) (done : List UInt32) (s : Layout) : Prop where
  body : s.completeBody = ((done.filterMap (pieceAt pieces)).map ChunkPiece.body).flatten
  missing : s.missing = done.filter fun i => (pieceAt pieces i).isNone
  extents : s.extents.map (fun e => (e.index, e.present)) =
    done.map fun i => (i, (pieceAt pieces i).isSome)
  present : s.allPresent = true ↔ ∀ i ∈ done, (pieceAt pieces i).isSome

variable {byIndex : TreeMap UInt32 (List ChunkPiece)} {done : List UInt32} {s : Layout}

theorem layoutStep_eq (hgroup : IsGrouping ChunkPiece.index pieces byIndex) (s : Layout)
    (i : UInt32) : layoutStep byIndex s i =
      match pieceAt pieces i with
      | some p =>
        let stop := saturatingAdd s.cursor p.logicalLen
        ⟨s.extents ++ [⟨i, ⟨s.cursor.toNat, stop.toNat⟩, true⟩], s.missing, stop,
          s.completeBody ++ p.body, s.allPresent⟩
      | none =>
        ⟨s.extents ++ [⟨i, ⟨s.cursor.toNat, s.cursor.toNat⟩, false⟩], s.missing ++ [i], s.cursor,
          s.completeBody, false⟩ := by
  have hat : ((byIndex[i]?).getD []).head? = pieceAt pieces i := hgroup.head? i
  rw [← hat]
  unfold layoutStep
  rcases byIndex[i]? with - | (- | ⟨p, rest⟩) <;> rfl

theorem LaidOut.step (h : LaidOut pieces done s)
    (hgroup : IsGrouping ChunkPiece.index pieces byIndex) (i : UInt32) :
    LaidOut pieces (done ++ [i]) (layoutStep byIndex s i) := by
  have hone : ∀ {P : UInt32 → Prop}, (∀ j ∈ done ++ [i], P j) ↔ (∀ j ∈ done, P j) ∧ P i := by
    intro P
    rw [forall_mem_append, forall_mem_singleton]
  rw [layoutStep_eq hgroup]
  cases hp : pieceAt pieces i with
  | some p =>
    exact
      { body := by simp [h.body, hp]
        missing := by simp [h.missing, hp]
        extents := by simp [h.extents, hp]
        present := by rw [hone, hp]; simpa using h.present }
  | none =>
    exact
      { body := by simp [h.body, hp]
        missing := by simp [h.missing, hp]
        extents := by simp [h.extents, hp]
        present := by rw [hone, hp]; simp }

theorem laidOut_layoutGroups (hgroup : IsGrouping ChunkPiece.index pieces byIndex)
    (total : UInt32) : LaidOut pieces (indices total) (layoutGroups byIndex total) := by
  unfold layoutGroups
  induction indices total using List.reverseRecOn with
  | nil => exact ⟨rfl, rfl, rfl, by simp⟩
  | append_singleton is i ih =>
    rw [foldl_append, foldl_cons, foldl_nil]
    exact ih.step hgroup i

theorem finishLayout_eq_complete : finishLayout R expected s = .complete body hash ↔
    s.allPresent = true ∧ s.completeBody = body ∧ bodyHash R body = hash ∧
      ∀ e, expected = some e → e = hash := by
  unfold finishLayout
  cases s.allPresent with
  | false => simp
  | true =>
    cases expected with
    | none =>
      simp only [Bool.not_true, Bool.false_eq_true, if_false, ReassemblyState.complete.injEq,
        true_and, reduceCtorEq, false_implies, implies_true, and_true]
      exact and_congr_right fun h => by rw [h]
    | some e =>
      by_cases he : e = bodyHash R s.completeBody
      · simp only [Bool.not_true, Bool.false_eq_true, if_false, ne_eq, he, not_true,
          ReassemblyState.complete.injEq, true_and, Option.some.injEq, forall_eq']
        constructor
        · rintro ⟨rfl, rfl⟩
          exact ⟨rfl, rfl, rfl⟩
        · rintro ⟨rfl, rfl, -⟩
          exact ⟨rfl, rfl⟩
      · simp only [Bool.not_true, Bool.false_eq_true, if_false, ne_eq, he, not_false_iff, if_true,
          reduceCtorEq, true_and, Option.some.injEq, forall_eq', false_iff]
        rintro ⟨rfl, rfl, heq⟩
        exact he heq

theorem reassembleChunks_eq_complete :
    reassembleChunks R pieces expected = .complete body hash ↔
      ∃ (total : UInt32) (chosen : List ChunkPiece), Consistent R pieces total ∧
        (indices total).map (pieceAt pieces) = chosen.map some ∧
        (chosen.map ChunkPiece.body).flatten = body ∧ bodyHash R body = hash ∧
        ∀ e, expected = some e → e = hash := by
  have hlaid : ∀ total, Consistent R pieces total →
      (reassembleChunks R pieces expected = .complete body hash ↔ ∃ chosen : List ChunkPiece,
        (indices total).map (pieceAt pieces) = chosen.map some ∧
        (chosen.map ChunkPiece.body).flatten = body ∧ bodyHash R body = hash ∧
        ∀ e, expected = some e → e = hash) := by
    intro total hcons
    have hlaid := laidOut_layoutGroups (isGrouping_foldl ChunkPiece.index pieces) total
    rw [hcons.reassemble, finishLayout_eq_complete, hlaid.present, ← exists_map_eq_map_some,
      hlaid.body]
    constructor
    · rintro ⟨⟨chosen, hchosen⟩, hbody, hrest⟩
      rw [filterMap_eq_of_map hchosen] at hbody
      exact ⟨chosen, hchosen, hbody, hrest⟩
    · rintro ⟨chosen, hchosen, hbody, hrest⟩
      rw [filterMap_eq_of_map hchosen]
      exact ⟨⟨chosen, hchosen⟩, hbody, hrest⟩
  constructor
  · intro h
    obtain ⟨total, hcons⟩ := exists_consistent h
    obtain ⟨chosen, hchosen⟩ := (hlaid total hcons).mp h
    exact ⟨total, chosen, hcons, hchosen⟩
  · rintro ⟨total, chosen, hcons, hchosen⟩
    exact (hlaid total hcons).mpr ⟨chosen, hchosen⟩

end Residiuum
