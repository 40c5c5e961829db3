import Residiuum.Atomics.FieldCodec

/-!
# Prepare, member, decision and tombstone records: the round trips

A record is read back exactly when it is the one that is written: for each of the four kinds the
reader returns a value on the bytes its writer gives for it, and on no others. The one exception is
the construction deadline of a prepare, which the wire keeps in whole milliseconds.

* **`evidence_codec_exact_iff`**: the round trips, with the deadline a prepare needs for them.
-/

namespace Residiuum.Atomics

open AtomicId ByteLib List Value

/-! ## Records as maps -/

variable {es : Map} {b : Bytes} {v : Value} {p : AtomicPrepare} {id : ObjectIdentity}
  {m : AtomicMember} {t : DecisionTombstone} {d : AtomicDecision}

theorem encodeMap_of_decodeMap (h : decodeMap b = .ok es) : encodeMap es = .ok b := by
  obtain ⟨hc, hw, rfl⟩ := decodeMap_eq_ok.mp h
  exact encodeMap_of_canon hc hw.succ

theorem canon_field {k : UInt64} (hc : (map es).Canon) (h : field es k = some v) : v.Canon := by
  obtain ⟨-, hsort, hcanon⟩ := canon_map.mp hc
  exact hcanon (k, v) ((field_eq_some hsort).mp h)

theorem sorted_of_canon (hc : (map es).Canon) :
    es.Pairwise fun a b => a.1 < b.1 := (canon_map.mp hc).2.1

theorem canon_arr {n : ℕ} (a : Arr n) (hn : n < 2 ^ 64) : (bytes a.1).Canon :=
  canon_bytes (by rw [a.2]; exact hn)

def prepareEntries (p : AtomicPrepare) : Map :=
  [(1, .bytes p.atomicId.1.1), (2, .bytes p.heapId.1.1), (3, .uint p.scope.wireCode.toUInt64),
    (4, .bytes p.contentRoot.1.1), (5, .bytes p.frontier.1),
    (6, .bytes p.orderedMemberManifestRoot.1), (7, .bytes p.readSetRoot.1),
    (8, .bytes p.predicateSetRoot.1), (9, .bytes p.activeRuleRevisionRoot.1),
    (10, .map (encodeLimits p.limits)), (11, .uint p.memberCount.toUInt64)]

theorem canon_prepare (p : AtomicPrepare) : (map (prepareEntries p)).Canon := by
  refine canon_map.mpr ⟨show 11 < 2 ^ 64 by decide, ?_, ?_⟩
  · unfold prepareEntries
    simp
  · unfold prepareEntries
    simp [canon_uint, canon_arr, canon_limits]

theorem within_prepare (p : AtomicPrepare) : (map (prepareEntries p)).Within 9 := by
  have hlimits : (map (encodeLimits p.limits)).Within 8 :=
    (within_limits p.limits).succ.succ.succ.succ.succ.succ
  unfold prepareEntries Value.Within
  simp only [forall_mem_cons, not_mem_nil, false_imp_iff, implies_true, and_true]
  exact ⟨trivial, trivial, trivial, trivial, trivial, trivial, trivial, trivial, trivial, hlimits,
    trivial⟩

theorem decodePrepare_eq_ok : decodePrepare b = .ok p ↔
    decodeMap b = .ok (prepareEntries p) ∧ p.limits.constructionDeadline.Whole := by
  unfold decodePrepare
  rw [bind_eq_ok]
  constructor
  · rintro ⟨map, hmap, h⟩
    have hc := (decodeMap_eq_ok.mp hmap).1
    simp only [bind_eq_ok, refuseUnknownKeys_eq_ok, fromBytes, HeapId.fromBytes,
      ContentRoot.fromBytes, requireCode_eq_ok CoordinationScope.fromWireCode_eq_some,
      requireBstr_eq_ok, identityFromBytes_eq_ok, requireU32_eq_ok, requireMap_eq_ok,
      pure_eq_ok] at h
    obtain ⟨_, hkeys, scope, h3, _, h1, atomicId, rfl, _, h2, heapId, rfl, _, h4, contentRoot, rfl,
      frontier, h5, manifest, h6, count, h11, reads, h7, predicates, h8, rules, h9, _, h10, limits,
      hlimits, rfl⟩ := h
    obtain ⟨rfl, hwhole⟩ :=
      (decodeLimits_eq_ok (sorted_of_canon (canon_field hc h10))).mp hlimits
    refine ⟨?_, hwhole⟩
    rw [hmap, eq_fields (sorted_of_canon hc) (by decide) hkeys, fieldsOf]
    simp only [filterMap_cons, filterMap_nil, h1, h2, h3, h4, h5, h6, h7, h8, h9, h10, h11,
      Option.map_some]
    rfl
  · rintro ⟨hmap, hwhole⟩
    refine ⟨_, hmap, ?_⟩
    simp only [bind_eq_ok, refuseUnknownKeys_eq_ok, fromBytes, HeapId.fromBytes,
      ContentRoot.fromBytes, requireCode_eq_ok CoordinationScope.fromWireCode_eq_some,
      requireBstr_eq_ok, identityFromBytes_eq_ok, requireU32_eq_ok, requireMap_eq_ok, pure_eq_ok]
    refine ⟨(), fun e he => mem_map_of_mem (f := Prod.fst) he, p.scope, rfl, _, rfl,
      p.atomicId, rfl, _, rfl, p.heapId, rfl, _, rfl, p.contentRoot, rfl, p.frontier, rfl,
      p.orderedMemberManifestRoot, rfl, p.memberCount, rfl, p.readSetRoot, rfl, p.predicateSetRoot,
      rfl, p.activeRuleRevisionRoot, rfl, _, rfl, p.limits, ?_, rfl⟩
    exact (decodeLimits_eq_ok (sorted_of_canon (canon_limits _))).mpr ⟨rfl, hwhole⟩

/-! ## Member -/

def identityEntries (id : ObjectIdentity) : Map :=
  [(1, .bytes id.collectionId.1.1), (2, .map (keyEntries id.key))]

theorem encodeObjectIdentity_eq_ok : encodeObjectIdentity id = .ok v ↔
      validateCanonicalKey id.key = .ok () ∧ v = .map (identityEntries id) :=
  keyMap_bind_eq_ok

theorem decodeObjectIdentity_eq_ok (hc : v.Canon) : decodeObjectIdentity v = .ok id ↔
      validateCanonicalKey id.key = .ok () ∧ v = .map (identityEntries id) := by
  unfold decodeObjectIdentity
  simp only [bind_eq_ok, asMap_eq_ok, refuseUnknownKeys_eq_ok, CollectionId.fromBytes,
    requireBstr_eq_ok, identityFromBytes_eq_ok, requireValue_eq_ok, pure_eq_ok]
  constructor
  · rintro ⟨map, rfl, _, hkeys, _, h1, collectionId, rfl, w, h2, key, hkey, rfl⟩
    obtain ⟨hvalid, rfl⟩ := (decodeKey_eq_ok (canon_field hc h2)).mp hkey
    refine ⟨hvalid, congrArg Value.map ?_⟩
    rw [eq_fields (sorted_of_canon hc) (by decide) hkeys, fieldsOf]
    simp only [filterMap_cons, filterMap_nil, h1, h2, Option.map_some]
    rfl
  · rintro ⟨hvalid, rfl⟩
    refine ⟨_, rfl, (), fun e he => mem_map_of_mem (f := Prod.fst) he, _, rfl, id.collectionId, rfl,
      _, rfl, id.key, ?_, rfl⟩
    have hkey : field (identityEntries id) 2 = some (.map (keyEntries id.key)) := rfl
    exact (decodeKey_eq_ok (canon_field hc hkey)).mpr ⟨hvalid, rfl⟩

def CanonicalKey.payload : CanonicalKey → Bytes
  | .string s => stringBytes s
  | .opaqueBytes b => b
  | .integer b => b
  | .decimal coefficient _ => coefficient

def CanonicalKey.Fits (key : CanonicalKey) : Prop := key.payload.length < 2 ^ 64

theorem canon_key {key : CanonicalKey} (h : key.Fits) : (map (keyEntries key)).Canon := by
  cases key <;> refine canon_map.mpr ⟨by simp [keyEntries], by simp [keyEntries], ?_⟩ <;>
    simp only [keyEntries, forall_mem_cons, not_mem_nil, false_imp_iff, implies_true, and_true]
  case decimal => exact ⟨canon_uint 4, canon_bytes h, canon_encodeInt _⟩
  all_goals exact ⟨canon_uint _, canon_bytes h⟩

theorem within_key (key : CanonicalKey) : (map (keyEntries key)).Within 2 := by
  cases key with
  | decimal coefficient scale =>
    unfold keyEntries Value.Within
    simp only [forall_mem_cons, not_mem_nil, false_imp_iff, implies_true, and_true]
    exact ⟨trivial, trivial, within_encodeInt scale 0⟩
  | _ =>
    unfold keyEntries Value.Within
    simp only [forall_mem_cons, not_mem_nil, false_imp_iff, implies_true, and_true]
    exact ⟨trivial, trivial⟩

def memberFields (m : AtomicMember) : List (UInt64 × Option Value) :=
  [(1, some (.bytes m.atomicId.1.1)), (2, some (.uint m.ordinal.toUInt64)),
    (3, some (.map (identityEntries m.objectIdentity))),
    (4, some (.uint m.memberKind.wireCode.toUInt64)),
    (5, m.beforeVersion.map fun v => .bytes v.1.1), (6, m.afterContentHash.map fun h => .bytes h.1),
    (7, some (.bytes m.eventId.1.1))]

theorem memberFields_sorted (m : AtomicMember) : ((memberFields m).map Prod.fst).Pairwise (· < ·) :=
  show ([1, 2, 3, 4, 5, 6, 7] : List UInt64).Pairwise (· < ·) by decide

theorem encodeMember_eq_ok : encodeMember m = .ok b ↔
    m.validate = .ok () ∧ validateCanonicalKey m.objectIdentity.key = .ok () ∧
      encodeMap (record (memberFields m)) = .ok b := by
  have hentries : ∀ identity, identity = .map (identityEntries m.objectIdentity) →
      [(1, .bytes m.atomicId.1.1), (2, .uint m.ordinal.toUInt64), (3, identity),
        (4, .uint m.memberKind.wireCode.toUInt64)] ++
        m.beforeVersion.toList.map (fun v => (5, bytes v.1.1)) ++
        m.afterContentHash.toList.map (fun h => (6, bytes h.1)) ++
        [(7, .bytes m.eventId.1.1)] = record (memberFields m) := by
    rintro _ rfl
    obtain ⟨atomicId, ordinal, identity, kind, before, after, eventId⟩ := m
    cases before <;> cases after <;> rfl
  unfold encodeMember encodeMemberBody
  simp only [bind_eq_ok, encodeObjectIdentity_eq_ok]
  constructor
  · rintro ⟨_, hvalid, identity, ⟨hkey, hidentity⟩, h⟩
    rw [hentries identity hidentity] at h
    exact ⟨hvalid, hkey, h⟩
  · rintro ⟨hvalid, hkey, h⟩
    refine ⟨(), hvalid, _, ⟨hkey, rfl⟩, ?_⟩
    rw [hentries _ rfl]
    exact h

theorem decodeMember_eq_ok : decodeMember b = .ok m ↔
    m.validate = .ok () ∧ validateCanonicalKey m.objectIdentity.key = .ok () ∧
      decodeMap b = .ok (record (memberFields m)) := by
  unfold decodeMember
  rw [bind_eq_ok]
  simp only [bind_eq_ok, refuseUnknownKeys_eq_ok, fromBytes,
    VersionId.fromBytes, requireCode_eq_ok MutationKind.fromWireCode_eq_some, requireBstr_eq_ok,
    identityFromBytes_eq_ok, requireU32_eq_ok, requireValue_eq_ok, optionalVersion_eq_ok,
    optionalBstr32_eq_ok, pure_eq_ok]
  constructor
  · rintro ⟨map, hmap, _, hkeys, kind, h4, _, h1, atomicId, rfl, ordinal, h2, w, h3, identity,
      hidentity, before, h5, after, h6, _, h7, eventId, rfl, _, hvalid, rfl⟩
    have hc := (decodeMap_eq_ok.mp hmap).1
    obtain ⟨hkey, rfl⟩ := (decodeObjectIdentity_eq_ok (canon_field hc h3)).mp hidentity
    refine ⟨hvalid, hkey, ?_⟩
    rw [hmap, eq_record (sorted_of_canon hc) (by decide) hkeys]
    simp only [map_cons, map_nil, h1, h2, h3, h4, h5, h6, h7]
    rfl
  · rintro ⟨hvalid, hkey, hmap⟩
    have hc := (decodeMap_eq_ok.mp hmap).1
    have hfield := @field_record _ (memberFields_sorted m)
    have hthree : field (record (memberFields m)) 3 =
        some (.map (identityEntries m.objectIdentity)) :=
      hfield 2 rfl
    have hidentity := (decodeObjectIdentity_eq_ok (canon_field hc hthree)).mpr ⟨hkey, rfl⟩
    exact ⟨_, hmap, (), fun e he => keys_record he, m.memberKind, hfield 3 rfl, _, hfield 0 rfl,
      m.atomicId, rfl, m.ordinal, hfield 1 rfl, _, hthree, m.objectIdentity, hidentity,
      m.beforeVersion, hfield 4 rfl, m.afterContentHash, hfield 5 rfl, _, hfield 6 rfl, m.eventId,
      rfl, (), hvalid, rfl⟩

theorem canon_identity (h : id.key.Fits) : (map (identityEntries id)).Canon := by
  refine canon_map.mpr ⟨show 2 < 2 ^ 64 by decide, ?_, ?_⟩
  · unfold identityEntries
    simp
  · unfold identityEntries
    simp [canon_arr, canon_key h]

theorem canon_member (h : m.objectIdentity.key.Fits) : (map (record (memberFields m))).Canon := by
  refine canon_record (show 7 < 2 ^ 64 by decide) (memberFields_sorted m) ?_
  simp only [memberFields, forall_fields, and_true]
  exact ⟨canon_arr _ (by decide), canon_uint _, canon_identity h, canon_uint _,
    fun v _ => canon_arr v.1 (by decide), fun a _ => canon_arr a (by decide),
    canon_arr _ (by decide)⟩

theorem within_member (m : AtomicMember) : (map (record (memberFields m))).Within 9 := by
  have hidentity : (map (identityEntries m.objectIdentity)).Within 8 := by
    unfold identityEntries
    rw [Value.Within]
    simp only [forall_mem_cons, not_mem_nil, false_imp_iff, implies_true, and_true]
    exact ⟨trivial, (within_key m.objectIdentity.key).succ.succ.succ.succ.succ⟩
  refine within_record ?_
  simp only [memberFields, forall_fields, and_true]
  exact ⟨trivial, trivial, hidentity, trivial, fun _ _ => trivial, fun _ _ => trivial, trivial⟩

/-! ## Decision -/

def decisionFields (d : AtomicDecision) : List (UInt64 × Option Value) :=
  [(1, some (.bytes d.atomicId.1.1)), (2, some (.bytes d.prepareHash.1)),
    (3, some (.bytes d.memberRoot.1)), (4, some (.uint d.memberCount.toUInt64)),
    (5, some (.uint d.decision.wireCode.toUInt64)), (6, d.commitPosition.map .uint),
    (7, some (.uint d.durability.wireCode.toUInt64)),
    (8, d.abortReason.map fun r => .uint r.wireCode.toUInt64)]

theorem decisionFields_sorted (d : AtomicDecision) :
    ((decisionFields d).map Prod.fst).Pairwise (· < ·) :=
  show ([1, 2, 3, 4, 5, 6, 7, 8] : List UInt64).Pairwise (· < ·) by decide

theorem encodeDecision_eq_ok : encodeDecision d = .ok b ↔
    d.validate = .ok () ∧ encodeMap (record (decisionFields d)) = .ok b := by
  have hbody : encodeDecision d =
      (d.validate >>= fun _ => encodeMap (record (decisionFields d))) := by
    obtain ⟨atomicId, prepareHash, memberRoot, count, decision, position, durability, abort⟩ := d
    cases position <;> cases abort <;> rfl
  rw [hbody, check_bind_eq_ok]

theorem decodeDecision_eq_ok : decodeDecision b = .ok d ↔
    d.validate = .ok () ∧ decodeMap b = .ok (record (decisionFields d)) := by
  unfold decodeDecision
  rw [bind_eq_ok]
  simp only [bind_eq_ok, refuseUnknownKeys_eq_ok, fromBytes,
    requireCode_eq_ok DecisionCode.fromWireCode_eq_some,
    requireCode_eq_ok Durability.fromWireCode_eq_some, requireBstr_eq_ok, identityFromBytes_eq_ok,
    requireU32_eq_ok, optionalU64_eq_ok, optionalAbort_eq_ok, pure_eq_ok]
  constructor
  · rintro ⟨map, hmap, _, hkeys, _, h1, atomicId, rfl, prepareHash, h2, memberRoot, h3, count, h4,
      decision, h5, position, h6, durability, h7, abort, h8, _, hvalid, rfl⟩
    have hc := (decodeMap_eq_ok.mp hmap).1
    refine ⟨hvalid, ?_⟩
    rw [hmap, eq_record (sorted_of_canon hc) (by decide) hkeys]
    simp only [map_cons, map_nil, h1, h2, h3, h4, h5, h6, h7, h8]
    rfl
  · rintro ⟨hvalid, hmap⟩
    have hfield := @field_record _ (decisionFields_sorted d)
    exact ⟨_, hmap, (), fun e he => keys_record he, _, hfield 0 rfl, d.atomicId, rfl, d.prepareHash,
      hfield 1 rfl, d.memberRoot, hfield 2 rfl, d.memberCount, hfield 3 rfl, d.decision,
      hfield 4 rfl, d.commitPosition, hfield 5 rfl, d.durability, hfield 6 rfl, d.abortReason,
      hfield 7 rfl, (), hvalid, rfl⟩

theorem canon_decision (d : AtomicDecision) : (map (record (decisionFields d))).Canon := by
  refine canon_record (show 8 < 2 ^ 64 by decide) (decisionFields_sorted d) ?_
  simp only [decisionFields, forall_fields, and_true]
  exact ⟨canon_arr _ (by decide), canon_arr _ (by decide), canon_arr _ (by decide), canon_uint _,
    canon_uint _, fun _ _ => canon_uint _, canon_uint _, fun _ _ => canon_uint _⟩

theorem within_decision (d : AtomicDecision) : (map (record (decisionFields d))).Within 9 := by
  refine within_record ?_
  simp only [decisionFields, forall_fields, and_true]
  exact ⟨trivial, trivial, trivial, trivial, trivial, fun _ _ => trivial, trivial,
    fun _ _ => trivial⟩

/-! ## Tombstone -/

def tombstoneFields (t : DecisionTombstone) : List (UInt64 × Option Value) :=
  [(1, some (.bytes t.atomicId.1.1)), (2, some (.bytes t.contentRoot.1.1)),
    (3, some (.uint t.decision.wireCode.toUInt64)), (4, t.commitPosition.map .uint),
    (5, some (.bytes t.decisionHash.1)), (6, t.abortReason.map fun r => .uint r.wireCode.toUInt64)]

theorem tombstoneFields_sorted (t : DecisionTombstone) :
    ((tombstoneFields t).map Prod.fst).Pairwise (· < ·) :=
  show ([1, 2, 3, 4, 5, 6] : List UInt64).Pairwise (· < ·) by decide

theorem encodeTombstone_eq_ok : encodeTombstone t = .ok b ↔
      t.validate = .ok () ∧ encodeMap (record (tombstoneFields t)) = .ok b := by
  have hbody : encodeTombstone t =
      (t.validate >>= fun _ => encodeMap (record (tombstoneFields t))) := by
    obtain ⟨atomicId, contentRoot, decision, position, decisionHash, abort⟩ := t
    cases position <;> cases abort <;> rfl
  rw [hbody, check_bind_eq_ok]

theorem decodeTombstone_eq_ok : decodeTombstone b = .ok t ↔
      t.validate = .ok () ∧ decodeMap b = .ok (record (tombstoneFields t)) := by
  unfold decodeTombstone
  rw [bind_eq_ok]
  simp only [bind_eq_ok, refuseUnknownKeys_eq_ok, fromBytes,
    ContentRoot.fromBytes, requireCode_eq_ok DecisionCode.fromWireCode_eq_some, requireBstr_eq_ok,
    identityFromBytes_eq_ok, optionalU64_eq_ok, optionalAbort_eq_ok, pure_eq_ok]
  constructor
  · rintro ⟨map, hmap, _, hkeys, _, h1, atomicId, rfl, _, h2, contentRoot, rfl, decision, h3,
      position, h4, decisionHash, h5, abort, h6, _, hvalid, rfl⟩
    have hc := (decodeMap_eq_ok.mp hmap).1
    refine ⟨hvalid, ?_⟩
    rw [hmap, eq_record (sorted_of_canon hc) (by decide) hkeys]
    simp only [map_cons, map_nil, h1, h2, h3, h4, h5, h6]
    rfl
  · rintro ⟨hvalid, hmap⟩
    have hfield := @field_record _ (tombstoneFields_sorted t)
    exact ⟨_, hmap, (), fun e he => keys_record he, _, hfield 0 rfl, t.atomicId, rfl, _,
      hfield 1 rfl, t.contentRoot, rfl, t.decision, hfield 2 rfl, t.commitPosition, hfield 3 rfl,
      t.decisionHash, hfield 4 rfl, t.abortReason, hfield 5 rfl, (), hvalid, rfl⟩

theorem canon_tombstone (t : DecisionTombstone) : (map (record (tombstoneFields t))).Canon := by
  refine canon_record (show 6 < 2 ^ 64 by decide) (tombstoneFields_sorted t) ?_
  simp only [tombstoneFields, forall_fields, and_true]
  exact ⟨canon_arr _ (by decide), canon_arr _ (by decide), canon_uint _, fun _ _ => canon_uint _,
    canon_arr _ (by decide), fun _ _ => canon_uint _⟩

theorem within_tombstone (t : DecisionTombstone) : (map (record (tombstoneFields t))).Within 9 := by
  refine within_record ?_
  simp only [tombstoneFields, forall_fields, and_true]
  exact ⟨trivial, trivial, trivial, fun _ _ => trivial, trivial, fun _ _ => trivial⟩

/-! ## The round trips -/

theorem encodePrepare_of_decodePrepare
    (h : decodePrepare b = .ok p) : encodePrepare p = .ok b :=
  encodeMap_of_decodeMap (decodePrepare_eq_ok.mp h).1

theorem decodePrepare_of_encodePrepare
    (h : encodePrepare p = .ok b) :
    decodePrepare b = .ok p ↔ p.limits.constructionDeadline.Whole := by
  have hmap : decodeMap b = .ok (prepareEntries p) :=
    (decodeMap_iff_encodeMap (canon_prepare p) (within_prepare p)).mpr h
  rw [decodePrepare_eq_ok]
  exact and_iff_right hmap

theorem encodePrepare_ok (p : AtomicPrepare) : ∃ b, encodePrepare p = .ok b :=
  ⟨_, encodeMap_of_canon (canon_prepare p) (within_prepare p).succ⟩

/-- **Every record is read back from the bytes that are written for it, and the bytes a record is
read from are the ones written for it; a prepare is read back exactly when its construction
deadline is a whole number of milliseconds that fits in `u64`.** -/
theorem evidence_codec_exact_iff (b : Bytes) (p : AtomicPrepare) (m : AtomicMember)
    (d : AtomicDecision) (t : DecisionTombstone) :
    (encodePrepare p = .ok b →
      (decodePrepare b = .ok p ↔ p.limits.constructionDeadline.Whole)) ∧
    (decodePrepare b = .ok p → encodePrepare p = .ok b) ∧
    (m.objectIdentity.key.Fits → encodeMember m = .ok b → decodeMember b = .ok m) ∧
    (decodeMember b = .ok m → encodeMember m = .ok b) ∧
    (encodeDecision d = .ok b ↔ decodeDecision b = .ok d) ∧
    (encodeTombstone t = .ok b ↔ decodeTombstone b = .ok t) := by
  refine ⟨fun h => decodePrepare_of_encodePrepare h, fun h => encodePrepare_of_decodePrepare h,
    fun hfits h => ?_, fun h => ?_, ?_, ?_⟩
  · obtain ⟨hvalid, hkey, hmap⟩ := encodeMember_eq_ok.mp h
    exact decodeMember_eq_ok.mpr
      ⟨hvalid, hkey, (decodeMap_iff_encodeMap (canon_member hfits) (within_member m)).mpr hmap⟩
  · obtain ⟨hvalid, hkey, hmap⟩ := decodeMember_eq_ok.mp h
    exact encodeMember_eq_ok.mpr ⟨hvalid, hkey, encodeMap_of_decodeMap hmap⟩
  · rw [encodeDecision_eq_ok, decodeDecision_eq_ok,
      decodeMap_iff_encodeMap (canon_decision d) (within_decision d)]
  · rw [encodeTombstone_eq_ok, decodeTombstone_eq_ok,
      decodeMap_iff_encodeMap (canon_tombstone t) (within_tombstone t)]

section Sample

def sevens (n : ℕ) (h : List.replicate n (7 : UInt8) ≠ List.replicate n 0) : Identity n :=
  ⟨⟨List.replicate n 7, length_replicate⟩, fun he => h (congrArg Subtype.val he)⟩

/-- The atomic id, and content root, of the samples. -/
def sevenLong : AtomicId := sevens 32 (by decide)

/-- The heap, collection and event of the samples. -/
def sevenShort : HeapId := sevens 16 (by decide)

/-- A prepare whose limits allow the given time for construction. -/
def prepareWithin (deadline : Duration) : AtomicPrepare where
  atomicId := sevenLong
  heapId := sevenShort
  scope := .localHeap
  contentRoot := sevenLong
  frontier := zeros 32
  orderedMemberManifestRoot := zeros 32
  memberCount := 1
  readSetRoot := zeros 32
  predicateSetRoot := zeros 32
  activeRuleRevisionRoot := zeros 32
  limits := { ResourceLimits.builderDefaultsLocalHeap with constructionDeadline := deadline }

def halfMilli : Duration := ⟨0, 500000, by decide⟩

/-- **A prepare that allows half a millisecond is written, and reads as another.** -/
theorem prepare_half_milli_lost : ∃ b, encodePrepare (prepareWithin halfMilli) = .ok b ∧
      decodePrepare b ≠ .ok (prepareWithin halfMilli) := by
  obtain ⟨b, hb⟩ := encodePrepare_ok (prepareWithin halfMilli)
  have hwhole : ¬ halfMilli.Whole := by decide
  exact ⟨b, hb, fun h => hwhole ((decodePrepare_of_encodePrepare hb).mp h)⟩

def putOfK : AtomicMember :=
  ⟨sevenLong, 0, ⟨sevenShort, .opaqueBytes [0x6b]⟩, .put, none,
    some (zeros 32), sevenShort⟩

theorem putOfK_writes : putOfK.validate = .ok () ∧
    validateCanonicalKey putOfK.objectIdentity.key = .ok () ∧ putOfK.objectIdentity.key.Fits :=
  ⟨rfl, rfl, show 1 < 2 ^ 64 by decide⟩

def commitOfK : AtomicDecision :=
  ⟨sevenLong, zeros 32, zeros 32, 1, .committed, some 1, .durable, none⟩

def tombstoneOfK : DecisionTombstone :=
  ⟨sevenLong, sevenLong, .committed, some 1, zeros 32, none⟩

/-- The round trips of a prepare that allows five seconds, and of a member. -/
theorem evidence_codec_exact_five_seconds :
    (∃ b, encodePrepare (prepareWithin (.fromSecs 5)) = .ok b ∧
      decodePrepare b = .ok (prepareWithin (.fromSecs 5))) ∧
    ∃ b, encodeMember putOfK = .ok b ∧ decodeMember b = .ok putOfK := by
  have hwhole : (Duration.fromSecs 5).Whole := by decide
  obtain ⟨b, hb⟩ := encodePrepare_ok (prepareWithin (.fromSecs 5))
  obtain ⟨hvalid, hkey, hfits⟩ := putOfK_writes
  have hmap := encodeMap_of_canon (canon_member hfits) (within_member putOfK).succ
  have henc := encodeMember_eq_ok.mpr ⟨hvalid, hkey, hmap⟩
  obtain ⟨hprepare, -⟩ := evidence_codec_exact_iff b (prepareWithin (.fromSecs 5)) putOfK
    commitOfK tombstoneOfK
  obtain ⟨-, -, hmember, -⟩ := evidence_codec_exact_iff _ (prepareWithin (.fromSecs 5)) putOfK
    commitOfK tombstoneOfK
  exact ⟨⟨b, hb, (hprepare hb).mpr hwhole⟩, _, henc, hmember hfits henc⟩

end Sample

end Residiuum.Atomics
