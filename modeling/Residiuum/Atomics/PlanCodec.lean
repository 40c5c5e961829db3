import Residiuum.Atomics.PlanClose

/-!
# The canonical bytes of a plan

The reader of plans takes exactly the maps that the writer writes, up to two things: it keeps whole
milliseconds of the deadline only, and it sorts the four arrays again instead of asking for them in
order.

* **`plan_round_trip_iff`**: a plan is read back exactly when its deadline is whole milliseconds.
* **`plan_bytes_unique_iff`**: bytes that read as a plan are the plan's own exactly when their
  arrays are in canonical order.
-/

namespace Residiuum.Atomics

open AtomicPlanParts AtomicProfile ByteLib DistinctLib GroupLib List Value

/-! ## Fields -/

variable {o : Option CanonicalKey}

section Fields

variable {map : Map} {k : UInt64}

theorem requireU16_eq_ok {n : UInt16} :
    requireU16 map k = .ok n ↔ field map k = some (.uint n.toUInt64) := by
  refine requireNarrow_eq_ok (fun n => ?_) UInt16.toUInt16_toUInt64 fun m hlt => ?_
  · rw [UInt16.toNat_toUInt64]
    exact n.toNat_lt
  · rw [← UInt64.toNat_inj, UInt16.toNat_toUInt64, UInt64.toNat_toUInt16]
    exact Nat.mod_eq_of_lt hlt

theorem requireArray_eq_ok {items : List Value} :
    requireArray map k = .ok items ↔ field map k = some (.array items) := by
  unfold requireArray
  rw [bind_eq_ok]
  simp only [requireValue_eq_ok]
  constructor
  · rintro ⟨v, hv, h⟩
    cases v with
    | array vs =>
      cases h
      exact hv
    | _ => cases h
  · exact fun h => ⟨_, h, rfl⟩

theorem optionalCollection_eq_ok {o : Option CollectionId} :
    optionalCollection map k = .ok o ↔ field map k = o.map fun c => bytes c.1.1 := by
  apply optionalBy_eq_ok
  · exact fun o => pure_eq_ok
  · intro b o
    simp only [bind_eq_ok, arrOfBytes_eq_ok, CollectionId.fromBytes, identityFromBytes_eq_ok,
      pure_eq_ok]
    constructor
    · rintro ⟨a, rfl, c, rfl, rfl⟩
      exact ⟨c, rfl, rfl⟩
    · rintro ⟨c, rfl, rfl⟩
      exact ⟨c.1, rfl, c, rfl, rfl⟩

theorem optionalKey_eq_ok (hc : (Value.map map).Canon) :
    optionalKey map k = .ok o ↔ (∀ key ∈ o, validateCanonicalKey key = .ok ()) ∧
      field map k = o.map fun key => Value.map (keyEntries key) := by
  unfold optionalKey
  cases hf : field map k with
  | none =>
    cases o with
    | none => exact iff_of_true rfl ⟨fun _ h => (by cases h), rfl⟩
    | some key => exact iff_of_false nofun fun h => by cases h.2
  | some v =>
    rw [bind_eq_ok]
    simp only [decodeKey_eq_ok (canon_field hc hf), pure_eq_ok]
    constructor
    · rintro ⟨key, ⟨hvalid, rfl⟩, rfl⟩
      refine ⟨fun key' h => ?_, rfl⟩
      cases h
      exact hvalid
    · rintro ⟨hvalid, h⟩
      obtain ⟨key, rfl, hkey⟩ := Option.map_eq_some_iff.mp h.symm
      exact ⟨key, ⟨hvalid key rfl, hkey.symm⟩, rfl⟩

end Fields

theorem AtomicProfile.fromWireCode_eq {code : UInt16} {p : AtomicProfile} :
    fromWireCode code = p ↔ code = p.wireCode := by
  unfold fromWireCode
  split_ifs with h
  · subst h
    cases p with
    | localHeapV1 => exact iff_of_true rfl rfl
    | unknown code => exact iff_of_false nofun fun h => code.2 h.symm
  · cases p with
    | localHeapV1 => exact iff_of_false nofun h
    | unknown code' =>
      rw [unknown.injEq, Subtype.ext_iff]
      rfl

theorem PredicateKind.fromWireCode_eq_some (c : UInt8) (p : PredicateKind) :
    PredicateKind.fromWireCode c = some p ↔ c = p.wireCode := by
  unfold PredicateKind.fromWireCode
  constructor
  · intro h
    split_ifs at h with h1 h2 h3 h4 h5 h6 h7 h8 h9
    all_goals
      cases h
      assumption
  · rintro rfl
    cases p <;> rfl

/-! ## Elements of the arrays -/

def readFields (r : ReadWitness) : List (UInt64 × Option Value) :=
  [(1, some (.bytes r.collectionId.1.1)), (2, some (.map (keyEntries r.key))),
    (3, r.observedVersion.map fun v => .bytes v.1.1), (4, some (.bytes r.projectionHash.1))]

def mutationFields (m : PlanMutation) : List (UInt64 × Option Value) :=
  [(1, some (.uint m.kind.wireCode.toUInt64)), (2, some (.bytes m.collectionId.1.1)),
    (3, some (.map (keyEntries m.key))), (4, m.encodedValue.map .bytes),
    (5, m.ifVersion.map fun v => .bytes v.1.1)]

def predicateFields (p : PlanPredicate) : List (UInt64 × Option Value) :=
  [(1, some (.uint p.kind.wireCode.toUInt64)), (2, p.collectionId.map fun c => .bytes c.1.1),
    (3, p.key.map fun key => .map (keyEntries key)), (4, p.version.map fun v => .bytes v.1.1),
    (5, p.encoded.map .bytes)]

theorem readFields_sorted (r : ReadWitness) : ((readFields r).map Prod.fst).Pairwise (· < ·) :=
  show ([1, 2, 3, 4] : List UInt64).Pairwise (· < ·) by decide

theorem mutationFields_sorted (m : PlanMutation) :
    ((mutationFields m).map Prod.fst).Pairwise (· < ·) :=
  show ([1, 2, 3, 4, 5] : List UInt64).Pairwise (· < ·) by decide

theorem predicateFields_sorted (p : PlanPredicate) :
    ((predicateFields p).map Prod.fst).Pairwise (· < ·) :=
  show ([1, 2, 3, 4, 5] : List UInt64).Pairwise (· < ·) by decide

variable {v : Value} {m : PlanMutation} {parts : AtomicPlanParts} {b : Bytes}
  {p : PlanPredicate} {r : ReadWitness} {es : Map}

theorem decodeRead_eq_ok (hc : v.Canon) : decodeRead v = .ok r ↔
    validateCanonicalKey r.key = .ok () ∧ v = .map (record (readFields r)) := by
  unfold decodeRead
  simp only [bind_eq_ok, asMap_eq_ok, refuseUnknownKeys_eq_ok, CollectionId.fromBytes,
    requireBstr_eq_ok, identityFromBytes_eq_ok, requireValue_eq_ok, optionalVersion_eq_ok,
    pure_eq_ok]
  constructor
  · rintro ⟨map, rfl, _, hkeys, _, h1, collectionId, rfl, w, h2, key, hkey, version, h3, projection,
      h4, rfl⟩
    obtain ⟨hvalid, rfl⟩ := (decodeKey_eq_ok (canon_field hc h2)).mp hkey
    refine ⟨hvalid, congrArg Value.map ?_⟩
    rw [eq_record (sorted_of_canon hc) (by decide) hkeys]
    simp only [map_cons, map_nil, h1, h2, h3, h4]
    rfl
  · rintro ⟨hvalid, rfl⟩
    have hfield := @field_record _ (readFields_sorted r)
    have hkey : field (record (readFields r)) 2 = some (.map (keyEntries r.key)) :=
      hfield 1 rfl
    exact ⟨_, rfl, (), fun e he => keys_record he, _, hfield 0 rfl, r.collectionId, rfl, _, hkey,
      r.key, (decodeKey_eq_ok (canon_field hc hkey)).mpr ⟨hvalid, rfl⟩, r.observedVersion,
      hfield 2 rfl, r.projectionHash, hfield 3 rfl, rfl⟩

theorem decodeMutation_eq_ok (hc : v.Canon) : decodeMutation v = .ok m ↔
      validateCanonicalKey m.key = .ok () ∧ v = .map (record (mutationFields m)) := by
  unfold decodeMutation
  simp only [bind_eq_ok, asMap_eq_ok, refuseUnknownKeys_eq_ok, CollectionId.fromBytes,
    requireCode_eq_ok MutationKind.fromWireCode_eq_some, requireBstr_eq_ok,
    identityFromBytes_eq_ok, requireValue_eq_ok, optionalBytes_eq_ok, optionalVersion_eq_ok,
    pure_eq_ok]
  constructor
  · rintro ⟨map, rfl, _, hkeys, kind, h1, _, h2, collectionId, rfl, w, h3, key, hkey, value, h4,
      version, h5, rfl⟩
    obtain ⟨hvalid, rfl⟩ := (decodeKey_eq_ok (canon_field hc h3)).mp hkey
    refine ⟨hvalid, congrArg Value.map ?_⟩
    rw [eq_record (sorted_of_canon hc) (by decide) hkeys]
    simp only [map_cons, map_nil, h1, h2, h3, h4, h5]
    rfl
  · rintro ⟨hvalid, rfl⟩
    have hfield := @field_record _ (mutationFields_sorted m)
    have hkey : field (record (mutationFields m)) 3 = some (.map (keyEntries m.key)) :=
      hfield 2 rfl
    exact ⟨_, rfl, (), fun e he => keys_record he, m.kind, hfield 0 rfl, _, hfield 1 rfl,
      m.collectionId, rfl, _, hkey, m.key, (decodeKey_eq_ok (canon_field hc hkey)).mpr ⟨hvalid,
      rfl⟩, m.encodedValue, hfield 3 rfl, m.ifVersion, hfield 4 rfl, rfl⟩

theorem validateKey_eq_ok :
    p.validateKey = .ok () ↔ ∀ key ∈ p.key, validateCanonicalKey key = .ok () := by
  unfold PlanPredicate.validateKey
  cases p.key with
  | none => exact iff_of_true rfl fun _ h => (by cases h)
  | some key =>
    refine ⟨fun h key' hkey' => ?_, fun h => h key rfl⟩
    cases hkey'
    exact h

theorem decodePredicate_eq_ok (hc : v.Canon) : decodePredicate v = .ok p ↔
      p.validateKey = .ok () ∧ v = .map (record (predicateFields p)) := by
  unfold decodePredicate
  simp only [bind_eq_ok, asMap_eq_ok, refuseUnknownKeys_eq_ok,
    requireCode_eq_ok PredicateKind.fromWireCode_eq_some, optionalCollection_eq_ok,
    optionalBytes_eq_ok, optionalVersion_eq_ok, pure_eq_ok, validateKey_eq_ok]
  constructor
  · rintro ⟨map, rfl, _, hkeys, kind, h1, key, hkey, collection, h2, version, h4, encoded, h5, rfl⟩
    obtain ⟨hvalid, h3⟩ := (optionalKey_eq_ok hc).mp hkey
    refine ⟨hvalid, congrArg Value.map ?_⟩
    rw [eq_record (sorted_of_canon hc) (by decide) hkeys]
    simp only [map_cons, map_nil, h1, h2, h3, h4, h5]
    rfl
  · rintro ⟨hvalid, rfl⟩
    have hfield := @field_record _ (predicateFields_sorted p)
    exact ⟨_, rfl, (), fun e he => keys_record he, p.kind, hfield 0 rfl, p.key, (optionalKey_eq_ok
      hc).mpr ⟨hvalid, hfield 2 rfl⟩, p.collectionId, hfield 1 rfl, p.version, hfield 3 rfl,
      p.encoded, hfield 4 rfl, rfl⟩

theorem decodeRev_eq_ok {r : Arr 32} : decodeRev v = .ok r ↔ True ∧ v = .bytes r.1 := by
  rw [true_and]
  cases v with
  | bytes b =>
    rw [decodeRev, arrOfBytes_eq_ok, bytes.injEq]
  | _ => exact iff_of_false nofun nofun

section Plan

variable (read : ReadWitness → Value)

/-- The fields of a plan, for a way to write its witnesses. -/
def planFields (parts : AtomicPlanParts) : List (UInt64 × Option Value) :=
  [(1, some (.uint parts.profile.wireCode.toUInt64)), (2, some (.bytes parts.atomicId.1.1)),
    (3, some (.bytes parts.heapId.1.1)), (4, some (.uint parts.scope.wireCode.toUInt64)),
    (5, parts.readFrontier.map fun f => .bytes f.1), (6, some (.array (parts.reads.map read))),
    (7, some (.array (parts.predicates.map fun p => .map (record (predicateFields p))))),
    (8, some (.array (parts.mutations.map fun m => .map (record (mutationFields m))))),
    (9, some (.array (parts.activeRuleRevisions.map fun r => .bytes r.1))),
    (10, some (.map (encodeLimits parts.limits)))]

theorem planFields_sorted (parts : AtomicPlanParts) :
    ((planFields read parts).map Prod.fst).Pairwise (· < ·) :=
  show ([1, 2, 3, 4, 5, 6, 7, 8, 9, 10] : List UInt64).Pairwise (· < ·) by decide

theorem canon_planFields_iff : (map (record (planFields read parts))).Canon ↔
      (array (parts.reads.map read)).Canon ∧
      (array (parts.predicates.map fun p => .map (record (predicateFields p)))).Canon ∧
      (array (parts.mutations.map fun m => .map (record (mutationFields m)))).Canon ∧
      (array (parts.activeRuleRevisions.map fun r => .bytes r.1)).Canon := by
  constructor
  · intro hc
    have hfield : ∀ {k v}, (k, some v) ∈ planFields read parts → v.Canon := fun hmem =>
      (canon_map.mp hc).2.2 _ (mem_record.mpr hmem)
    refine ⟨hfield (k := 6) ?_, hfield (k := 7) ?_, hfield (k := 8) ?_, hfield (k := 9) ?_⟩ <;>
      simp [planFields]
  · rintro ⟨hreads, hpredicates, hmutations, hrevisions⟩
    refine canon_record (show 10 < 2 ^ 64 by decide) (planFields_sorted read parts) ?_
    simp only [planFields, forall_fields, and_true]
    exact ⟨canon_uint _, canon_arr _ (by decide), canon_arr _ (by decide), canon_uint _,
      fun f _ => canon_arr f (by decide), hreads, hpredicates, hmutations, hrevisions,
      canon_limits _⟩

end Plan

def readSorted (r : ReadWitness) : Value := .map (record (readFields r))

theorem decodeParts_eq_ok :
    decodeParts b = .ok parts ↔ parts.KeysValid ∧ parts.limits.constructionDeadline.Whole ∧
      decodeMap b = .ok (record (planFields readSorted parts)) := by
  unfold decodeParts
  simp only [bind_eq_ok, refuseUnknownKeys_eq_ok, AtomicId.fromBytes, HeapId.fromBytes,
    requireU16_eq_ok, requireCode_eq_ok CoordinationScope.fromWireCode_eq_some, requireBstr_eq_ok,
    identityFromBytes_eq_ok, optionalBstr32_eq_ok, requireArray_eq_ok, requireMap_eq_ok,
    pure_eq_ok]
  constructor
  · rintro ⟨map, hmap, code, h1, _, h2, atomicId, rfl, _, h3, heapId, rfl, scope, h4, frontier, h5,
      rs, h6, reads, hreads, ps, h7, predicates, hpredicates, ms, h8, mutations, hmutations, vs, h9,
      revisions, hrevisions, _, h10, limits, hlimits, _, hkeys, rfl⟩
    have hc := (decodeMap_eq_ok.mp hmap).1
    obtain ⟨hreadKeys, rfl⟩ := (mapM_eq_ok_inverse fun v hv r =>
      decodeRead_eq_ok ((canon_array.mp (canon_field hc h6)).2 v hv)).mp hreads
    obtain ⟨hpredicateKeys, rfl⟩ := (mapM_eq_ok_inverse fun v hv p =>
      decodePredicate_eq_ok ((canon_array.mp (canon_field hc h7)).2 v hv)).mp hpredicates
    obtain ⟨hmutationKeys, rfl⟩ := (mapM_eq_ok_inverse fun v hv m =>
      decodeMutation_eq_ok ((canon_array.mp (canon_field hc h8)).2 v hv)).mp hmutations
    obtain ⟨-, rfl⟩ := (mapM_eq_ok_inverse fun v _ r => decodeRev_eq_ok).mp hrevisions
    obtain ⟨rfl, hwhole⟩ :=
      (decodeLimits_eq_ok (sorted_of_canon (canon_field hc h10))).mp hlimits
    refine ⟨⟨hmutationKeys, hreadKeys, hpredicateKeys⟩, hwhole, ?_⟩
    have hcode : code = (fromWireCode code).wireCode :=
      fromWireCode_eq.mp rfl
    rw [hcode] at h1
    rw [hmap, eq_record (sorted_of_canon hc) (by decide) hkeys]
    simp only [map_cons, map_nil, h1, h2, h3, h4, h5, h6, h7, h8, h9, h10]
    rfl
  · rintro ⟨hkeys, hwhole, hmap⟩
    have hc := (decodeMap_eq_ok.mp hmap).1
    obtain ⟨h6, h7, h8, -⟩ := (canon_planFields_iff readSorted).mp hc
    have hfield := @field_record _ (planFields_sorted readSorted parts)
    have hreads := (mapM_eq_ok_inverse fun v hv r =>
      decodeRead_eq_ok ((canon_array.mp h6).2 v hv)).mpr ⟨hkeys.reads, rfl⟩
    have hpredicates := (mapM_eq_ok_inverse fun v hv p =>
      decodePredicate_eq_ok ((canon_array.mp h7).2 v hv)).mpr ⟨hkeys.predicates, rfl⟩
    have hmutations := (mapM_eq_ok_inverse fun v hv m =>
      decodeMutation_eq_ok ((canon_array.mp h8).2 v hv)).mpr ⟨hkeys.mutations, rfl⟩
    have hrevisions := (mapM_eq_ok_inverse fun v _ r => decodeRev_eq_ok (v := v)).mpr
      ⟨fun r (_ : r ∈ parts.activeRuleRevisions) => trivial, rfl⟩
    have hlimits := (decodeLimits_eq_ok (sorted_of_canon (canon_limits parts.limits))).mpr
      ⟨rfl, hwhole⟩
    refine ⟨_, hmap, parts.profile.wireCode, hfield 0 rfl, _, hfield 1 rfl, parts.atomicId, rfl, _,
      hfield 2 rfl, parts.heapId, rfl, parts.scope, hfield 3 rfl, parts.readFrontier, hfield 4 rfl,
      _, hfield 5 rfl, parts.reads, hreads, _, hfield 6 rfl, parts.predicates, hpredicates, _,
      hfield 7 rfl, parts.mutations, hmutations, _, hfield 8 rfl, parts.activeRuleRevisions,
      hrevisions, _, hfield 9 rfl, parts.limits, hlimits, (), fun e he => keys_record he, ?_⟩
    rw [fromWireCode_eq.mpr rfl]

/-! ## What is written -/

/-- The value that is written for a witness: its version comes last. -/
def readWritten (r : ReadWitness) : Value :=
  .map ([(1, .bytes r.collectionId.1.1), (2, .map (keyEntries r.key)),
    (4, .bytes r.projectionHash.1)] ++ r.observedVersion.toList.map fun v => (3, .bytes v.1.1))

theorem encodeRead_eq_ok : encodeRead r = .ok v ↔
    validateCanonicalKey r.key = .ok () ∧ v = readWritten r :=
  keyMap_bind_eq_ok

theorem encodeMutation_eq_ok : encodeMutation m = .ok v ↔
    validateCanonicalKey m.key = .ok () ∧ v = .map (record (mutationFields m)) := by
  have hentries : [(1, .uint m.kind.wireCode.toUInt64), (2, .bytes m.collectionId.1.1),
      (3, .map (keyEntries m.key))] ++ m.encodedValue.toList.map (fun b => (4, bytes b)) ++
        m.ifVersion.toList.map (fun v => (5, bytes v.1.1)) = record (mutationFields m) := by
    obtain ⟨kind, collectionId, key, value, version⟩ := m
    cases value <;> cases version <;> rfl
  rw [← hentries]
  exact keyMap_bind_eq_ok

theorem encodePredicateKey_eq_ok :
    encodePredicateKey o = .ok es ↔ (∀ key ∈ o, validateCanonicalKey key = .ok ()) ∧
      es = o.toList.map fun key => (3, .map (keyEntries key)) := by
  cases o with
  | none =>
    rw [encodePredicateKey, pure_eq_ok]
    exact (and_iff_right fun _ h => (by cases h)).symm
  | some key =>
    simp only [Option.mem_some_iff, forall_eq']
    exact keyMap_bind_eq_ok

theorem encodePredicate_eq_ok : encodePredicate p = .ok v ↔
    p.validateKey = .ok () ∧ v = .map (record (predicateFields p)) := by
  have hentries : [(1, .uint p.kind.wireCode.toUInt64)] ++
      p.collectionId.toList.map (fun c => (2, bytes c.1.1)) ++
        p.key.toList.map (fun key => (3, .map (keyEntries key))) ++
        p.version.toList.map (fun v => (4, bytes v.1.1)) ++
        p.encoded.toList.map (fun b => (5, bytes b)) = record (predicateFields p) := by
    obtain ⟨kind, collection, key, version, encoded⟩ := p
    cases collection <;> cases key <;> cases version <;> cases encoded <;> rfl
  unfold encodePredicate
  simp only [bind_eq_ok, encodePredicateKey_eq_ok, pure_eq_ok, validateKey_eq_ok,
    ← hentries]
  constructor
  · rintro ⟨_, ⟨hvalid, rfl⟩, rfl⟩
    exact ⟨hvalid, rfl⟩
  · rintro ⟨hvalid, rfl⟩
    exact ⟨_, ⟨hvalid, rfl⟩, rfl⟩

theorem planEntries_eq_ok : planEntries parts = .ok es ↔
    parts.KeysValid ∧ es = record (planFields readWritten parts) := by
  have hentries : [(1, .uint parts.profile.wireCode.toUInt64), (2, .bytes parts.atomicId.1.1),
      (3, .bytes parts.heapId.1.1), (4, .uint parts.scope.wireCode.toUInt64)] ++
        parts.readFrontier.toList.map (fun f => (5, bytes f.1)) ++
        [(6, .array (parts.reads.map readWritten)),
          (7, .array (parts.predicates.map fun p => .map (record (predicateFields p)))),
          (8, .array (parts.mutations.map fun m => .map (record (mutationFields m)))),
          (9, .array (parts.activeRuleRevisions.map fun r => .bytes r.1)),
          (10, .map (encodeLimits parts.limits))] = record (planFields readWritten parts) := by
    unfold planFields
    cases parts.readFrontier <;> rfl
  unfold planEntries
  simp only [bind_eq_ok, pure_eq_ok, mapM_eq_ok_map fun _ _ _ => encodeRead_eq_ok,
    mapM_eq_ok_map fun _ _ _ => encodePredicate_eq_ok,
    mapM_eq_ok_map fun _ _ _ => encodeMutation_eq_ok, ← hentries]
  constructor
  · rintro ⟨_, ⟨hreads, rfl⟩, _, ⟨hpredicates, rfl⟩, _, ⟨hmutations, rfl⟩, rfl⟩
    exact ⟨⟨hmutations, hreads, hpredicates⟩, rfl⟩
  · rintro ⟨hkeys, rfl⟩
    exact ⟨_, ⟨hkeys.reads, rfl⟩, _, ⟨hkeys.predicates, rfl⟩, _, ⟨hkeys.mutations, rfl⟩, rfl⟩

theorem map_record (f : Value → Value) (fs : List (UInt64 × Option Value)) :
    (record fs).map (fun e => (e.1, f e.2)) = record (fs.map fun e => (e.1, e.2.map f)) := by
  rw [record, record, map_filterMap, filterMap_map]
  refine filterMap_congr fun e _ => ?_
  rw [Function.comp_apply, Option.map_map, Option.map_map]
  rfl

theorem sortDeep_readWritten (hc : (readSorted r).Canon) :
    (readWritten r).sortDeep = readSorted r := by
  have hkey : (map (keyEntries r.key)).Canon :=
    (canon_map.mp hc).2.2 (2, _) (mem_record.mpr (by simp [readFields]))
  have hsame := sortDeep_of_canon hkey
  obtain ⟨collectionId, key, version, projection⟩ := r
  rw [readWritten, sortDeep_map, sortedMap]
  cases version <;> simp only [Option.toList, map_append, map_cons, map_nil, hsame] <;>
    rfl

theorem sortedMap_planWritten
    (hc : (map (record (planFields readSorted parts))).Canon) :
    sortedMap (record (planFields readWritten parts)) = record (planFields readSorted parts) := by
  obtain ⟨hreads, hpredicates, hmutations, hrevisions⟩ := (canon_planFields_iff readSorted).mp hc
  have h6 : (array (parts.reads.map readWritten)).sortDeep =
      .array (parts.reads.map readSorted) := by
    rw [sortDeep_array, map_map]
    refine congrArg _ (map_congr_left fun r hr => sortDeep_readWritten ?_)
    exact (canon_array.mp hreads).2 _ (mem_map_of_mem hr)
  have h5 : (parts.readFrontier.map fun f => Value.bytes f.1).map Value.sortDeep =
      parts.readFrontier.map fun f => Value.bytes f.1 := by
    rw [Option.map_map]
    rfl
  have hfields : (planFields readWritten parts).map (fun e => (e.1, e.2.map Value.sortDeep)) =
      planFields readSorted parts := by
    simp only [planFields, map_cons, map_nil, Option.map_some, h5, h6,
      sortDeep_of_canon hpredicates, sortDeep_of_canon hmutations, sortDeep_of_canon hrevisions,
      sortDeep_of_canon (canon_limits _)]
    rfl
  rw [sortedMap, map_record, hfields]
  exact sortByKey_of_ascending (sorted_record (planFields_sorted _ _))

/-! ## Bounds -/

/-- The lists and byte strings of the parts fit in memory. -/
structure AtomicPlanParts.Fits (parts : AtomicPlanParts) : Prop where
  reads : parts.reads.length < 2 ^ 64
  predicates : parts.predicates.length < 2 ^ 64
  mutations : parts.mutations.length < 2 ^ 64
  revisions : parts.activeRuleRevisions.length < 2 ^ 64
  readKeys : ∀ r ∈ parts.reads, r.key.Fits
  predicateKeys : ∀ p ∈ parts.predicates, ∀ key ∈ p.key, key.Fits
  predicatePayloads : ∀ p ∈ parts.predicates, ∀ b ∈ p.encoded, b.length < 2 ^ 64
  mutationKeys : ∀ m ∈ parts.mutations, m.key.Fits
  mutationValues : ∀ m ∈ parts.mutations, ∀ b ∈ m.encodedValue, b.length < 2 ^ 64

theorem canon_array_map {α : Type} {f : α → Value} {l : List α} (hlen : l.length < 2 ^ 64)
    (h : ∀ x ∈ l, (f x).Canon) : (array (l.map f)).Canon :=
  canon_array.mpr ⟨by rw [length_map]; exact hlen, forall_mem_map.mpr h⟩

theorem canon_readSorted (h : r.key.Fits) : (readSorted r).Canon := by
  refine canon_record (show 4 < 2 ^ 64 by decide) (readFields_sorted r) ?_
  simp only [readFields, forall_fields, and_true]
  exact ⟨canon_arr _ (by decide), canon_key h, fun v _ => canon_arr v.1 (by decide),
    canon_arr _ (by decide)⟩

theorem canon_mutation (hkey : m.key.Fits) (hvalue : ∀ b ∈ m.encodedValue, b.length < 2 ^ 64) :
    (map (record (mutationFields m))).Canon := by
  refine canon_record (show 5 < 2 ^ 64 by decide) (mutationFields_sorted m) ?_
  simp only [mutationFields, forall_fields, and_true]
  exact ⟨canon_uint _, canon_arr _ (by decide), canon_key hkey,
    fun b hb => canon_bytes (hvalue b hb), fun v _ => canon_arr v.1 (by decide)⟩

theorem canon_predicate (hkey : ∀ key ∈ p.key, key.Fits)
    (hpayload : ∀ b ∈ p.encoded, b.length < 2 ^ 64) : (map (record (predicateFields p))).Canon := by
  refine canon_record (show 5 < 2 ^ 64 by decide) (predicateFields_sorted p) ?_
  simp only [predicateFields, forall_fields, and_true]
  exact ⟨canon_uint _, fun c _ => canon_arr c.1 (by decide), fun key hk => canon_key (hkey key hk),
    fun v _ => canon_arr v.1 (by decide), fun b hb => canon_bytes (hpayload b hb)⟩

theorem canon_plan (h : parts.Fits) : (map (record (planFields readSorted parts))).Canon :=
  (canon_planFields_iff readSorted).mpr
    ⟨canon_array_map h.reads fun r hr => canon_readSorted (h.readKeys r hr),
      canon_array_map h.predicates fun p hp =>
        canon_predicate (h.predicateKeys p hp) (h.predicatePayloads p hp),
      canon_array_map h.mutations fun m hm =>
        canon_mutation (h.mutationKeys m hm) (h.mutationValues m hm),
      canon_array_map h.revisions fun r _ => canon_arr r (by decide)⟩

theorem canon_plan_of_reorders {parts' : AtomicPlanParts} (h : parts.Reorders parts')
    (hc : (map (record (planFields readSorted parts))).Canon) :
    (map (record (planFields readSorted parts'))).Canon := by
  have harray : ∀ {l l' : List Value}, l.Perm l' → (array l).Canon → (array l').Canon := by
    intro l l' hperm hl
    obtain ⟨hlen, hitems⟩ := canon_array.mp hl
    exact canon_array.mpr ⟨hperm.length_eq ▸ hlen, fun v hv => hitems v (hperm.mem_iff.mpr hv)⟩
  obtain ⟨hreads, hpredicates, hmutations, hrevisions⟩ := (canon_planFields_iff readSorted).mp hc
  exact (canon_planFields_iff readSorted).mpr
    ⟨harray (h.reads.map _) hreads, harray (h.predicates.map _) hpredicates,
      harray (h.mutations.map _) hmutations, harray (h.activeRuleRevisions.map _) hrevisions⟩

theorem within_plan (parts : AtomicPlanParts) :
    (map (record (planFields readSorted parts))).Within 9 := by
  have hkey : ∀ key, (map (keyEntries key)).Within 6 := fun key =>
    (within_key key).succ.succ.succ.succ
  have hread : ∀ r, (readSorted r).Within 7 := by
    intro r
    refine within_record ?_
    simp only [readFields, forall_fields, and_true]
    exact ⟨trivial, hkey _, fun _ _ => trivial, trivial⟩
  have hmutation : ∀ m, (map (record (mutationFields m))).Within 7 := by
    intro m
    refine within_record ?_
    simp only [mutationFields, forall_fields, and_true]
    exact ⟨trivial, trivial, hkey _, fun _ _ => trivial, fun _ _ => trivial⟩
  have hpredicate : ∀ p, (map (record (predicateFields p))).Within 7 := by
    intro p
    refine within_record ?_
    simp only [predicateFields, forall_fields, and_true]
    exact ⟨trivial, fun _ _ => trivial, fun _ _ => hkey _, fun _ _ => trivial, fun _ _ => trivial⟩
  refine within_record ?_
  simp only [planFields, forall_fields, and_true]
  exact ⟨trivial, trivial, trivial, trivial, fun _ _ => trivial,
    forall_mem_map.mpr fun r _ => hread r, forall_mem_map.mpr fun p _ => hpredicate p,
    forall_mem_map.mpr fun m _ => hmutation m, forall_mem_map.mpr fun _ _ => trivial,
    (within_limits _).succ.succ.succ.succ.succ.succ⟩

/-! ## The round trips -/

section RoundTrip

variable {R : Runtime} {p : AtomicPlan R}

theorem encodeCanonicalPlan_eq (hc : (map (record (planFields readSorted p.parts))).Canon) :
    encodeCanonicalPlan p = .ok (map (record (planFields readSorted p.parts))).wire := by
  unfold encodeCanonicalPlan
  rw [planEntries_eq_ok.mpr ⟨p.closable.keys, rfl⟩]
  exact encodeMap_of_sorted (sortedMap_planWritten hc) hc (within_plan p.parts).succ

theorem decodeCanonicalPlan_eq_ok : decodeCanonicalPlan R b = .ok p ↔
      ∃ parts, decodeParts b = .ok parts ∧ closeParts R parts = .ok p.parts := by
  unfold decodeCanonicalPlan
  rw [bind_eq_ok]
  simp [AtomicPlan.close_eq_ok]

theorem decodeCanonicalPlan_of_encode (hfits : p.parts.Fits) (hb : encodeCanonicalPlan p = .ok b) :
    decodeCanonicalPlan R b = .ok p ↔ p.parts.limits.constructionDeadline.Whole := by
  have hc := canon_plan hfits
  rw [encodeCanonicalPlan_eq hc] at hb
  cases hb
  have hmap := decodeMap_eq_ok.mpr ⟨hc, within_plan p.parts, rfl⟩
  rw [decodeCanonicalPlan_eq_ok]
  constructor
  · rintro ⟨parts, hparts, hclose⟩
    obtain ⟨-, hwhole, -⟩ := decodeParts_eq_ok.mp hparts
    rw [(closeParts_eq_ok.mp hclose).2]
    exact hwhole
  · intro hwhole
    exact ⟨p.parts, decodeParts_eq_ok.mpr ⟨p.closable.keys, hwhole, hmap⟩, p.closeParts_self⟩

/-- **A closed plan is written, and read back exactly when its deadline is a whole number of
milliseconds** that fits in `u64`. -/
theorem plan_round_trip_iff (p : AtomicPlan R) (hfits : p.parts.Fits) :
    ∃ b, encodeCanonicalPlan p = .ok b ∧
      (decodeCanonicalPlan R b = .ok p ↔ p.parts.limits.constructionDeadline.Whole) :=
  ⟨_, encodeCanonicalPlan_eq (canon_plan hfits),
    decodeCanonicalPlan_of_encode hfits (encodeCanonicalPlan_eq (canon_plan hfits))⟩

/-- The four arrays are in canonical order. -/
structure AtomicPlanParts.InOrder (parts : AtomicPlanParts) : Prop where
  mutations : parts.mutations.Pairwise fun a b =>
    (PlanMutation.targetOrder parts.heapId a b).isLE = true
  reads : parts.reads.Pairwise fun a b => (readOrder parts.heapId a b).isLE = true
  predicates : parts.predicates.Pairwise fun a b => (predOrder parts.heapId a b).isLE = true
  revisions : parts.activeRuleRevisions.Pairwise fun a b => (revisionOrder a b).isLE = true

theorem sorted_eq_self : parts.sorted = parts ↔ parts.InOrder := by
  constructor
  · intro h
    refine ⟨sortBy_eq_self.mp (congrArg mutations h),
      sortBy_eq_self.mp (congrArg reads h),
      sortBy_eq_self.mp (congrArg predicates h),
      sortBy_eq_self.mp (congrArg activeRuleRevisions h)⟩
  · intro h
    unfold sorted
    rw [sortBy_eq_self.mpr h.mutations, sortBy_eq_self.mpr h.reads,
      sortBy_eq_self.mpr h.predicates, sortBy_eq_self.mpr h.revisions]

theorem encodeCanonicalPlan_iff_inOrder
    (hparts : decodeParts b = .ok parts) (hclose : closeParts R parts = .ok p.parts) :
    encodeCanonicalPlan p = .ok b ↔ parts.InOrder := by
  obtain ⟨hkeys, hwhole, hmap⟩ := decodeParts_eq_ok.mp hparts
  obtain ⟨-, hsorted⟩ := closeParts_eq_ok.mp hclose
  obtain ⟨hc, -, hb⟩ := decodeMap_eq_ok.mp hmap
  have hcp : (map (record (planFields readSorted p.parts))).Canon := by
    rw [hsorted]
    exact canon_plan_of_reorders parts.reorders_sorted hc
  rw [encodeCanonicalPlan_eq hcp, ← sorted_eq_self, ← hsorted]
  constructor
  · intro henc
    -- both records are read from the same bytes
    have hmap' := decodeMap_eq_ok.mpr ⟨hcp, within_plan p.parts, (Except.ok.inj henc).symm⟩
    have hlimits : p.parts.limits.constructionDeadline.Whole := by
      rw [hsorted]
      exact hwhole
    have hparts' := decodeParts_eq_ok.mpr ⟨p.closable.keys, hlimits, hmap'⟩
    exact Except.ok.inj (hparts'.symm.trans hparts)
  · intro heq
    rw [heq]
    exact congrArg Except.ok hb.symm

/-- **Bytes that read as a plan are the plan's own bytes exactly when the four arrays in them are
in canonical order.** -/
theorem plan_bytes_unique_iff {b : Bytes} {p : AtomicPlan R} (h : decodeCanonicalPlan R b = .ok p) :
    ∃ parts, decodeParts b = .ok parts ∧ (encodeCanonicalPlan p = .ok b ↔ parts.InOrder) := by
  obtain ⟨parts, hparts, hclose⟩ := decodeCanonicalPlan_eq_ok.mp h
  exact ⟨parts, hparts, encodeCanonicalPlan_iff_inOrder hparts hclose⟩

end RoundTrip

section Sample

/-- The plan of one put that allows the given time for construction. -/
def planOf (deadline : Duration) : AtomicPlan productRuntime :=
  ⟨draftOf deadline [putOf [1]], _, closeParts_putOf deadline [1] productRuntime⟩

theorem planOf_fits (deadline : Duration) : (planOf deadline).parts.Fits where
  reads := show 0 < 2 ^ 64 by decide
  predicates := show 0 < 2 ^ 64 by decide
  mutations := show 1 < 2 ^ 64 by decide
  revisions := show 0 < 2 ^ 64 by decide
  readKeys _ h := absurd h not_mem_nil
  predicateKeys _ h := absurd h not_mem_nil
  predicatePayloads _ h := absurd h not_mem_nil
  mutationKeys := forall_mem_singleton.mpr (show 1 < 2 ^ 64 by decide)
  mutationValues := show ∀ m ∈ [putOf [1]], _ by decide

/-- **A plan that allows half a millisecond is written, and reads as another.** -/
theorem plan_half_milli_lost : ∃ b, encodeCanonicalPlan (planOf halfMilli) = .ok b ∧
    decodeCanonicalPlan productRuntime b ≠ .ok (planOf halfMilli) := by
  have hb := encodeCanonicalPlan_eq (canon_plan (planOf_fits halfMilli))
  have hwhole : ¬ halfMilli.Whole := by decide
  exact ⟨_, hb, fun h =>
    hwhole ((decodeCanonicalPlan_of_encode (planOf_fits halfMilli) hb).mp h)⟩

/-- A plan that allows five seconds is read back. -/
theorem plan_five_seconds_kept : ∃ b, encodeCanonicalPlan (planOf (.fromSecs 5)) = .ok b ∧
    decodeCanonicalPlan productRuntime b = .ok (planOf (.fromSecs 5)) := by
  obtain ⟨b, hb, hiff⟩ := plan_round_trip_iff (planOf (.fromSecs 5)) (planOf_fits _)
  have hwhole : (Duration.fromSecs 5).Whole := by decide
  exact ⟨b, hb, hiff.mpr hwhole⟩

/-- The bytes of puts, in the given order of their keys. -/
def bytesOf (keys : List Bytes) : Bytes :=
  (Value.map (record (planFields readSorted (draftOf (.fromSecs 5) (keys.map putOf))))).wire

theorem bytesOf_closed (keys : List Bytes) (h : keys ∈ [[[1], [2]], [[2], [1]]]) :
    decodeParts (bytesOf keys) = .ok (draftOf (.fromSecs 5) (keys.map putOf)) ∧
      closeParts productRuntime (draftOf (.fromSecs 5) (keys.map putOf)) =
        .ok (draftOf (.fromSecs 5) [putOf [1], putOf [2]]) := by
  revert keys
  decide +kernel

/-- The bytes of two puts in order are the ones written for them. -/
theorem plan_bytes_of_two_puts :
    ∃ p, decodeCanonicalPlan productRuntime (bytesOf [[1], [2]]) = .ok p ∧
      encodeCanonicalPlan p = .ok (bytesOf [[1], [2]]) := by
  have hread := bytesOf_closed [[1], [2]] mem_cons_self
  let p : AtomicPlan productRuntime := ⟨_, _, hread.2⟩
  have hdec : decodeCanonicalPlan productRuntime (bytesOf [[1], [2]]) = .ok p :=
    decodeCanonicalPlan_eq_ok.mpr ⟨_, hread⟩
  obtain ⟨parts, hparts, hiff⟩ := plan_bytes_unique_iff hdec
  cases hread.1.symm.trans hparts
  exact ⟨p, hdec, hiff.mpr (sorted_eq_self.mp p.sorted_eq)⟩

/-- **Two byte strings, one plan**: the arrays of the second are out of order, and it is not the
one that is written. -/
theorem plan_two_byte_strings : ∃ b b' p, b ≠ b' ∧
    decodeCanonicalPlan productRuntime b = .ok p ∧
    decodeCanonicalPlan productRuntime b' = .ok p ∧ encodeCanonicalPlan p ≠ .ok b' := by
  have hfirst := bytesOf_closed [[1], [2]] mem_cons_self
  refine ⟨bytesOf [[1], [2]], bytesOf [[2], [1]], ⟨_, _, hfirst.2⟩, by decide +kernel,
    decodeCanonicalPlan_eq_ok.mpr ⟨_, hfirst⟩,
    decodeCanonicalPlan_eq_ok.mpr ⟨_, bytesOf_closed [[2], [1]] (by decide)⟩, ?_⟩
  change (planEntries (draftOf (.fromSecs 5) [putOf [1], putOf [2]]) >>= encodeMap) ≠ _
  decide +kernel

end Sample

end Residiuum.Atomics
