import Residiuum.Atomics.CborCodec
import Residiuum.Atomics.Evidence

/-!
# What the fields of a record say

Each reader of a field succeeds exactly when the field holds what the encoder writes for the result.
A record with known keys is its fields in order, so a record is read back exactly when it is the one
that is written.

* **`eq_fields`**: a map with ascending keys is the list of its fields.
* **`decodeLimits_eq_ok`**, **`decodeKey_eq_ok`**: the limits and keys that are read are the ones
  that are written; limits only with a deadline in whole milliseconds.
-/

namespace Residiuum.Atomics

open AtomicAbortReason ByteLib Except Int64 List Nat Option Prod UInt64 UInt8 Value

/-! ## Required fields -/

variable {v : Value} {b : Bytes} {α : Type} {allowed : List UInt64} {P : Value → Prop}
  {key : CanonicalKey} {n : ℕ} {k : UInt64} {m : Map} {u : Unit}

section Fields

variable {map : Map} {a : Arr n}

theorem requireValue_eq_ok : requireValue map k = .ok v ↔ field map k = some v := by
  unfold requireValue
  cases field map k with
  | none => exact iff_of_false nofun nofun
  | some w =>
    rw [Option.some.injEq]
    exact ⟨fun h => ok.inj h, fun h => h ▸ rfl⟩

theorem requireU64_eq_ok {n : UInt64} :
    requireU64 map k = .ok n ↔ field map k = some (.uint n) := by
  unfold requireU64
  rw [bind_eq_ok]
  simp only [requireValue_eq_ok]
  constructor
  · rintro ⟨v, hv, h⟩
    cases v with
    | uint m =>
      cases h
      exact hv
    | _ => cases h
  · exact fun h => ⟨_, h, rfl⟩

theorem requireBytes_eq_ok : requireBytes map k = .ok b ↔ field map k = some (.bytes b) := by
  unfold requireBytes
  rw [bind_eq_ok]
  simp only [requireValue_eq_ok]
  constructor
  · rintro ⟨v, hv, h⟩
    cases v with
    | bytes m =>
      cases h
      exact hv
    | _ => cases h
  · exact fun h => ⟨_, h, rfl⟩

theorem asMap_eq_ok : asMap v = .ok m ↔ v = .map m := by
  cases v <;> simp [asMap, pure, Except.pure]

theorem requireMap_eq_ok : requireMap map k = .ok m ↔ field map k = some (.map m) := by
  unfold requireMap
  rw [bind_eq_ok]
  simp [requireValue_eq_ok, asMap_eq_ok, exists_eq_right]

/-- A field of a narrower integer type: `wide` embeds it as the numbers below `bound`, where
`narrow` undoes the embedding. -/
theorem requireNarrow_eq_ok {narrow : UInt64 → α} {wide : α → UInt64} {bound : ℕ}
    (hwide : ∀ n, (wide n).toNat < bound) (hnarrow : ∀ n, narrow (wide n) = n)
    (hback : ∀ m : UInt64, m.toNat < bound → wide (narrow m) = m) {n : α} :
    (requireU64 map k >>= fun m => if m.toNat < bound then pure (narrow m) else
        throw (.cbor .unsupported)) = .ok n ↔ field map k = some (.uint (wide n)) := by
  rw [bind_eq_ok]
  simp only [requireU64_eq_ok]
  constructor
  · rintro ⟨m, hm, h⟩
    split_ifs at h with hlt
    cases h
    rw [hback m hlt]
    exact hm
  · intro h
    refine ⟨_, h, ?_⟩
    rw [if_pos (hwide n), hnarrow]
    rfl

theorem requireU32_eq_ok {n : UInt32} :
    requireU32 map k = .ok n ↔ field map k = some (.uint n.toUInt64) := by
  refine requireNarrow_eq_ok (fun n => ?_) UInt32.toUInt32_toUInt64 fun m hlt => ?_
  · rw [UInt32.toNat_toUInt64]
    exact n.toNat_lt
  · rw [← UInt64.toNat_inj, UInt32.toNat_toUInt64, UInt64.toNat_toUInt32]
    exact mod_eq_of_lt hlt

theorem requireU8_eq_ok {n : UInt8} :
    requireU8 map k = .ok n ↔ field map k = some (.uint n.toUInt64) := by
  refine requireNarrow_eq_ok (fun n => ?_) toUInt8_toUInt64 fun m hlt => ?_
  · rw [UInt8.toNat_toUInt64]
    exact n.toNat_lt
  · rw [← UInt64.toNat_inj, UInt8.toNat_toUInt64, toNat_toUInt8]
    exact mod_eq_of_lt hlt

theorem arrOfBytes_eq_ok : arrOfBytes n b = .ok a ↔ b = a.1 := by
  unfold arrOfBytes
  split_ifs with h
  · constructor
    · intro hok
      cases hok
      rfl
    · rintro rfl
      rfl
  · refine iff_of_false (fun hok => by cases hok) ?_
    rintro rfl
    exact h a.2

theorem requireBstr_eq_ok : requireBstr n map k = .ok a ↔ field map k = some (.bytes a.1) := by
  unfold requireBstr
  rw [bind_eq_ok]
  simp [requireBytes_eq_ok, arrOfBytes_eq_ok, exists_eq_right]

theorem identityFromBytes_eq_ok {label : String} {id : Identity n} :
    identityFromBytes label a = .ok id ↔ a = id.1 := by
  unfold identityFromBytes
  split_ifs with h
  · refine iff_of_false (fun hok => by cases hok) ?_
    rintro rfl
    exact id.2 h
  · constructor
    · intro hok
      cases hok
      rfl
    · rintro rfl
      rfl

theorem requireCode_eq_ok {fromWireCode : UInt8 → Option α} {wireCode : α → UInt8}
    (hcode : ∀ c a, fromWireCode c = some a ↔ c = wireCode a) {e : AtomicsError} {a : α} :
    requireCode fromWireCode e map k = .ok a ↔
      field map k = some (.uint (wireCode a).toUInt64) := by
  unfold requireCode
  rw [bind_eq_ok]
  simp only [requireU8_eq_ok]
  constructor
  · rintro ⟨c, hc, h⟩
    cases hfrom : fromWireCode c with
    | none =>
      rw [hfrom] at h
      cases h
    | some a' =>
      rw [hfrom] at h
      obtain rfl := ok.inj h
      rw [(hcode c a').mp hfrom] at hc
      exact hc
  · intro h
    refine ⟨_, h, ?_⟩
    rw [(hcode _ a).mpr rfl]
    rfl

/-! ## Optional fields -/

theorem optionalU64_eq_ok {o : Option UInt64} :
    optionalU64 map k = .ok o ↔ field map k = o.map uint := by
  unfold optionalU64
  cases field map k with
  | none => cases o <;> simp [pure, Except.pure]
  | some v => cases v <;> cases o <;> simp [pure, Except.pure]

theorem optionalBytes_eq_ok {o : Option Bytes} :
    optionalBytes map k = .ok o ↔ field map k = o.map bytes := by
  unfold optionalBytes
  cases field map k with
  | none => cases o <;> simp [pure, Except.pure]
  | some v => cases v <;> cases o <;> simp [pure, Except.pure]

theorem optionalBy_eq_ok {f : Option Bytes → Except AtomicsError (Option α)}
    {g : α → Bytes} (hnone : ∀ o, f none = .ok o ↔ o = none)
    (hsome : ∀ b o, f (some b) = .ok o ↔ ∃ a, o = some a ∧ b = g a) {o : Option α} :
    (optionalBytes map k >>= f) = .ok o ↔ field map k = o.map fun a => bytes (g a) := by
  rw [bind_eq_ok]
  simp only [optionalBytes_eq_ok]
  constructor
  · rintro ⟨b, hb, h⟩
    cases b with
    | none =>
      rw [(hnone o).mp h]
      exact hb
    | some b =>
      obtain ⟨a, rfl, rfl⟩ := (hsome b o).mp h
      exact hb
  · intro h
    cases o with
    | none => exact ⟨none, h, (hnone _).mpr rfl⟩
    | some a => exact ⟨some (g a), h, (hsome _ _).mpr ⟨a, rfl, rfl⟩⟩

theorem pure_eq_ok {x y : α} : (pure x : Except AtomicsError α) = .ok y ↔ y = x :=
  ⟨fun h => (ok.inj h).symm, fun h => h ▸ rfl⟩

theorem optionalBstr32_eq_ok {o : Option (Arr 32)} :
    optionalBstr32 map k = .ok o ↔ field map k = o.map fun a => bytes a.1 := by
  unfold optionalBstr32
  apply optionalBy_eq_ok
  · exact fun o => pure_eq_ok
  · intro b o
    rw [bind_eq_ok]
    simp only [arrOfBytes_eq_ok, pure_eq_ok]
    exact exists_congr fun a => and_comm

theorem optionalVersion_eq_ok {o : Option VersionId} :
    optionalVersion map k = .ok o ↔ field map k = o.map fun v => bytes v.1.1 := by
  apply optionalBy_eq_ok
  · exact fun o => pure_eq_ok
  · intro b o
    simp only [bind_eq_ok, arrOfBytes_eq_ok, VersionId.fromBytes, identityFromBytes_eq_ok,
      pure_eq_ok]
    constructor
    · rintro ⟨a, rfl, v, rfl, rfl⟩
      exact ⟨v, rfl, rfl⟩
    · rintro ⟨v, rfl, rfl⟩
      exact ⟨v.1, rfl, v, rfl, rfl⟩

theorem AtomicAbortReason.fromWireCode_eq_some (c : UInt8) (r : AtomicAbortReason) :
    fromWireCode c = some r ↔ c = r.wireCode := by
  unfold fromWireCode
  constructor
  · intro h
    split_ifs at h with h1 h2 h3 h4
    all_goals
      cases h
      assumption
  · rintro rfl
    cases r <;> rfl

theorem optionalAbort_eq_ok {o : Option AtomicAbortReason} : optionalAbort map k = .ok o ↔
    field map k = o.map fun r => uint r.wireCode.toUInt64 := by
  unfold optionalAbort
  rw [bind_eq_ok]
  simp only [optionalU64_eq_ok]
  constructor
  · rintro ⟨n, hn, h⟩
    cases n with
    | none =>
      cases h
      exact hn
    | some n =>
      dsimp only at h
      split_ifs at h with hlt
      cases hfrom : fromWireCode n.toUInt8 with
      | none =>
        rw [hfrom] at h
        cases h
      | some r =>
        rw [hfrom] at h
        cases h
        have hcode := (fromWireCode_eq_some _ _).mp hfrom
        have hback : n.toUInt8.toUInt64 = n := by
          rw [← UInt64.toNat_inj, UInt8.toNat_toUInt64, toNat_toUInt8]
          exact mod_eq_of_lt hlt
        rw [hn, map_some, map_some, ← hcode, hback]
  · intro h
    cases o with
    | none => exact ⟨none, h, rfl⟩
    | some r =>
      refine ⟨some r.wireCode.toUInt64, h, ?_⟩
      dsimp only
      rw [UInt8.toNat_toUInt64, if_pos (UInt8.toNat_lt _), UInt8.toUInt8_toUInt64,
        (fromWireCode_eq_some _ r).mpr rfl]
      rfl

end Fields

theorem CoordinationScope.fromWireCode_eq_some (c : UInt8) (s : CoordinationScope) :
    CoordinationScope.fromWireCode c = some s ↔ c = s.wireCode := by
  unfold CoordinationScope.fromWireCode
  constructor
  · intro h
    split_ifs at h with h1 h2 h3
    all_goals
      cases h
      assumption
  · rintro rfl
    cases s <;> rfl

theorem MutationKind.fromWireCode_eq_some (c : UInt8) (m : MutationKind) :
    MutationKind.fromWireCode c = some m ↔ c = m.wireCode := by
  unfold MutationKind.fromWireCode
  constructor
  · intro h
    split_ifs at h with h1 h2 h3 h4
    all_goals
      cases h
      assumption
  · rintro rfl
    cases m <;> rfl

theorem DecisionCode.fromWireCode_eq_some (c : UInt8) (d : DecisionCode) :
    DecisionCode.fromWireCode c = some d ↔ c = d.wireCode := by
  unfold DecisionCode.fromWireCode
  constructor
  · intro h
    split_ifs at h with h1 h2
    all_goals
      cases h
      assumption
  · rintro rfl
    cases d <;> rfl

theorem Durability.fromWireCode_eq_some (c : UInt8) (d : Durability) :
    Durability.fromWireCode c = some d ↔ c = d.wireCode := by
  unfold Durability.fromWireCode
  constructor
  · intro h
    split_ifs at h with h1
    cases h
    exact h1
  · rintro rfl
    cases d
    rfl

theorem refuseUnknownKeys_eq_ok {map : Map} :
    refuseUnknownKeys map allowed = .ok u ↔ ∀ e ∈ map, e.1 ∈ allowed := by
  unfold refuseUnknownKeys
  split_ifs with h
  · exact iff_of_true rfl fun e he => by simpa using all_eq_true.mp h e he
  · refine iff_of_false (fun hok => by cases hok) fun hall => h (all_eq_true.mpr ?_)
    exact fun e he => decide_eq_true (hall e he)

/-- The fields of a map under some keys, in their order. -/
def fieldsOf (map : Map) (keys : List UInt64) : Map :=
  keys.filterMap fun k => (field map k).map fun v => (k, v)

theorem field_eq_some {map : Map} (hsort : map.Pairwise fun a b => a.1 < b.1) :
    field map k = some v ↔ (k, v) ∈ map := by
  induction map with
  | nil => exact iff_of_false nofun nofun
  | cons e map ih =>
    obtain ⟨hhead, htail⟩ := pairwise_cons.mp hsort
    unfold field at ih ⊢
    rw [find?_cons, mem_cons]
    by_cases hk : e.1 = k
    · rw [decide_eq_true hk]
      rw [map_some, Option.some.injEq]
      subst hk
      constructor
      · rintro rfl
        exact .inl rfl
      · rintro (h | h)
        · exact (congrArg snd h).symm
        · exact absurd (hhead _ h) (UInt64.lt_irrefl _)
    · rw [decide_eq_false hk]
      rw [ih htail]
      refine ⟨.inr, fun h => h.resolve_left fun he => hk ?_⟩
      rw [← he]

theorem eq_fields {map : Map}
    (hsort : map.Pairwise fun a b => a.1 < b.1) (hallowed : allowed.Pairwise (· < ·))
    (hkeys : ∀ e ∈ map, e.1 ∈ allowed) : map = fieldsOf map allowed := by
  have hmem : ∀ e : UInt64 × Value, e ∈ fieldsOf map allowed ↔ e ∈ map := by
    intro e
    unfold fieldsOf
    rw [mem_filterMap]
    constructor
    · rintro ⟨k, -, he⟩
      obtain ⟨v, hv, rfl⟩ := map_eq_some_iff.mp he
      exact (field_eq_some hsort).mp hv
    · intro he
      exact ⟨e.1, hkeys e he, map_eq_some_iff.mpr ⟨e.2, (field_eq_some hsort).mpr he, rfl⟩⟩
  have hfields : (fieldsOf map allowed).Pairwise fun a b => a.1 < b.1 := by
    refine List.Pairwise.filterMap _ ?_ hallowed
    intro k k' hlt e he e' he'
    obtain ⟨v, -, rfl⟩ := map_eq_some_iff.mp he
    obtain ⟨v', -, rfl⟩ := map_eq_some_iff.mp he'
    exact hlt
  have hnodup : ∀ {l : Map}, (l.Pairwise fun a b => a.1 < b.1) → l.Nodup := by
    intro l h
    refine List.Pairwise.imp ?_ h
    rintro a b hlt rfl
    exact UInt64.lt_irrefl _ hlt
  have hperm : map.Perm (fieldsOf map allowed) :=
    (perm_ext_iff_of_nodup (hnodup hsort) (hnodup hfields)).mpr fun e => (hmem e).symm
  refine hperm.eq_of_pairwise (fun a b _ _ hab hba => ?_) hsort hfields
  exact absurd (UInt64.lt_trans hab hba) (UInt64.lt_irrefl _)

/-! ## Records with optional fields -/

def record (fs : List (UInt64 × Option Value)) : Map :=
  fs.filterMap fun e => e.2.map fun v => (e.1, v)

section Record

variable {fs : List (UInt64 × Option Value)}

theorem mem_record : (k, v) ∈ record fs ↔ (k, some v) ∈ fs := by
  unfold record
  rw [mem_filterMap]
  constructor
  · rintro ⟨e, he, hv⟩
    obtain ⟨w, hw, heq⟩ := map_eq_some_iff.mp hv
    cases heq
    rw [← hw]
    exact he
  · exact fun h => ⟨(k, some v), h, rfl⟩

theorem keys_record {e : UInt64 × Value} (he : e ∈ record fs) : e.1 ∈ fs.map fst :=
  mem_map_of_mem (f := fst) (mem_record.mp he)

theorem sorted_record (hsort : (fs.map fst).Pairwise (· < ·)) :
    (record fs).Pairwise fun a b => a.1 < b.1 := by
  refine List.Pairwise.filterMap _ ?_ (pairwise_map.mp hsort)
  intro e e' hlt d hd d' hd'
  obtain ⟨v, -, rfl⟩ := map_eq_some_iff.mp hd
  obtain ⟨v', -, rfl⟩ := map_eq_some_iff.mp hd'
  exact hlt

theorem field_record (hsort : (fs.map fst).Pairwise (· < ·)) {k : UInt64} {o : Option Value}
    (i : ℕ) (hi : fs[i]? = some (k, o)) : field (record fs) k = o := by
  have hmem := mem_of_getElem? hi
  cases o with
  | some v => exact (field_eq_some (sorted_record hsort)).mpr (mem_record.mpr hmem)
  | none =>
    cases hf : field (record fs) k with
    | none => rfl
    | some v =>
      have hv := mem_record.mp ((field_eq_some (sorted_record hsort)).mp hf)
      have hnodup : (fs.map Prod.fst).Nodup := hsort.imp UInt64.ne_of_lt
      cases inj_on_of_nodup_map hnodup hmem hv rfl

theorem canon_record (hlen : fs.length < 2 ^ 64) (hsort : (fs.map fst).Pairwise (· < ·))
    (hv : ∀ e ∈ fs, ∀ v ∈ e.2, v.Canon) : (map (record fs)).Canon :=
  canon_map.mpr ⟨Nat.lt_of_le_of_lt (length_filterMap_le _ _) hlen, sorted_record hsort,
    fun e he => hv (e.1, some e.2) (mem_record.mp he) e.2 rfl⟩

theorem within_record (hv : ∀ e ∈ fs, ∀ v ∈ e.2, v.Within n) : (map (record fs)).Within (n + 1) :=
  fun e he => hv (e.1, some e.2) (mem_record.mp he) e.2 rfl

theorem forall_fields :
    ((∀ e ∈ ([] : List (UInt64 × Option Value)), ∀ v ∈ e.2, P v) ↔ True) ∧
    (∀ (k : UInt64) v fs, (∀ e ∈ (k, some v) :: fs, ∀ w ∈ e.2, P w) ↔
      P v ∧ ∀ e ∈ fs, ∀ w ∈ e.2, P w) ∧
    ∀ {α : Type} (k : UInt64) (o : Option α) f fs, (∀ e ∈ (k, o.map f) :: fs, ∀ w ∈ e.2, P w) ↔
      (∀ a ∈ o, P (f a)) ∧ ∀ e ∈ fs, ∀ w ∈ e.2, P w := by
  refine ⟨iff_of_true (fun _ he => absurd he not_mem_nil) trivial, fun k v fs => ?_,
    fun {_} k o f fs => ?_⟩
  · rw [forall_mem_cons]
    simp
  · rw [forall_mem_cons, Option.forall_mem_map]

end Record

theorem eq_record {map : Map}
    (hsort : map.Pairwise fun a b => a.1 < b.1) (hallowed : allowed.Pairwise (· < ·))
    (hkeys : ∀ e ∈ map, e.1 ∈ allowed) : map = record (allowed.map fun k => (k, field map k)) := by
  rw [record, filterMap_map]
  exact eq_fields hsort hallowed hkeys

theorem decodeMap_iff_encodeMap {es : Map} (hc : (map es).Canon)
    (hw : (map es).Within 9) : decodeMap b = .ok es ↔ encodeMap es = .ok b := by
  rw [decodeMap_eq_ok, encodeMap_of_canon hc hw.succ, Except.ok.injEq]
  exact ⟨fun h => h.2.2.symm, fun h => ⟨hc, hw, h.symm⟩⟩

theorem toNat_toUInt64 (n : Int64) :
    (0 ≤ n ∧ n.toUInt64.toNat < 2 ^ 63 ∧ n.toInt = n.toUInt64.toNat) ∨
      (¬ 0 ≤ n ∧ (~~~n).toUInt64.toNat < 2 ^ 63 ∧ n.toInt = -((~~~n).toUInt64.toNat : ℤ) - 1) := by
  have hlt : n.toBitVec.toNat < 2 ^ 64 := n.toBitVec.isLt
  have hint : n.toInt = if 2 * n.toBitVec.toNat < 2 ^ 64 then (n.toBitVec.toNat : ℤ)
      else (n.toBitVec.toNat : ℤ) - (2 ^ 64 : ℕ) := BitVec.toInt_eq_toNat_cond n.toBitVec
  have hnat : n.toUInt64.toNat = n.toBitVec.toNat := rfl
  have hnot : (~~~n).toUInt64.toNat = 2 ^ 64 - 1 - n.toBitVec.toNat := BitVec.toNat_not
  have hzero : (0 : Int64).toInt = 0 := rfl
  rw [le_iff_toInt_le, hzero, hnat, hnot, hint]
  split_ifs with h
  · left
    omega
  · right
    omega

theorem decodeInt_uint {m : UInt64} {n : Int64} :
    decodeInt (.uint m) = .ok n ↔ m.toNat < 2 ^ 63 ∧ n.toInt = m.toNat := by
  change (if m.toNat < 2 ^ 63 then pure m.toInt64 else throw _) = _ ↔ _
  split_ifs with h
  · have hval : m.toInt64.toInt = m.toNat := BitVec.toInt_eq_toNat_of_lt (by
      have hnat : m.toInt64.toBitVec.toNat = m.toNat := rfl
      omega)
    rw [pure_eq_ok, ← toInt_inj, hval]
    exact (and_iff_right h).symm
  · exact iff_of_false (fun hok => by cases hok) fun h' => h h'.1

theorem decodeInt_nint {m : UInt64} {n : Int64} :
    decodeInt (.nint m) = .ok n ↔ m.toNat < 2 ^ 63 ∧ n.toInt = -(m.toNat : ℤ) - 1 := by
  change (if m.toNat < 2 ^ 63 then pure (Int64.ofInt (-(m.toNat : ℤ) - 1)) else throw _) = _ ↔ _
  have hsize : Int64.size = 2 ^ 64 := rfl
  split_ifs with h
  · have hval : (Int64.ofInt (-(m.toNat : ℤ) - 1)).toInt = -(m.toNat : ℤ) - 1 := by
      rw [toInt_ofInt, hsize, Int.bmod_eq_of_le_mul_two (by omega) (by omega)]
    rw [pure_eq_ok, ← toInt_inj, hval]
    exact (and_iff_right h).symm
  · exact iff_of_false (fun hok => by cases hok) fun h' => h h'.1

theorem decodeInt_eq_ok {n : Int64} : decodeInt v = .ok n ↔ v = encodeInt n := by
  unfold encodeInt
  rcases toNat_toUInt64 n with ⟨hn, hlt, hint⟩ | ⟨hn, hlt, hint⟩
  · rw [if_pos hn]
    cases v with
    | uint m =>
      rw [decodeInt_uint, uint.injEq, ← UInt64.toNat_inj]
      omega
    | nint m =>
      rw [decodeInt_nint]
      refine iff_of_false (fun h => ?_) nofun
      omega
    | _ => exact iff_of_false nofun nofun
  rw [if_neg hn]
  cases v with
  | uint m =>
    rw [decodeInt_uint]
    refine iff_of_false (fun h => ?_) nofun
    omega
  | nint m =>
    rw [decodeInt_nint, nint.injEq, ← UInt64.toNat_inj]
    omega
  | _ => exact iff_of_false nofun nofun

/-! ## Limits -/

theorem decodeLimits_eq_ok {map : Map} (hsort : map.Pairwise fun a b => a.1 < b.1)
    {l : ResourceLimits} : decodeLimits map = .ok l ↔
      map = encodeLimits l ∧ l.constructionDeadline.Whole := by
  unfold decodeLimits
  simp only [bind_eq_ok, refuseUnknownKeys_eq_ok, requireU32_eq_ok, requireU64_eq_ok,
    pure_eq_ok]
  constructor
  · rintro ⟨_, hkeys, l1, h1, l2, h2, l3, h3, l4, h4, l5, h5, l6, h6, l7, h7, l8, h8, l9, h9,
      l10, h10, rfl⟩
    obtain ⟨hwire, hwhole⟩ := Duration.fromMillis_eq_iff.mp (rfl : Duration.fromMillis l9 = _)
    refine ⟨?_, hwhole⟩
    rw [eq_fields hsort (by decide) hkeys, fieldsOf]
    simp only [filterMap_cons, filterMap_nil, h1, h2, h3, h4, h5, h6, h7, h8, h9, h10,
      map_some]
    rw [encodeLimits, ← hwire]
  · rintro ⟨rfl, hwhole⟩
    refine ⟨(), ?_, _, rfl, _, rfl, _, rfl, _, rfl, _, rfl, _, rfl, _, rfl, _, rfl, _, rfl, _, rfl,
      ?_⟩
    · exact fun e he => mem_map_of_mem (f := fst) he
    · rw [Duration.fromMillis_eq_iff.mpr ⟨rfl, hwhole⟩]

theorem canon_uint (n : UInt64) : (uint n).Canon := ⟨trivial, trivial⟩

theorem canon_bytes (h : b.length < 2 ^ 64) : (bytes b).Canon := ⟨h, trivial⟩

theorem canon_encodeInt (n : Int64) : (encodeInt n).Canon := by
  unfold encodeInt
  split_ifs
  all_goals exact ⟨trivial, trivial⟩

theorem within_encodeInt (n : Int64) (k : ℕ) : (encodeInt n).Within (k + 1) := by
  unfold encodeInt
  split_ifs
  · trivial
  · trivial

theorem canon_limits (l : ResourceLimits) : (map (encodeLimits l)).Canon := by
  refine canon_map.mpr ⟨?_, ?_, ?_⟩
  · exact show 10 < 2 ^ 64 by decide
  · unfold encodeLimits
    simp
  · unfold encodeLimits
    simp [canon_uint]

theorem within_limits (l : ResourceLimits) : (map (encodeLimits l)).Within 2 := by
  unfold encodeLimits Value.Within
  simp [Value.Within]

/-! ## Keys -/

def keyEntries : CanonicalKey → Map
  | .string s => [(1, .uint 1), (2, .bytes (stringBytes s))]
  | .opaqueBytes b => [(1, .uint 2), (2, .bytes b)]
  | .integer b => [(1, .uint 3), (2, .bytes b)]
  | .decimal coefficient scale => [(1, .uint 4), (2, .bytes coefficient), (3, encodeInt scale)]

theorem encodeKeyMap_eq_ok : encodeKeyMap key = .ok m ↔
    validateCanonicalKey key = .ok () ∧ m = keyEntries key := by
  unfold encodeKeyMap
  rw [bind_eq_ok]
  constructor
  · rintro ⟨_, hvalid, h⟩
    refine ⟨hvalid, ?_⟩
    rw [← ok.inj h]
    cases key <;> rfl
  · rintro ⟨hvalid, rfl⟩
    refine ⟨(), hvalid, ?_⟩
    cases key <;> rfl

/-- An encoder that can only fail at its key. -/
theorem keyMap_bind_eq_ok {f : Map → α} {x : α} :
    (encodeKeyMap key >>= fun m => pure (f m)) = .ok x ↔
      validateCanonicalKey key = .ok () ∧ x = f (keyEntries key) := by
  simp only [bind_eq_ok, encodeKeyMap_eq_ok, pure_eq_ok]
  constructor
  · rintro ⟨_, ⟨hvalid, rfl⟩, rfl⟩
    exact ⟨hvalid, rfl⟩
  · rintro ⟨hvalid, rfl⟩
    exact ⟨_, ⟨hvalid, rfl⟩, rfl⟩

theorem refuseScale_eq_ok {map : Map} :
    refuseScaleOnNonDecimal (map.any fun e => e.1 = 3) = .ok u ↔ field map 3 = none := by
  have hany : (map.any fun e => e.1 = 3) = (field map 3).isSome := by
    unfold field
    rw [isSome_map, isSome_find?]
  rw [hany]
  cases field map 3 with
  | none => exact iff_of_true rfl rfl
  | some v => exact iff_of_false nofun nofun

theorem eq_key_fields {map : Map} (scale : Option Value)
    (hsort : map.Pairwise fun a b => a.1 < b.1) (hkeys : ∀ e ∈ map, e.1 ∈ [1, 2, 3]) {kind : UInt8}
    {payload : Bytes} (h1 : field map 1 = some (.uint kind.toUInt64))
    (h2 : field map 2 = some (.bytes payload)) (h3 : field map 3 = scale) :
    map = [(1, .uint kind.toUInt64), (2, .bytes payload)] ++ scale.toList.map fun v => (3, v) := by
  rw [eq_fields hsort (by decide) hkeys, fieldsOf]
  cases scale <;>
    simp only [filterMap_cons, filterMap_nil, h1, h2, h3, map_some,
      map_none] <;> rfl

theorem decodeKey_eq_ok (hc : v.Canon) : decodeKey v = .ok key ↔
    validateCanonicalKey key = .ok () ∧ v = .map (keyEntries key) := by
  unfold decodeKey
  rw [bind_eq_ok]
  constructor
  · rintro ⟨map, hmap, h⟩
    obtain rfl := asMap_eq_ok.mp hmap
    obtain ⟨-, hsort, -⟩ := canon_map.mp hc
    obtain ⟨_, hkeys, h⟩ := bind_eq_ok.mp h
    obtain ⟨kind, hkind, h⟩ := bind_eq_ok.mp h
    obtain ⟨payload, hpayload, h⟩ := bind_eq_ok.mp h
    rw [refuseUnknownKeys_eq_ok] at hkeys
    rw [requireU8_eq_ok] at hkind
    rw [requireBytes_eq_ok] at hpayload
    have hfields := fun scale => eq_key_fields scale hsort hkeys hkind hpayload
    split_ifs at h with h1 h2 h3 h4
    all_goals obtain ⟨_, hscale, hread⟩ := bind_eq_ok.mp h
    · have hentries := hfields none (refuseScale_eq_ok.mp hscale)
      cases hs : fromUtf8 payload with
      | none =>
        rw [hs] at hread
        cases hread
      | some s =>
        rw [hs] at hread
        cases hread
        rw [h1, fromUtf8_eq_some.mp hs] at hentries
        exact ⟨rfl, congrArg Value.map hentries⟩
    · have hentries := hfields none (refuseScale_eq_ok.mp hscale)
      cases hread
      rw [h2] at hentries
      exact ⟨rfl, congrArg Value.map hentries⟩
    · have hentries := hfields none (refuseScale_eq_ok.mp hscale)
      obtain ⟨_, hvalid, hkey⟩ := bind_eq_ok.mp hread
      cases hkey
      rw [h3] at hentries
      exact ⟨hvalid, congrArg Value.map hentries⟩
    · have hentries := hfields _ (requireValue_eq_ok.mp hscale)
      obtain ⟨scale, hint, hverify⟩ := bind_eq_ok.mp hread
      obtain ⟨_, hvalid, hkey⟩ := bind_eq_ok.mp hverify
      cases hkey
      rw [h4, decodeInt_eq_ok.mp hint] at hentries
      exact ⟨hvalid, congrArg Value.map hentries⟩
  · rintro ⟨hvalid, rfl⟩
    refine ⟨keyEntries key, rfl, ?_⟩
    cases key with
    | string s =>
      have hs : fromUtf8 (stringBytes s) = some s := fromUtf8_eq_some.mpr rfl
      refine bind_eq_ok.mpr ⟨(), rfl, bind_eq_ok.mpr ⟨1, rfl,
        bind_eq_ok.mpr ⟨stringBytes s, rfl, bind_eq_ok.mpr ⟨(), rfl, ?_⟩⟩⟩⟩
      rw [hs]
      rfl
    | opaqueBytes b => rfl
    | integer b =>
      change (verifySignedInteger b >>= fun _ => pure (CanonicalKey.integer b)) = _
      rw [show verifySignedInteger b = .ok () from hvalid]
      rfl
    | decimal coefficient scale =>
      change (decodeInt (encodeInt scale) >>= fun scale => verifySignedInteger coefficient >>=
        fun _ => pure (CanonicalKey.decimal coefficient scale)) = _
      rw [decodeInt_eq_ok.mpr rfl, show verifySignedInteger coefficient = .ok () from hvalid]
      rfl

end Residiuum.Atomics
