import Residiuum.Atomics.Cbor
import Residiuum.Format.CborCodec

/-!
# The CBOR profile of atomic evidence: the round trips

The profile is a part of the envelope format: `Value.toCbor` reads a value as one of the envelope
codec, and what is written for it is the same bytes. The grammar `Canon`, the wire form and the
deep sort are therefore those of the envelope codec; what is new is the bound on the depth.

* **`readValueLeft_reads`**: the reader reads exactly the canonical wire forms of values whose
  nesting is `Within` the levels that are left.
* **`decodeMap_eq_ok`**: the records that are read are the wire forms of canonical maps.
* **`encodeMap_eq`**, `encodeMap_of_canon`: what is written is the wire form of the sorted map.
-/

namespace Residiuum.Atomics

open ByteLib List Residiuum.CborValue Value

/-! ## Heads -/

variable {n : ℕ} {cur r b : Bytes} {m : UInt8} {a : UInt64} {v : Value} {es : Map}
  {P : Value → Prop} {read : Cursor Value} {items : List Value}

theorem take_ok {z : Bytes × Bytes} :
    (take n).run cur = .ok z ↔ (Residiuum.take n).run cur = .ok z := by
  change (if _ then _ else _) = _ ↔ (if _ then _ else _) = _
  split_ifs
  · exact iff_of_false nofun nofun
  · rw [Except.ok.injEq, Except.ok.injEq]

theorem takeByte_ok {z : UInt8 × Bytes} :
    takeByte.run cur = .ok z ↔ Residiuum.takeByte.run cur = .ok z := by
  cases cur with
  | nil => exact iff_of_false nofun nofun
  | cons b cur =>
    change Except.ok _ = _ ↔ Except.ok _ = _
    rw [Except.ok.injEq, Except.ok.injEq]

theorem readArg_ok {w least : ℕ} {z : UInt64 × Bytes} :
    (readArg w least).run cur = .ok z ↔ (Residiuum.readArg w least).run cur = .ok z := by
  unfold readArg Residiuum.readArg
  rw [run_bind_eq_ok, run_bind_eq_ok]
  refine exists_congr fun raw => exists_congr fun r => and_congr take_ok ?_
  rw [run_ite, run_ite]
  split_ifs
  · rw [run_throw_eq_ok, run_throw_eq_ok]
  · rw [run_pure_eq_ok, run_pure_eq_ok]

theorem readHead_ok {z : (UInt8 × UInt64) × Bytes} :
    readHead.run cur = .ok z ↔ Residiuum.readHead.run cur = .ok z := by
  unfold readHead Residiuum.readHead
  rw [run_bind_eq_ok, run_bind_eq_ok]
  refine exists_congr fun b => exists_congr fun r => and_congr takeByte_ok ?_
  simp only [run_ite]
  split_ifs <;> simp only [run_bind_eq_ok, readArg_ok, run_throw_eq_ok, run_pure_eq_ok]

theorem readHead_eq_ok : readHead.run cur = .ok ((m, a), r) ↔ m < 8 ∧ cur = writeTypeArg m a ++ r :=
  readHead_ok.trans Residiuum.readHead_eq_ok

/-- A head of the one major type that is accepted, and what is read behind it. -/
theorem headOf_bind_eq_ok {α : Type} (hm : m < 8) (next : UInt64 → Cursor α)
    {wrong : AtomicsError} {x : α} :
    (readHead >>= fun p => if p.1 ≠ m then throw wrong else next p.2).run cur = .ok (x, r) ↔
      ∃ a r', cur = writeTypeArg m a ++ r' ∧ (next a).run r' = .ok (x, r) := by
  rw [run_bind_eq_ok]
  constructor
  · rintro ⟨⟨m', a⟩, r', h1, h2⟩
    obtain ⟨-, rfl⟩ := readHead_eq_ok.mp h1
    dsimp only at h2
    rw [run_ite] at h2
    split_ifs at h2 with hne
    · exact (run_throw_eq_ok.mp h2).elim
    · exact ⟨a, r', by rw [not_not.mp hne], h2⟩
  · rintro ⟨a, r', rfl, h⟩
    refine ⟨(m, a), r', readHead_eq_ok.mpr ⟨hm, rfl⟩, ?_⟩
    rw [run_ite, if_neg (not_not.mpr rfl)]
    exact h

theorem readUint_eq_ok {k : UInt64} : readUint.run cur = .ok (k, r) ↔ cur = writeUint k ++ r := by
  refine (headOf_bind_eq_ok (m := 0) (by decide) pure).trans ?_
  constructor
  · rintro ⟨a, r', rfl, h⟩
    cases run_pure_eq_ok.mp h
    rw [writeUint]
  · rintro rfl
    exact ⟨k, r, rfl, rfl⟩

theorem boundLen_eq_ok {c : ℕ} (hc : 0 < c) :
    (boundLen a c).run cur = .ok (n, r) ↔ n = a.toNat ∧ n * c ≤ cur.length ∧ r = cur := by
  refine Iff.trans ?_ (boundCollectionLen_eq_ok (a := a) hc)
  change (if _ then _ else _) = _ ↔ (if _ then _ else _) = _
  split_ifs
  · exact iff_of_false nofun nofun
  · rw [Except.ok.injEq, Except.ok.injEq]

theorem readMapLen_eq_ok : readMapLen.run cur = .ok (n, r) ↔
    n < 2 ^ 64 ∧ n * 2 ≤ r.length ∧ cur = writeTypeArg 5 (UInt64.ofNat n) ++ r := by
  refine (headOf_bind_eq_ok (m := 5) (by decide) fun a => boundLen a 2).trans ?_
  constructor
  · rintro ⟨a, r', rfl, h⟩
    obtain ⟨rfl, hle, rfl⟩ := (boundLen_eq_ok two_pos).mp h
    exact ⟨a.toNat_lt, hle, by rw [UInt64.ofNat_toNat]⟩
  · rintro ⟨hn, hle, rfl⟩
    refine ⟨UInt64.ofNat n, r, rfl, (boundLen_eq_ok two_pos).mpr ⟨?_, hle, rfl⟩⟩
    exact (UInt64.toNat_ofNat_of_lt' hn).symm

theorem readHead_cons {h : UInt8} {t : Bytes} :
    readHead.run (h :: t) = .ok ((m, a), r) ↔
      m = h >>> 5 ∧ h :: t = writeTypeArg (h >>> 5) a ++ r := by
  rw [readHead_eq_ok]
  constructor
  · rintro ⟨hm, e⟩
    obtain ⟨h', t', ht, rfl⟩ := writeTypeArg_head hm a
    rw [ht] at e
    obtain ⟨rfl, -⟩ := List.cons.inj e
    refine ⟨rfl, ?_⟩
    rw [ht]
    exact e
  · rintro ⟨rfl, e⟩
    exact ⟨(head_split h).2.1, e⟩

/-! ## Values -/

mutual

def Value.toCbor : Value → CborValue
  | .uint n => .uint n
  | .nint n => .nint n
  | .bytes b => .bytes b
  | .array items => .array (Value.toCborItems items)
  | .map entries => .map (Value.toCborEntries entries)

def Value.toCborItems : List Value → List CborValue
  | [] => []
  | v :: vs => v.toCbor :: Value.toCborItems vs

def Value.toCborEntries : List (UInt64 × Value) → List (UInt64 × CborValue)
  | [] => []
  | (k, v) :: es => (k, v.toCbor) :: Value.toCborEntries es

end

theorem toCborItems_eq (items : List Value) : toCborItems items = items.map toCbor := by
  induction items with
  | nil => rfl
  | cons v vs ih => rw [toCborItems, ih, map_cons]

theorem toCborEntries_eq (es : Map) : toCborEntries es = es.map fun e => (e.1, e.2.toCbor) := by
  induction es with
  | nil => rfl
  | cons e es ih => rw [toCborEntries, ih, map_cons]

theorem Value.ind (uint : ∀ n, P (.uint n)) (nint : ∀ n, P (.nint n))
    (bytes : ∀ b, P (.bytes b)) (array : ∀ items, (∀ v ∈ items, P v) → P (.array items))
    (map : ∀ entries : Map, (∀ e ∈ entries, P e.2) → P (.map entries)) (v : Value) : P v := by
  refine @rec P (fun items => ∀ v ∈ items, P v) (fun entries => ∀ e ∈ entries, P e.2)
    (fun e => P e.2) uint nint bytes array map ?_ ?_ ?_ ?_ ?_ v
  · simp
  · intro w items hw hitems
    exact forall_mem_cons.mpr ⟨hw, hitems⟩
  · simp
  · intro e entries he hentries
    exact forall_mem_cons.mpr ⟨he, hentries⟩
  · intro k w hw
    exact hw

/-- The nesting of a value is within a number of levels. -/
def Value.Within : ℕ → Value → Prop
  | 0, _ => False
  | n + 1, .array items => ∀ v ∈ items, Value.Within n v
  | n + 1, .map entries => ∀ e ∈ entries, Value.Within n e.2
  | _ + 1, _ => True

theorem Value.Within.succ (h : v.Within n) : v.Within (n + 1) := by
  induction n generalizing v with
  | zero => exact h.elim
  | succ n ih =>
    cases v with
    | array items => exact fun w hw => ih (h w hw)
    | map es => exact fun e he => ih (h e he)
    | _ => trivial

def Value.wire (v : Value) : Bytes := Residiuum.wire v.toCbor

/-- Every length fits and every map is sorted, at every depth. -/
def Value.Canon (v : Value) : Prop := Residiuum.Canon v.toCbor

theorem canon_array : (array items).Canon ↔ items.length < 2 ^ 64 ∧ ∀ v ∈ items, v.Canon := by
  unfold Value.Canon Residiuum.Canon
  rw [toCbor, everywhere_array, toCborItems_eq, forall_mem_map]
  refine and_congr_left fun _ => ?_
  rw [lenFits, length_map]
  exact and_iff_left trivial

theorem keysAscend_map : KeysAscend (toCborEntries es) ↔ es.Pairwise fun a b => a.1 < b.1 := by
  rw [toCborEntries_eq, KeysAscend, pairwise_map]

theorem canon_map : (map es).Canon ↔ es.length < 2 ^ 64 ∧
    (es.Pairwise fun a b => a.1 < b.1) ∧ ∀ e ∈ es, e.2.Canon := by
  unfold Value.Canon Residiuum.Canon
  rw [toCbor, everywhere_map, lenFits, keysSorted, keysAscend_map, toCborEntries_eq,
    length_map, forall_mem_map, and_assoc]

theorem wire_array (items : List Value) : (array items).wire =
    writeTypeArg 4 (UInt64.ofNat items.length) ++ items.flatMap Value.wire := by
  unfold Value.wire
  rw [toCbor, Residiuum.wire, wireItems_eq, toCborItems_eq, length_map,
    flatMap_map]

def wireMap (es : Map) : Bytes := es.flatMap fun e => writeUint e.1 ++ e.2.wire

theorem wireEntries_toCbor (es : Map) : wireEntries (toCborEntries es) = wireMap es := by
  rw [wireEntries_eq, toCborEntries_eq, flatMap_map]
  rfl

theorem wire_map (es : Map) : (map es).wire =
    writeTypeArg 5 (UInt64.ofNat es.length) ++ wireMap es := by
  unfold Value.wire
  rw [toCbor, Residiuum.wire, wireEntries_toCbor, toCborEntries_eq, length_map]

theorem length_le_wireMap (es : Map) : es.length * 2 ≤ (wireMap es).length := by
  have h := length_le_wireEntries (toCborEntries es)
  rw [wireEntries_toCbor, toCborEntries_eq, length_map] at h
  exact h

theorem length_le_wires (items : List Value) :
    items.length ≤ (items.flatMap Value.wire).length := by
  have h := length_le_wireItems (toCborItems items)
  rw [toCborItems_eq, length_map, flatMap_map] at h
  exact h

/-! ## The reader -/

/-- `read` reads exactly the wire forms of the values with `P`. -/
def ReadsWire (P : Value → Prop) (read : Cursor Value) : Prop :=
  ∀ cur v r, read.run cur = .ok (v, r) ↔ P v ∧ cur = v.wire ++ r

theorem ReadsWire.parses (h : ReadsWire P read) (n : ℕ) :
    ParsesBelow n read fun v b => P v ∧ b = v.wire := by
  intro cur _ v r
  rw [h cur v r, exists_string]

theorem ReadsWire.times (h : ReadsWire P read)
    {vs : List Value} : (times read n).run cur = .ok (vs, r) ↔
      vs.length = n ∧ (∀ v ∈ vs, P v) ∧ cur = vs.flatMap Value.wire ++ r :=
  (h.parses _).times_eq_ok n (Nat.lt_succ_self _)

section Read

variable {P : Value → Prop} {read : Cursor Value}

/-- **The entry loop** reads the entries whose keys ascend from the previous key. The keys seen so
far are all at most the previous one, so the duplicate test never decides alone. -/
theorem readCanonicalEntries_eq_ok (hread : ReadsWire P read) (n : ℕ) :
    ∀ (prev : Option UInt64) (seen : List UInt64) (_ : ∀ k ∈ seen, ∃ p ∈ prev, k ≤ p)
      (cur r : Bytes) (es : Map),
    (readCanonicalEntries read n (prev.map writeUint) seen).run cur = .ok (es, r) ↔
      es.length = n ∧ (∀ e ∈ es, P e.2) ∧ Follows prev (toCborEntries es) ∧
        cur = wireMap es ++ r := by
  induction n with
  | zero =>
    intro prev seen _ cur r es
    rw [readCanonicalEntries, run_pure_eq_ok]
    constructor
    · intro h
      cases h
      exact ⟨rfl, by simp, ⟨List.Pairwise.nil, by simp [toCborEntries]⟩, rfl⟩
    · rintro ⟨hl, -, -, rfl⟩
      rw [length_eq_zero_iff.mp hl]
      rfl
  | succ n ihn =>
    intro prev seen hseen cur r es
    simp only [readCanonicalEntries, run_bind_eq_ok, run_get_eq_ok, readUint_eq_ok]
    constructor
    · rintro ⟨_, _, ⟨rfl, rfl⟩, k, _, rfl, _, cur1, ⟨rfl, rfl⟩, h⟩
      rw [take_key, run_ite, run_ite] at h
      split_ifs at h with hdup hsort
      · exact (run_throw_eq_ok.mp h).elim
      · exact (run_throw_eq_ok.mp h).elim
      have hk := any_le_prev.mp (Bool.not_eq_true _ ▸ hsort)
      obtain ⟨v, cur2, h1, h2⟩ := run_bind_eq_ok.mp h
      obtain ⟨hv, rfl⟩ := (hread _ v cur2).mp h1
      obtain ⟨items, r', h3, h4⟩ := run_bind_eq_ok.mp h2
      cases run_pure_eq_ok.mp h4
      obtain ⟨hl, hc, hfol, rfl⟩ := (ihn (some k) _ (seen_le_key hseen hk) cur2 _ items).mp h3
      refine ⟨by rw [length_cons, hl], forall_mem_cons.mpr ⟨hv, hc⟩,
        follows_cons.mpr ⟨hk, hfol⟩, ?_⟩
      simp [wireMap]
    · rintro ⟨hl, hc, hfol, rfl⟩
      cases es with
      | nil => simp at hl
      | cons e es =>
        obtain ⟨k, v⟩ := e
        obtain ⟨hv, hc⟩ := forall_mem_cons.mp hc
        obtain ⟨hk, hfol⟩ := follows_cons.mp hfol
        have hwire : wireMap ((k, v) :: es) ++ r =
            writeUint k ++ (v.wire ++ (wireMap es ++ r)) := by
          simp [wireMap]
        rw [hwire]
        refine ⟨_, _, ⟨rfl, rfl⟩, k, _, rfl, _, _, ⟨rfl, rfl⟩, ?_⟩
        rw [take_key, run_ite, if_neg (not_mem_seen hseen hk), run_ite,
          if_neg (by simp [any_le_prev.mpr hk])]
        refine run_bind_eq_ok.mpr ⟨v, wireMap es ++ r, (hread _ _ _).mpr ⟨hv, rfl⟩,
          run_bind_eq_ok.mpr ⟨es, r, ?_, rfl⟩⟩
        exact (ihn (some k) _ (seen_le_key hseen hk) _ r es).mpr ⟨by simpa using hl, hc, hfol, rfl⟩

theorem readCanonicalMap_eq_ok (hread : ReadsWire P read) :
    (readMapLen >>= fun n => readCanonicalEntries read n none [] : Cursor Map).run cur =
        .ok (es, r) ↔
      es.length < 2 ^ 64 ∧ (es.Pairwise fun a b => a.1 < b.1) ∧ (∀ e ∈ es, P e.2) ∧
        cur = (map es).wire ++ r := by
  have hentries := fun n => readCanonicalEntries_eq_ok hread n none [] (by simp)
  rw [run_bind_eq_ok]
  simp only [readMapLen_eq_ok]
  constructor
  · rintro ⟨n, r1, ⟨hn, -, rfl⟩, h2⟩
    obtain ⟨rfl, hc, hfol, rfl⟩ := (hentries n r1 r es).mp h2
    refine ⟨hn, keysAscend_map.mp hfol.1, hc, ?_⟩
    rw [wire_map, append_assoc]
  · rintro ⟨hn, hsort, hc, rfl⟩
    have hlen := length_le_wireMap es
    refine ⟨es.length, wireMap es ++ r, ⟨hn, ?_, ?_⟩, ?_⟩
    · rw [length_append]
      omega
    · rw [wire_map, append_assoc]
    · exact (hentries _ _ r es).mpr ⟨rfl, hc, ⟨keysAscend_map.mpr hsort, by simp⟩, rfl⟩

end Read

/-- What a branch of the reader for major type `m` reads: the canonical values of that type. -/
def ReadsMajor (m : UInt8) (left : ℕ) (p : Cursor Value) (cur : Bytes) : Prop :=
  ∀ v r, p.run cur = .ok (v, r) ↔
    major v.toCbor = m ∧ (v.Within (left + 1) ∧ v.Canon) ∧ cur = v.wire ++ r

section Branches

variable {left : ℕ} {read : Cursor Value}
  (hread : ReadsWire (fun v => v.Within left ∧ v.Canon) read)
  {h : UInt8} {t : Bytes}

theorem readBranch_uint (cur : Bytes) : ReadsMajor 0 left (readBranch read 0) cur := by
  intro v r
  rw [readBranch]
  simp only [run_bind_eq_ok, readUint_eq_ok, run_pure_eq_ok, Prod.mk.injEq]
  constructor
  · rintro ⟨n, r, rfl, rfl, rfl⟩
    exact ⟨rfl, ⟨trivial, trivial, trivial⟩, rfl⟩
  · rintro ⟨hm, -, rfl⟩
    cases v with
    | uint n => exact ⟨n, r, rfl, rfl, rfl⟩
    | _ => simp [major, toCbor] at hm

theorem readBranch_nint (hh : h >>> 5 = 1) : ReadsMajor 1 left (readBranch read 1) (h :: t) := by
  intro v r
  rw [readBranch]
  simp only [run_bind_eq_ok, run_pure_eq_ok, Prod.mk.injEq]
  constructor
  · rintro ⟨⟨m, n⟩, r, h1, rfl, rfl⟩
    obtain ⟨-, e⟩ := readHead_cons.mp h1
    rw [hh] at e
    exact ⟨rfl, ⟨trivial, trivial, trivial⟩, e⟩
  · rintro ⟨hm, -, e⟩
    cases v with
    | nint n => exact ⟨(1, n), r, readHead_eq_ok.mpr ⟨by decide, e⟩, rfl, rfl⟩
    | _ => simp [major, toCbor] at hm

theorem readBranch_bytes (hh : h >>> 5 = 2) : ReadsMajor 2 left (readBranch read 2) (h :: t) := by
  intro v r
  rw [readBranch]
  simp only [run_bind_eq_ok, run_pure_eq_ok, Prod.mk.injEq, take_ok, take_eq_ok]
  constructor
  · rintro ⟨⟨m, a⟩, r1, h1, b, r, ⟨hlen, rfl⟩, rfl, rfl⟩
    obtain ⟨-, e⟩ := readHead_cons.mp h1
    have hfit : b.length < 2 ^ 64 := by
      rw [hlen]
      exact a.toNat_lt
    refine ⟨rfl, ⟨trivial, hfit, trivial⟩, ?_⟩
    rw [e, hh, Value.wire, Value.toCbor, Residiuum.wire, hlen, UInt64.ofNat_toNat,
      append_assoc]
  · rintro ⟨hm, ⟨-, hc⟩, e⟩
    cases v with
    | bytes b =>
      have hlen : b.length < 2 ^ 64 := hc.1
      rw [Value.wire, Value.toCbor, Residiuum.wire, append_assoc] at e
      exact ⟨(2, UInt64.ofNat b.length), b ++ r, readHead_eq_ok.mpr ⟨by decide, e⟩, b, r,
        ⟨(UInt64.toNat_ofNat_of_lt' hlen).symm, rfl⟩, rfl, rfl⟩
    | _ => simp [major, Value.toCbor] at hm

include hread

theorem readBranch_array (hh : h >>> 5 = 4) : ReadsMajor 4 left (readBranch read 4) (h :: t) := by
  intro v r
  rw [readBranch]
  simp only [run_bind_eq_ok, run_pure_eq_ok, Prod.mk.injEq, boundLen_eq_ok one_pos, hread.times]
  constructor
  · rintro ⟨⟨m, a⟩, r1, h1, n, _, ⟨rfl, -, rfl⟩, items, r, ⟨hlen, hv, rfl⟩, rfl, rfl⟩
    obtain ⟨-, e⟩ := readHead_cons.mp h1
    have hfit : items.length < 2 ^ 64 := by
      rw [hlen]
      exact a.toNat_lt
    refine ⟨rfl, ⟨fun v hm => (hv v hm).1, canon_array.mpr ⟨hfit, fun v hm => (hv v hm).2⟩⟩, ?_⟩
    rw [e, hh, wire_array, hlen, UInt64.ofNat_toNat, append_assoc]
  · rintro ⟨hm, ⟨hw, hc⟩, e⟩
    cases v with
    | array items =>
      obtain ⟨hfit, hc⟩ := canon_array.mp hc
      have hlen := length_le_wires items
      rw [wire_array, append_assoc] at e
      refine ⟨(4, UInt64.ofNat items.length), items.flatMap Value.wire ++ r,
        readHead_eq_ok.mpr ⟨by decide, e⟩, items.length, _, ⟨?_, ?_, rfl⟩, items, r,
        ⟨rfl, fun v hm => ⟨hw v hm, hc v hm⟩, rfl⟩, rfl, rfl⟩
      · exact (UInt64.toNat_ofNat_of_lt' hfit).symm
      · rw [length_append]
        omega
    | _ => simp [major, toCbor] at hm

theorem readBranch_map (cur : Bytes) : ReadsMajor 5 left (readBranch read 5) cur := by
  intro v r
  rw [readBranch, ← bind_assoc, run_bind_eq_ok]
  simp only [readCanonicalMap_eq_ok hread, run_pure_eq_ok, Prod.mk.injEq]
  constructor
  · rintro ⟨es, r, ⟨hn, hsort, hv, rfl⟩, rfl, rfl⟩
    exact ⟨rfl, ⟨fun e he => (hv e he).1, canon_map.mpr ⟨hn, hsort, fun e he => (hv e he).2⟩⟩, rfl⟩
  · rintro ⟨hm, ⟨hw, hc⟩, rfl⟩
    cases v with
    | map es =>
      obtain ⟨hn, hsort, hc⟩ := canon_map.mp hc
      exact ⟨es, r, ⟨hn, hsort, fun e he => ⟨hw e he, hc e he⟩, rfl⟩, rfl, rfl⟩
    | _ => simp [major, toCbor] at hm

theorem readBranch_cons : ReadsMajor (h >>> 5) left (readBranch read (h >>> 5).toNat) (h :: t) := by
  have hnone : ∀ m : UInt8, (m = 3 ∨ m = 6 ∨ m = 7) → ∀ e,
      ReadsMajor m left (throw e) (h :: t) := by
    intro m hm e v r
    refine run_throw_eq_ok.trans (iff_of_false not_false ?_)
    rintro ⟨h', -, -⟩
    rw [← h'] at hm
    cases v <;> simp [major, toCbor] at hm
  rcases major_cases (head_split h).2.1 with hm | hm | hm | hm | hm | hm | hm | hm <;> rw [hm]
  · exact readBranch_uint _
  · exact readBranch_nint hm
  · exact readBranch_bytes hm
  · exact hnone 3 (by decide) _
  · exact readBranch_array hread hm
  · exact readBranch_map hread _
  · exact hnone 6 (by decide) _
  · exact hnone 7 (by decide) _

end Branches

theorem wire_append_cons : v.wire ++ r ≠ [] :=
  wire_append_ne_nil v.toCbor r

theorem readValueLeft_reads (left : ℕ) :
    ReadsWire (fun v => v.Within left ∧ v.Canon) (readValueLeft left) := by
  induction left with
  | zero =>
    intro cur v r
    exact run_throw_eq_ok.trans (iff_of_false not_false fun h => h.1.1)
  | succ left ih =>
    intro cur v r
    cases cur with
    | nil => exact iff_of_false nofun fun h => wire_append_cons h.2.symm
    | cons h t =>
      change (readBranch (readValueLeft left) (h >>> 5).toNat).run (h :: t) = _ ↔ _
      rw [readBranch_cons ih v r]
      exact ⟨fun h' => h'.2, fun h' => ⟨(wire_head h'.2).symm, h'⟩⟩

theorem validateMap_eq_ok : validateMap b = .ok () ↔
    ∃ es : Map, (map es).Canon ∧ (map es).Within 10 ∧ b = (map es).wire := by
  have hmap : ∀ cur es r, (readMapLen >>= fun n => readCanonicalEntries (readValue 0) n none [] :
      Cursor Map).run cur = .ok (es, r) ↔ _ :=
    fun cur es r => readCanonicalMap_eq_ok (readValueLeft_reads 9)
  have hvalidate : validateMap b = ((readMapLen >>= fun n =>
      readCanonicalEntries (readValue 0) n none [] : Cursor Map).run b >>= fun z =>
        if z.2 ≠ [] then throw (.cbor .trailingBytes) else return ()) := by
    rw [StateT.run_bind, bind_assoc]
    rfl
  rw [hvalidate, bind_eq_ok]
  constructor
  · rintro ⟨⟨es, cur⟩, h1, h2⟩
    obtain ⟨hn, hsort, hv, rfl⟩ := (hmap _ _ _).mp h1
    have hnil : cur = [] := not_not.mp (ite_throw_eq_ok.mp h2).1
    refine ⟨es, canon_map.mpr ⟨hn, hsort, fun e he => (hv e he).2⟩, fun e he => (hv e he).1, ?_⟩
    rw [hnil, append_nil]
  · rintro ⟨es, hc, hw, rfl⟩
    obtain ⟨hn, hsort, hv⟩ := canon_map.mp hc
    refine ⟨(es, []), (hmap _ _ _).mpr ⟨hn, hsort, fun e he => ⟨hw e he, hv e he⟩, ?_⟩, rfl⟩
    rw [append_nil]

theorem Value.Canon.fits (h : v.Canon) : Fits v.toCbor := Residiuum.Canon.fits h

theorem times_readEntry_eq_ok : (times readEntry n).run cur = .ok (es, r) ↔
      es.length = n ∧ (∀ e ∈ es, e.2.Within 8 ∧ e.2.Canon) ∧ cur = wireMap es ++ r := by
  have hentry : ∀ m, ParsesBelow m readEntry fun e b =>
      (e.2.Within 8 ∧ e.2.Canon) ∧ b = writeUint e.1 ++ e.2.wire := by
    intro m cur _ e r
    unfold readEntry
    simp only [run_bind_eq_ok, readUint_eq_ok, run_pure_eq_ok]
    constructor
    · rintro ⟨k, _, rfl, v, r, h2, hz⟩
      cases hz
      obtain ⟨hv, rfl⟩ := (readValueLeft_reads 8 _ _ _).mp h2
      exact ⟨_, ⟨hv, rfl⟩, by rw [append_assoc]⟩
    · rintro ⟨b, ⟨hv, rfl⟩, rfl⟩
      exact ⟨e.1, e.2.wire ++ r, by rw [append_assoc], e.2, r,
        (readValueLeft_reads 8 _ _ _).mpr ⟨hv, rfl⟩, rfl⟩
  exact (hentry _).times_eq_ok n (Nat.lt_succ_self _)

theorem decodeMap_eq_ok : decodeMap b = .ok es ↔
    (map es).Canon ∧ (map es).Within 9 ∧ b = (map es).wire := by
  unfold decodeMap
  rw [bind_eq_ok]
  constructor
  · rintro ⟨_, h1, h2⟩
    obtain ⟨es', hc, -, rfl⟩ := validateMap_eq_ok.mp h1
    obtain ⟨⟨n, cur⟩, h3, h4⟩ := bind_eq_ok.mp h2
    obtain ⟨⟨out, rest⟩, h5, h6⟩ := bind_eq_ok.mp h4
    obtain ⟨hrest, h7⟩ := ite_throw_eq_ok.mp h6
    obtain rfl := Except.ok.inj h7
    obtain rfl : rest = [] := not_not.mp hrest
    obtain ⟨hn, -, e⟩ := readMapLen_eq_ok.mp h3
    obtain ⟨rfl, hv, rfl⟩ := times_readEntry_eq_ok.mp h5
    have hfits : Fits (map out).toCbor := by
      rw [toCbor, toCborEntries_eq]
      refine everywhere_map.mpr ⟨?_, forall_mem_map.mpr fun e he => (hv e he).2.fits⟩
      rw [lenFits, length_map]
      exact hn
    have e' : (map es').wire ++ [] = (map out).wire ++ [] := by
      rw [e, wire_map, append_nil, append_nil, append_nil]
    obtain ⟨hsame, -⟩ := wire_append_inj hc.fits hfits e'
    refine ⟨?_, fun e he => (hv e he).1, ?_⟩
    · rw [Value.Canon, ← hsame]
      exact hc
    · rw [append_nil, append_nil] at e'
      exact e'
  · rintro ⟨hc, hw, rfl⟩
    obtain ⟨hn, hsort, hv⟩ := canon_map.mp hc
    have hlen := length_le_wireMap es
    refine ⟨(), validateMap_eq_ok.mpr ⟨es, hc, hw.succ, rfl⟩, bind_eq_ok.mpr
      ⟨(es.length, wireMap es), readMapLen_eq_ok.mpr ⟨hn, hlen, wire_map es⟩,
        bind_eq_ok.mpr ⟨(es, []), ?_, rfl⟩⟩⟩
    refine times_readEntry_eq_ok.mpr ⟨rfl, fun e he => ⟨hw e he, hv e he⟩, ?_⟩
    rw [append_nil]

/-! ## The writer -/

mutual

/-- The value with every map, at every depth, sorted by key. -/
def Value.sortDeep : Value → Value
  | .array items => .array (Value.sortItems items)
  | .map entries => .map (sortByKey (Value.sortValues entries))
  | .uint n => .uint n
  | .nint n => .nint n
  | .bytes b => .bytes b

def Value.sortItems : List Value → List Value
  | [] => []
  | v :: vs => v.sortDeep :: Value.sortItems vs

/-- Each entry's value sorted, the entries left in order. -/
def Value.sortValues : List (UInt64 × Value) → List (UInt64 × Value)
  | [] => []
  | (k, v) :: es => (k, v.sortDeep) :: Value.sortValues es

end

/-- The entries of a map as the writer orders them. -/
def sortedMap (es : Map) : Map := sortByKey (es.map fun e => (e.1, e.2.sortDeep))

theorem sortDeep_array (items : List Value) :
    (Value.array items).sortDeep = .array (items.map Value.sortDeep) := by
  have hitems : ∀ vs : List Value, Value.sortItems vs = vs.map Value.sortDeep := by
    intro vs
    induction vs with
    | nil => rfl
    | cons v vs ih => rw [Value.sortItems, ih, map_cons]
  rw [Value.sortDeep, hitems]

theorem sortDeep_map (es : Map) : (map es).sortDeep = .map (sortedMap es) := by
  have hvalues : ∀ l : Map, Value.sortValues l = l.map fun e => (e.1, e.2.sortDeep) := by
    intro l
    induction l with
    | nil => rfl
    | cons e l ih => rw [Value.sortValues, ih, map_cons]
  rw [Value.sortDeep, hvalues, sortedMap]

theorem toCbor_sortDeep (v : Value) : v.sortDeep.toCbor = Residiuum.sortDeep v.toCbor := by
  induction v using Value.ind with
  | array items ih =>
    rw [sortDeep_array, toCbor, toCbor, Residiuum.sortDeep, sortItems_eq,
      toCborItems_eq, toCborItems_eq, map_map, map_map]
    exact congrArg _ (map_congr_left ih)
  | map es ih =>
    rw [sortDeep_map, toCbor, toCbor, Residiuum.sortDeep, sortValues_eq,
      toCborEntries_eq, toCborEntries_eq, sortedMap, ← sortByKey_map, map_map, map_map]
    refine congrArg _ (congrArg _ (map_congr_left fun e he => ?_))
    exact Prod.ext rfl (ih e he)
  | _ => rfl

theorem forall_mem_sortedMap {P : UInt64 × Value → Prop} :
    (∀ e ∈ sortedMap es, P e) ↔ ∀ e ∈ es, P (e.1, e.2.sortDeep) := by
  unfold sortedMap
  simp only [(sortByKey_perm _).mem_iff, forall_mem_map]

theorem Value.within_sortDeep : v.sortDeep.Within n ↔ v.Within n := by
  induction n generalizing v with
  | zero => exact Iff.rfl
  | succ n ih =>
    cases v with
    | array items =>
      rw [sortDeep_array]
      exact forall_mem_map.trans (forall₂_congr fun _ _ => ih)
    | map es =>
      rw [sortDeep_map]
      exact forall_mem_sortedMap.trans (forall₂_congr fun _ _ => ih)
    | _ => exact Iff.rfl

theorem fits_sortDeep : Fits v.sortDeep.toCbor ↔ Fits v.toCbor := by
  induction v using Value.ind with
  | array items ih =>
    rw [sortDeep_array, toCbor, toCbor, toCborItems_eq, toCborItems_eq]
    simp only [Fits, everywhere_array, lenFits, length_map, forall_mem_map]
    exact and_congr_right fun _ => forall₂_congr ih
  | map es ih =>
    rw [sortDeep_map, toCbor, toCbor, toCborEntries_eq, toCborEntries_eq]
    simp only [Fits, everywhere_map, lenFits, length_map, forall_mem_map]
    rw [forall_mem_sortedMap, sortedMap, (sortByKey_perm _).length_eq, length_map]
    exact and_congr_right fun _ => forall₂_congr ih
  | _ => exact Iff.rfl

/-- Lengths fit, no map has a key twice, and the nesting is within the bound of the validator. -/
structure Value.Writable (v : Value) : Prop where
  fits : Fits v.toCbor
  distinct : NoDuplicateKeys v.toCbor
  within : v.Within 10

theorem Value.Writable.canon (h : v.Writable) : v.sortDeep.Canon := by
  rw [Value.Canon, toCbor_sortDeep]
  exact canon_sortDeep h.fits h.distinct

theorem writable_items (h : (array items).Writable) : ∀ v ∈ items, v.Writable := by
  obtain ⟨hf, hd, hw⟩ := h
  rw [toCbor, toCborItems_eq] at hf hd
  intro v hv
  exact ⟨(everywhere_array.mp hf).2 _ (mem_map_of_mem hv),
    (everywhere_array.mp hd).2 _ (mem_map_of_mem hv), (hw v hv).succ⟩

theorem writable_entries (h : (map es).Writable) : ∀ e ∈ es, e.2.Writable := by
  obtain ⟨hf, hd, hw⟩ := h
  rw [toCbor, toCborEntries_eq] at hf hd
  intro e he
  have hmem := mem_map_of_mem (f := fun e : UInt64 × Value => (e.1, e.2.toCbor)) he
  exact ⟨(everywhere_map.mp hf).2 _ hmem, (everywhere_map.mp hd).2 _ hmem, (hw e he).succ⟩

theorem writeSorted_eq (es : Map) :
    writeSorted (es.map fun e => (e.1, .ok e.2.wire)) = .ok (wireMap es) := by
  induction es with
  | nil => rfl
  | cons e es ih =>
    rw [map_cons, writeSorted, ih]
    rfl

theorem writeEntries_eq (es : Map) : writeEntries es = es.map fun e => (e.1, writeValue e.2) := by
  induction es with
  | nil => rfl
  | cons e es ih => rw [writeEntries, ih, map_cons]

theorem encodeMap_of_values (h : (map es).Writable)
    (hv : ∀ e ∈ es, writeValue e.2 = .ok e.2.sortDeep.wire) :
    encodeMap es = .ok (map (sortedMap es)).wire := by
  have hc := h.canon
  have hw := within_sortDeep.mpr h.within
  rw [sortDeep_map] at hc hw
  obtain ⟨-, hs, -⟩ := canon_map.mp hc
  have hsort : sortByKey (writeEntries es) = (sortedMap es).map fun e => (e.1, .ok e.2.wire) := by
    rw [writeEntries_eq, sortByKey_map, sortedMap, sortByKey_map, map_map]
    exact map_congr_left fun e he =>
      Prod.ext rfl (hv e ((sortByKey_perm es).mem_iff.mp he))
  have hdup : hasDuplicateKey ((sortedMap es).map fun e =>
      (e.1, (.ok e.2.wire : Except AtomicsError Bytes))) = false :=
    (hasDuplicateKey_map (fun v : Value => (.ok v.wire : Except AtomicsError Bytes))
      (sortedMap es)).trans (hasDuplicateKey_of_ascending hs)
  have hvalid := validateMap_eq_ok.mpr ⟨sortedMap es, hc, hw, rfl⟩
  unfold encodeMap encodeWritten
  dsimp only
  rw [hsort, hdup, writeSorted_eq, length_map]
  rw [wire_map] at hvalid ⊢
  change (validateMap _ >>= fun _ => pure _) = _
  rw [hvalid]
  rfl

theorem writeValue_eq : v.Writable → writeValue v = .ok v.sortDeep.wire := by
  induction v using Value.ind with
  | array items ih =>
    intro h
    have hwritable := writable_items h
    have hitems : ∀ vs : List Value, (∀ v ∈ vs, v ∈ items) →
        writeItems vs = .ok ((vs.map Value.sortDeep).flatMap Value.wire) := by
      intro vs hvs
      induction vs with
      | nil => rfl
      | cons v vs ihvs =>
        obtain ⟨hv, hvs⟩ := forall_mem_cons.mp hvs
        rw [writeItems, ih v hv (hwritable v hv), ihvs hvs]
        rfl
    rw [writeValue, hitems items fun _ h => h, sortDeep_array, wire_array, length_map]
    rfl
  | map es ih =>
    intro h
    rw [sortDeep_map]
    exact encodeMap_of_values h fun e he => ih e he (writable_entries h e he)
  | _ => exact fun _ => rfl

theorem encodeMap_eq (h : (map es).Writable) : encodeMap es = .ok (map (sortedMap es)).wire :=
  encodeMap_of_values h fun e he => writeValue_eq (writable_entries h e he)

theorem sortDeep_of_canon : v.Canon → v.sortDeep = v := by
  induction v using Value.ind with
  | array items ih =>
    intro h
    obtain ⟨-, h⟩ := canon_array.mp h
    have hsame : items.map Value.sortDeep = items :=
      (map_congr_left fun w hw => ih w hw (h w hw)).trans (map_id items)
    rw [sortDeep_array, hsame]
  | map es ih =>
    intro h
    obtain ⟨-, hs, h⟩ := canon_map.mp h
    have hsame : (es.map fun e => (e.1, e.2.sortDeep)) = es := by
      refine (map_congr_left ?_).trans (map_id es)
      exact fun e he => Prod.ext rfl (ih e he (h e he))
    rw [sortDeep_map, sortedMap, hsame, sortByKey_of_ascending hs]
  | _ => exact fun _ => rfl

theorem encodeMap_of_canon (hc : (map es).Canon)
    (hw : (map es).Within 10) : encodeMap es = .ok (map es).wire := by
  have hs : sortedMap es = es := by
    have h := sortDeep_of_canon hc
    rw [sortDeep_map] at h
    exact map.inj h
  rw [encodeMap_eq ⟨hc.fits, canon_distinct hc, hw⟩, hs]

theorem distinct_of_sortDeep : v.sortDeep.Canon → NoDuplicateKeys v.toCbor := by
  induction v using Value.ind with
  | array items ih =>
    intro h
    rw [sortDeep_array] at h
    rw [toCbor, toCborItems_eq]
    exact everywhere_array.mpr ⟨trivial, forall_mem_map.mpr fun w hw =>
      ih w hw ((canon_array.mp h).2 _ (mem_map_of_mem hw))⟩
  | map es ih =>
    intro h
    rw [sortDeep_map] at h
    obtain ⟨-, hsorted, hentries⟩ := canon_map.mp h
    rw [toCbor, toCborEntries_eq]
    refine everywhere_map.mpr ⟨?_, forall_mem_map.mpr fun e he => ?_⟩
    · have hkeys : ((sortedMap es).map Prod.fst).Nodup :=
        pairwise_map.mpr (hsorted.imp UInt64.ne_of_lt)
      have hperm : ((sortedMap es).map Prod.fst).Perm (es.map Prod.fst) := by
        refine ((sortByKey_perm _).map Prod.fst).trans (List.Perm.of_eq ?_)
        rw [map_map]
        rfl
      rw [keysDistinct, map_map]
      exact hperm.nodup_iff.mp hkeys
    · exact ih e he (forall_mem_sortedMap.mp hentries e he)
  | _ => exact fun h => canon_distinct h

theorem encodeMap_of_sorted {es' : Map} (hs : sortedMap es = es') (hc : (map es').Canon)
    (hw : (map es').Within 10) : encodeMap es = .ok (map es').wire := by
  have hsort : (map es).sortDeep = .map es' := by rw [sortDeep_map, hs]
  rw [encodeMap_eq ⟨fits_sortDeep.mp (hsort ▸ hc.fits), distinct_of_sortDeep (hsort ▸ hc),
    within_sortDeep.mp (hsort ▸ hw)⟩, hs]

/-! ## Agreement -/

theorem writeSorted_wire
    (ih : ∀ e ∈ es, ∀ {b}, writeValue e.2 = .ok b → b = e.2.sortDeep.wire)
    (h : writeSorted (es.map fun e => (e.1, writeValue e.2)) = .ok b) :
    b = wireMap (es.map fun e => (e.1, e.2.sortDeep)) := by
  induction es generalizing b with
  | nil => exact (Except.ok.inj h).symm
  | cons e es ihes =>
    obtain ⟨hhead, htail⟩ := forall_mem_cons.mp ih
    simp only [map_cons, writeSorted, bind_eq_ok] at h
    obtain ⟨bytes, hbytes, rest, hrest, hb⟩ := h
    rw [← Except.ok.inj hb, hhead hbytes, ihes htail hrest]
    rfl

theorem encodeMap_wire
    (ih : ∀ e ∈ es, ∀ {b}, writeValue e.2 = .ok b → b = e.2.sortDeep.wire)
    (h : encodeMap es = .ok b) : b = (map (sortedMap es)).wire ∧ validateMap b = .ok () := by
  unfold encodeMap encodeWritten at h
  rw [writeEntries_eq, sortByKey_map] at h
  simp only [ite_throw_eq_ok, bind_eq_ok] at h
  obtain ⟨-, body, hbody, _, hvalid, hb⟩ := h
  cases hb
  refine ⟨?_, hvalid⟩
  have hmem : ∀ e ∈ sortByKey es, e ∈ es := fun e he => (sortByKey_perm es).mem_iff.mp he
  rw [writeSorted_wire (fun e he => ih e (hmem e he)) hbody, wire_map, sortedMap, sortByKey_map,
    length_map, length_map]

/-- Whatever the writer accepts, it writes the sorted value. -/
theorem writeValue_wire (h : writeValue v = .ok b) : b = v.sortDeep.wire := by
  induction v using Value.ind generalizing b with
  | array items ih =>
    have hitems : ∀ vs : List Value, (∀ v ∈ vs, v ∈ items) → ∀ {b}, writeItems vs = .ok b →
        b = (vs.map Value.sortDeep).flatMap Value.wire := by
      intro vs hvs b h
      induction vs generalizing b with
      | nil => exact (Except.ok.inj h).symm
      | cons v vs ihvs =>
        obtain ⟨hv, hvs⟩ := forall_mem_cons.mp hvs
        simp only [writeItems, bind_eq_ok] at h
        obtain ⟨bytes, hbytes, rest, hrest, hb⟩ := h
        rw [← Except.ok.inj hb, ih v hv hbytes, ihvs hvs hrest]
        rfl
    simp only [writeValue, bind_eq_ok] at h
    obtain ⟨bytes, hbytes, hb⟩ := h
    rw [← Except.ok.inj hb, hitems items (fun _ hv => hv) hbytes, sortDeep_array, wire_array,
      length_map]
  | map es ih =>
    rw [sortDeep_map]
    exact (encodeMap_wire (fun e he => ih e he) h).1
  | _ => exact (Except.ok.inj h).symm

/-- **The codec agrees with itself** up to the nesting of the decoder, which reads the values of a
record one level deeper than the validator of the encoder does. -/
theorem codec_agrees_iff (es : Map) (b : Bytes) (hfits : Fits (Value.map es).toCbor) :
    (encodeMap es = .ok b → (decodeMap b = .ok (sortedMap es) ↔
      (Value.map es).Within (MAX_CBOR_DEPTH + 1))) ∧
    (decodeMap b = .ok es → encodeMap es = .ok b) := by
  constructor
  · intro h
    obtain ⟨hb, hvalid⟩ := encodeMap_wire (fun e _ => writeValue_wire) h
    obtain ⟨es', hc, -, hwire⟩ := validateMap_eq_ok.mp hvalid
    have hfits' : Fits (map (sortedMap es)).toCbor := by
      rw [← sortDeep_map]
      exact fits_sortDeep.mpr hfits
    have hsame : (map es').toCbor = (map (sortedMap es)).toCbor :=
      (wire_append_inj (r := []) (s := []) hc.fits hfits' (by
        rw [append_nil, append_nil]
        exact hwire.symm.trans hb)).1
    have hcanon : (map (sortedMap es)).Canon := by
      rw [Value.Canon, ← hsame]
      exact hc
    rw [decodeMap_eq_ok, ← sortDeep_map]
    constructor
    · rintro ⟨-, hw, -⟩
      exact within_sortDeep.mp hw
    · intro hw
      rw [sortDeep_map]
      exact ⟨hcanon, sortDeep_map es ▸ within_sortDeep.mpr hw, hb⟩
  · intro h
    obtain ⟨hc, hw, rfl⟩ := decodeMap_eq_ok.mp h
    exact encodeMap_of_canon hc hw.succ

/-- A record with an array in it, its keys out of order. -/
theorem codec_agrees_sample : Fits (Value.map [(2, .array [.uint 7]), (1, .bytes [5])]).toCbor ∧
    decodeMap [0xa2, 0x01, 0x41, 0x05, 0x02, 0x81, 0x07] =
      .ok [(1, .bytes [5]), (2, .array [.uint 7])] := by
  have hfits : Fits (Value.map [(2, .array [.uint 7]), (1, .bytes [5])]).toCbor := by
    simp [Fits, toCbor, toCborEntries, toCborItems, CborValue.Everywhere,
      CborValue.EverywhereEntries, CborValue.EverywhereItems, lenFits]
  refine ⟨hfits, ((codec_agrees_iff _ _ hfits).1 rfl).mpr ?_⟩
  simp [Value.Within, MAX_CBOR_DEPTH]

/-- A value under eight arrays. -/
def deepValue : Value :=
  .array [.array [.array [.array [.array [.array [.array [.array [.uint 0]]]]]]]]

/-- The encoder accepts a nesting that the decoder refuses. -/
theorem encoded_too_deep : ∃ b, encodeMap [(0, deepValue)] = .ok b ∧
    decodeMap b = .error (.cbor .depthExceeded) := by
  exact ⟨[0xa1, 0x00, 0x81, 0x81, 0x81, 0x81, 0x81, 0x81, 0x81, 0x81, 0x00], rfl, rfl⟩

end Residiuum.Atomics
