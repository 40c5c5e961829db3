import Residiuum.Format.CborHead

/-!
# Deterministic CBOR envelopes: the grammar and the reader

`wire v` is the byte string of a value with its map entries in the order given. `Everywhere P v`
says `P` of `v` and of every value nested in it; the grammar of the format is `Canon`, the values
whose lengths fit in `u64` and whose maps have strictly ascending keys.

* **`readValue_eq_ok`**: `readValue` reads exactly `wire v`, for values whose lengths fit.
-/

namespace Residiuum

open ByteLib List

/-! ## Induction over values -/

variable {P : CborValue → Prop} {h : UInt8} {t r : Bytes} {es : List (UInt64 × CborValue)}
  {items : List CborValue} {v : CborValue}

theorem CborValue.ind (uint : ∀ n, P (.uint n)) (nint : ∀ n, P (.nint n))
    (bytes : ∀ b, P (.bytes b)) (text : ∀ s, P (.text s))
    (array : ∀ items, (∀ v ∈ items, P v) → P (.array items))
    (map : ∀ entries : List (UInt64 × CborValue), (∀ e ∈ entries, P e.2) → P (.map entries))
    (bool : ∀ b, P (.bool b)) (null : P .null) (v : CborValue) : P v := by
  refine @CborValue.rec P (fun items => ∀ v ∈ items, P v)
    (fun entries => ∀ e ∈ entries, P e.2) (fun e => P e.2)
    uint nint bytes text array map bool null ?_ ?_ ?_ ?_ ?_ v
  · simp
  · intro w items hw hitems
    exact forall_mem_cons.mpr ⟨hw, hitems⟩
  · simp
  · intro e entries he hentries
    exact forall_mem_cons.mpr ⟨he, hentries⟩
  · intro k w hw
    exact hw

/-! ## The grammar -/

mutual

/-- The bytes of a value, map entries in the order given. -/
def wire : CborValue → Bytes
  | .uint n => writeUint n
  | .nint n => writeTypeArg 1 n
  | .bytes b => writeTypeArg 2 (UInt64.ofNat b.length) ++ b
  | .text s => writeTypeArg 3 (UInt64.ofNat s.utf8ByteSize) ++ s.toByteArray.data.toList
  | .array items => writeTypeArg 4 (UInt64.ofNat items.length) ++ wireItems items
  | .map entries => writeTypeArg 5 (UInt64.ofNat entries.length) ++ wireEntries entries
  | .bool false => [0xf4]
  | .bool true => [0xf5]
  | .null => [0xf6]

def wireItems : List CborValue → Bytes
  | [] => []
  | v :: vs => wire v ++ wireItems vs

def wireEntries : List (UInt64 × CborValue) → Bytes
  | [] => []
  | (k, v) :: es => writeUint k ++ wire v ++ wireEntries es

end

theorem wireItems_eq (items : List CborValue) : wireItems items = items.flatMap wire := by
  induction items with
  | nil => rfl
  | cons v vs ih => rw [wireItems, ih, flatMap_cons]

theorem wireEntries_eq (es : List (UInt64 × CborValue)) :
    wireEntries es = es.flatMap fun e => writeUint e.1 ++ wire e.2 := by
  induction es with
  | nil => rfl
  | cons e es ih => rw [wireEntries, ih, flatMap_cons]

mutual

/-- `P` holds of a value and of every value nested in it. -/
def CborValue.Everywhere (P : CborValue → Prop) : CborValue → Prop
  | .array items => P (.array items) ∧ CborValue.EverywhereItems P items
  | .map entries => P (.map entries) ∧ CborValue.EverywhereEntries P entries
  | v => P v

def CborValue.EverywhereItems (P : CborValue → Prop) : List CborValue → Prop
  | [] => True
  | v :: vs => v.Everywhere P ∧ CborValue.EverywhereItems P vs

/-- `P` holds everywhere in each entry's value. -/
def CborValue.EverywhereEntries (P : CborValue → Prop) : List (UInt64 × CborValue) → Prop
  | [] => True
  | (_, v) :: es => v.Everywhere P ∧ CborValue.EverywhereEntries P es

end

open CborValue

theorem everywhereItems_iff : EverywhereItems P items ↔ ∀ v ∈ items, v.Everywhere P := by
  induction items with
  | nil => simp [EverywhereItems]
  | cons v vs ih => simp [EverywhereItems, ih]

theorem everywhereEntries_iff : EverywhereEntries P es ↔ ∀ e ∈ es, e.2.Everywhere P := by
  induction es with
  | nil => simp [EverywhereEntries]
  | cons e es ih => simp [EverywhereEntries, ih]

theorem everywhere_array :
    (CborValue.array items).Everywhere P ↔ P (.array items) ∧ ∀ v ∈ items, v.Everywhere P := by
  rw [Everywhere, everywhereItems_iff]

theorem everywhere_map :
    (CborValue.map es).Everywhere P ↔ P (.map es) ∧ ∀ e ∈ es, e.2.Everywhere P := by
  rw [Everywhere, everywhereEntries_iff]

/-- The length of a string or a collection fits in `u64`. -/
def lenFits : CborValue → Prop
  | .bytes b => b.length < 2 ^ 64
  | .text s => s.utf8ByteSize < 2 ^ 64
  | .array items => items.length < 2 ^ 64
  | .map entries => entries.length < 2 ^ 64
  | _ => True

def KeysAscend (es : List (UInt64 × CborValue)) : Prop := es.Pairwise fun a b => a.1 < b.1

/-- A map's keys strictly ascend. -/
def keysSorted : CborValue → Prop
  | .map entries => KeysAscend entries
  | _ => True

/-- Every length fits, at every depth. -/
def Fits (v : CborValue) : Prop := v.Everywhere lenFits

/-- Every length fits and every map is sorted, at every depth. -/
def Canon (v : CborValue) : Prop := v.Everywhere fun w => lenFits w ∧ keysSorted w

theorem length_wire_pos (v : CborValue) : 0 < (wire v).length := by
  cases v with
  | bool b => cases b <;> simp [wire]
  | null => simp [wire]
  | uint n | nint n => exact length_writeTypeArg_pos _ _
  | _ =>
    rw [wire, length_append]
    exact Nat.add_pos_left (length_writeTypeArg_pos _ _) _

theorem length_le_wireItems (items : List CborValue) :
    items.length ≤ (items.flatMap wire).length := by
  induction items with
  | nil => simp
  | cons v vs ih =>
    have := length_wire_pos v
    simp only [flatMap_cons, length_append, length_cons]
    omega

theorem length_le_wireEntries (es : List (UInt64 × CborValue)) :
    es.length * 2 ≤ (wireEntries es).length := by
  induction es with
  | nil => simp
  | cons e es ih =>
    have h1 := length_wire_pos e.2
    have h2 := length_writeTypeArg_pos 0 e.1
    simp only [wireEntries, writeUint, length_append, length_cons]
    omega

def major : CborValue → UInt8
  | .uint _ => 0
  | .nint _ => 1
  | .bytes _ => 2
  | .text _ => 3
  | .array _ => 4
  | .map _ => 5
  | .bool _ => 7
  | .null => 7

theorem major_lt (v : CborValue) : major v < 8 := by
  cases v <;> simp [major]

theorem major_cases {m : UInt8} (hm : m < 8) :
    m = 0 ∨ m = 1 ∨ m = 2 ∨ m = 3 ∨ m = 4 ∨ m = 5 ∨ m = 6 ∨ m = 7 := by
  have h : m.toNat < 8 := UInt8.lt_iff_toNat_lt.mp hm
  simp only [← UInt8.toNat_inj]
  change m.toNat = 0 ∨ m.toNat = 1 ∨ m.toNat = 2 ∨ m.toNat = 3 ∨ m.toNat = 4 ∨ m.toNat = 5 ∨
    m.toNat = 6 ∨ m.toNat = 7
  omega

theorem wire_append_ne_nil (v : CborValue) (r : Bytes) : wire v ++ r ≠ [] := by
  have := length_wire_pos v
  intro h
  rw [append_eq_nil_iff] at h
  rw [h.1] at this
  exact absurd this (Nat.lt_irrefl 0)

theorem wire_head (e : h :: t = wire v ++ r) : h >>> 5 = major v := by
  have key : ∀ (m : UInt8) (a : UInt64) (x : Bytes), m < 8 →
      h :: t = writeTypeArg m a ++ x → h >>> 5 = m := by
    intro m a x hm e
    obtain ⟨h', t', ht, hh⟩ := writeTypeArg_head hm a
    rw [ht] at e
    rw [(List.cons.inj e).1, hh]
  cases v with
  | uint n => exact key _ _ _ (major_lt (.uint n)) e
  | nint n => exact key _ _ _ (major_lt (.nint n)) e
  | bool b => cases b <;> (rw [(List.cons.inj e).1]; rfl)
  | null => rw [(List.cons.inj e).1]; rfl
  | _ =>
    rw [wire, append_assoc] at e
    exact key _ _ _ (major_lt _) e

/-! ## The decoder's walker -/

/-- What a branch of the decoder for major type `m` reads: the values of that type. -/
def ReadsMajor (m : UInt8) (p : Cursor CborValue) (cur : Bytes) : Prop :=
  ∀ v r, p.run cur = .ok (v, r) ↔ major v = m ∧ Fits v ∧ cur = wire v ++ r

section Read

variable (read : Cursor CborValue) (cur : Bytes)

theorem readBranch_uint : ReadsMajor 0 (readBranch read 0) cur := by
  intro v r
  rw [readBranch]
  simp only [run_bind_eq_ok, readUintAny, readHeadOf_eq_ok (show (0 : UInt8) < 8 by decide),
    run_pure_eq_ok, Prod.mk.injEq]
  constructor
  · rintro ⟨n, r, rfl, rfl, rfl⟩
    exact ⟨rfl, trivial, rfl⟩
  · rintro ⟨hm, -, rfl⟩
    cases v with
    | uint n => exact ⟨n, r, rfl, rfl, rfl⟩
    | _ => simp [major] at hm

theorem readBranch_nint (hh : h >>> 5 = 1) : ReadsMajor 1 (readBranch read 1) (h :: t) := by
  intro v r
  rw [readBranch]
  simp only [run_bind_eq_ok, run_pure_eq_ok, Prod.mk.injEq]
  constructor
  · rintro ⟨⟨m, n⟩, r, h1, rfl, rfl⟩
    obtain ⟨hm, e⟩ := readHead_eq_ok.mp h1
    obtain ⟨h', t', ht, rfl⟩ := writeTypeArg_head hm n
    have hhead : h = h' := by
      rw [ht] at e
      exact (List.cons.inj e).1
    rw [← hhead, hh] at e
    exact ⟨rfl, trivial, e⟩
  · rintro ⟨hm, -, e⟩
    cases v with
    | nint n => exact ⟨(1, n), r, readHead_eq_ok.mpr ⟨by decide, e⟩, rfl, rfl⟩
    | _ => simp [major] at hm

theorem readBranch_bytes : ReadsMajor 2 (readBranch read 2) cur := by
  intro v r
  rw [readBranch]
  simp only [run_bind_eq_ok, readBstr_eq_ok, run_pure_eq_ok, Prod.mk.injEq]
  constructor
  · rintro ⟨b, r, ⟨hlen, rfl⟩, rfl, rfl⟩
    exact ⟨rfl, hlen, rfl⟩
  · rintro ⟨hm, hf, rfl⟩
    cases v with
    | bytes b => exact ⟨b, r, ⟨hf, rfl⟩, rfl, rfl⟩
    | _ => simp [major] at hm

theorem readBranch_text : ReadsMajor 3 (readBranch read 3) cur := by
  intro v r
  rw [readBranch]
  simp only [run_bind_eq_ok, readTstr_eq_ok, run_pure_eq_ok, Prod.mk.injEq]
  constructor
  · rintro ⟨b, r, ⟨hlen, rfl⟩, rfl, rfl⟩
    exact ⟨rfl, hlen, rfl⟩
  · rintro ⟨hm, hf, rfl⟩
    cases v with
    | text s => exact ⟨s, r, ⟨hf, rfl⟩, rfl, rfl⟩
    | _ => simp [major] at hm

theorem readBranch_simple (hh : h >>> 5 = 7) : ReadsMajor 7 (readBranch read 7) (h :: t) := by
  intro v r
  rw [readBranch, readSimpleValue_eq_ok hh]
  constructor
  · rintro ⟨rfl, ⟨rfl, rfl⟩ | ⟨rfl, rfl⟩ | ⟨rfl, rfl⟩⟩ <;> exact ⟨rfl, trivial, rfl⟩
  · rintro ⟨hm, -, e⟩
    cases v with
    | bool b => cases b <;> simp_all [wire]
    | null => simp_all [wire]
    | _ => simp [major] at hm

variable {read} {fuel : ℕ} (ih : ParsesBelow fuel read fun v b => Fits v ∧ b = wire v)

include ih

theorem readBranch_array (hcur : cur.length < fuel + 1) : ReadsMajor 4 (readBranch read 4) cur := by
  intro v r
  rw [readBranch, run_bind_eq_ok]
  simp only [readArrayLen_eq_ok]
  constructor
  · rintro ⟨n, r1, ⟨hn, hb, rfl⟩, h2⟩
    obtain ⟨items, r2, h3, h4⟩ := run_bind_eq_ok.mp h2
    cases run_pure_eq_ok.mp h4
    have hpos := length_writeTypeArg_pos 4 (UInt64.ofNat n)
    have hr1 : r1.length < fuel := by
      rw [length_append] at hcur
      omega
    obtain ⟨rfl, hfit, rfl⟩ := (ih.times_eq_ok n hr1).mp h3
    refine ⟨rfl, everywhere_array.mpr ⟨hn, hfit⟩, ?_⟩
    rw [wire, wireItems_eq, append_assoc]
  · rintro ⟨hm, hf, rfl⟩
    cases v with
    | array items =>
      obtain ⟨hn, hfit⟩ := everywhere_array.mp hf
      have hlen := length_le_wireItems items
      have hpos := length_writeTypeArg_pos 4 (UInt64.ofNat items.length)
      rw [wire, wireItems_eq, append_assoc] at hcur ⊢
      have hr1 : (items.flatMap wire ++ r).length < fuel := by
        rw [length_append] at hcur
        omega
      refine ⟨items.length, _, ⟨hn, ?_, rfl⟩, run_bind_eq_ok.mpr ⟨items, r, ?_, rfl⟩⟩
      · rw [length_append]
        omega
      · exact (ih.times_eq_ok _ hr1).mpr ⟨rfl, hfit, rfl⟩
    | _ => simp [major] at hm

theorem readEntry_parses : ParsesBelow fuel (readEntry read)
    fun e b => Fits e.2 ∧ b = writeUint e.1 ++ wire e.2 := by
  have hkey : ParsesBelow fuel readUint fun k b => b = writeUint k := by
    intro cur _ k r
    rw [readUint_eq_ok]
    exact ⟨fun h => ⟨_, rfl, h⟩, fun ⟨b, hb, h⟩ => hb ▸ h⟩
  refine (hkey.bind fun k => ih.bind fun v => ParsesBelow.pure fuel (k, v)).congr fun e b => ?_
  constructor
  · rintro ⟨k, b1, _, rfl, ⟨v, b2, _, ⟨hf, rfl⟩, ⟨rfl, rfl⟩, rfl⟩, rfl⟩
    exact ⟨hf, by rw [append_nil]⟩
  · rintro ⟨hf, rfl⟩
    exact ⟨e.1, _, _, rfl, ⟨e.2, _, [], ⟨hf, rfl⟩, ⟨rfl, rfl⟩, rfl⟩, by rw [append_nil]⟩

theorem readBranch_map (hcur : cur.length < fuel + 1) : ReadsMajor 5 (readBranch read 5) cur := by
  intro v r
  have hent := readEntry_parses ih
  rw [readBranch, run_bind_eq_ok]
  simp only [readMapLen_eq_ok]
  constructor
  · rintro ⟨n, r1, ⟨hn, hb, rfl⟩, h2⟩
    obtain ⟨es, r2, h3, h4⟩ := run_bind_eq_ok.mp h2
    cases run_pure_eq_ok.mp h4
    have hpos := length_writeTypeArg_pos 5 (UInt64.ofNat n)
    have hr1 : r1.length < fuel := by
      rw [length_append] at hcur
      omega
    obtain ⟨rfl, hfit, rfl⟩ := (hent.times_eq_ok n hr1).mp h3
    refine ⟨rfl, everywhere_map.mpr ⟨hn, hfit⟩, ?_⟩
    rw [wire, wireEntries_eq, append_assoc]
  · rintro ⟨hm, hf, rfl⟩
    cases v with
    | map es =>
      obtain ⟨hn, hfit⟩ := everywhere_map.mp hf
      have hlen := length_le_wireEntries es
      have hpos := length_writeTypeArg_pos 5 (UInt64.ofNat es.length)
      rw [wireEntries_eq] at hlen
      rw [wire, wireEntries_eq, append_assoc] at hcur ⊢
      refine ⟨es.length, _, ⟨hn, ?_, rfl⟩, run_bind_eq_ok.mpr ⟨es, r, ?_, rfl⟩⟩
      · rw [length_append]
        omega
      · refine (hent.times_eq_ok _ ?_).mpr ⟨rfl, hfit, rfl⟩
        rw [length_append] at hcur
        omega
    | _ => simp [major] at hm

theorem readBranch_cons (hcur : (h :: t).length < fuel + 1) :
    ReadsMajor (h >>> 5) (readBranch read (h >>> 5).toNat) (h :: t) := by
  rcases major_cases (head_split h).2.1 with hm | hm | hm | hm | hm | hm | hm | hm <;> rw [hm]
  · exact readBranch_uint read _
  · exact readBranch_nint read hm
  · exact readBranch_bytes read _
  · exact readBranch_text read _
  · exact readBranch_array _ ih hcur
  · exact readBranch_map _ ih hcur
  · intro v r
    refine run_throw_eq_ok.trans (iff_of_false not_false ?_)
    rintro ⟨h6, -, -⟩
    cases v <;> simp [major] at h6
  · exact readBranch_simple read hm

end Read

theorem readValueFuel_parses (fuel : ℕ) :
    ParsesBelow fuel (readValueFuel fuel) fun v b => Fits v ∧ b = wire v := by
  induction fuel with
  | zero => exact fun cur hcur => absurd hcur (Nat.not_lt_zero _)
  | succ fuel ih =>
    intro cur hcur v r
    rw [exists_string]
    cases cur with
    | nil => exact iff_of_false nofun fun h' => wire_append_ne_nil v r h'.2.symm
    | cons h t =>
      change (readBranch (readValueFuel fuel) (h >>> 5).toNat).run (h :: t) = _ ↔ _
      rw [readBranch_cons ih hcur v r]
      exact ⟨fun h' => h'.2, fun h' => ⟨(wire_head h'.2).symm, h'⟩⟩

theorem readValue_parses (n : ℕ) : ParsesBelow n readValue fun v b => Fits v ∧ b = wire v :=
  fun cur _ => readValueFuel_parses (cur.length + 1) cur (Nat.lt_succ_self _)

theorem readValue_eq_ok {cur : Bytes} :
    readValue.run cur = .ok (v, r) ↔ Fits v ∧ cur = wire v ++ r :=
  (readValue_parses (cur.length + 1) cur (Nat.lt_succ_self _) v r).trans exists_string

end Residiuum
