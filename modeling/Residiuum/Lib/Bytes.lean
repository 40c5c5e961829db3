import Mathlib.Data.List.Basic
import Mathlib.Tactic.Ring
import Mathlib.Tactic.NormNum

/-!
# Byte strings: slices, overwrites and fixed-width integers

* `chunks size l`: a list cut into pieces of `size`; `flatten_chunks` puts it together again.
* `leBytes w n`, `ofLe`: `w` little-endian bytes of `n` and back (`ofLe_leBytes`, `leBytes_ofLe`).
* `beBytes w n`, `ofBe`: the big-endian versions; **`beBytes_lt_iff`**: at equal width the
  lexicographic order of big-endian strings is the numeric order.
-/

namespace ByteLib

open List Nat UInt8

/-- Byte strings. -/
abbrev Bytes : Type := List UInt8

/-- Byte strings of one length. -/
abbrev Arr (n : ℕ) : Type := {l : Bytes // l.length = n}

/-- A byte string of length `n` as an array; any other length is cut or filled with zeros. -/
def toArr (n : ℕ) (l : Bytes) : Arr n := ⟨(l ++ List.replicate n 0).take n, by simp⟩

/-- Zero bytes. -/
def zeros (n : ℕ) : Arr n := ⟨List.replicate n 0, length_replicate⟩

variable {l : Bytes} {off n : ℕ}

theorem val_toArr (h : l.length = n) : (toArr n l).1 = l := by
  subst h
  exact take_left

theorem toArr_val (a : Arr n) : toArr n a.1 = a := Subtype.ext (val_toArr a.2)

/-! ## Slices and overwrites -/

section Slice

variable {α : Type} {a b : ℕ}

/-- The bytes from one offset to another. -/
def slice (l : List α) (a b : ℕ) : List α := (l.drop a).take (b - a)

theorem length_slice {l : List α} (hab : a ≤ b) (hb : b ≤ l.length) :
    (slice l a b).length = b - a := by
  rw [slice, length_take, length_drop]
  omega

theorem slice_middle (x y z : List α) (ha : x.length = a) (hb : a + y.length = b) :
    slice (x ++ (y ++ z)) a b = y := by
  have hab : b - a = y.length := by omega
  rw [slice, ← ha, drop_left, ha, hab, take_left]

theorem slice_append_left (x y : List α) (a : ℕ) (hb : b ≤ x.length) :
    slice (x ++ y) a b = slice x a b := by
  rw [slice, slice, drop_append, take_append_of_le_length]
  rw [length_drop]
  omega

theorem slice_slice (l : List α) (a b c d : ℕ) (hd : d ≤ b - a) :
    slice (slice l a b) c d = slice l (a + c) (a + d) := by
  rw [slice, slice, slice, drop_take, take_take, drop_drop]
  congr 1
  omega

theorem slice_append_drop (l : List α) (h : a ≤ b) : slice l a b ++ l.drop b = l.drop a := by
  have hdrop : l.drop b = (l.drop a).drop (b - a) := by
    rw [drop_drop, Nat.add_sub_cancel' h]
  rw [slice, hdrop, take_append_drop]

theorem slice_singleton (l : List α) (d : α) (hb : b = a + 1) (h : a < l.length) :
    slice l a b = [l.getD a d] := by
  subst hb
  rw [slice, Nat.add_sub_cancel_left, drop_eq_getElem_cons h, getD_eq_getElem?_getD,
    getElem?_eq_getElem h]
  rfl

theorem slice_drop (l : List α) (k a b : ℕ) : slice (l.drop k) a b = slice l (k + a) (k + b) := by
  rw [slice, slice, drop_drop, Nat.add_sub_add_left]

theorem slice_take (l : List α) (a : ℕ) (hb : b ≤ n) : slice (l.take n) a b = slice l a b := by
  rw [slice, slice, drop_take, take_take]
  congr 1
  omega

theorem slice_left (y z : List α) (hb : y.length = b) : slice (y ++ z) 0 b = y := by
  rw [slice, drop_zero, ← hb]
  exact take_left

/-- Overwrite `buf` with `src` from offset `off` on. -/
def copyAt (buf : List α) (off : ℕ) (src : List α) : List α :=
  buf.take off ++ src ++ buf.drop (off + src.length)

theorem copyAt_middle (x y z src : List α) (hx : x.length = off)
    (hy : y.length = src.length) : copyAt (x ++ (y ++ z)) off src = x ++ (src ++ z) := by
  subst hx
  rw [copyAt, take_left, ← drop_drop, drop_left, ← hy, drop_left,
    append_assoc]

theorem copyAt_append_replicate (x src : List α) (a : α) {k : ℕ} (hx : x.length = off)
    (hk : src.length ≤ k) :
    copyAt (x ++ replicate k a) off src =
      (x ++ src) ++ replicate (k - src.length) a := by
  have hrep : replicate k a =
      replicate src.length a ++ replicate (k - src.length) a := by
    rw [← replicate_add]
    congr 1
    omega
  rw [hrep, copyAt_middle x _ _ src hx length_replicate, append_assoc]

/-- `l.chunks(size)`: consecutive pieces of `size` elements, the last one possibly shorter. -/
def chunks (size : ℕ) (l : List α) : List (List α) :=
  (List.range ((l.length + size - 1) / size)).map fun i => slice l (i * size) ((i + 1) * size)

theorem length_chunks (size : ℕ) (l : List α) :
    (chunks size l).length = (l.length + size - 1) / size := by
  rw [chunks, length_map, length_range]

theorem flatten_map_slice (l : List α) (size k : ℕ) :
    ((range k).map fun i => slice l (i * size) ((i + 1) * size)).flatten =
      l.take (k * size) := by
  induction k with
  | zero => simp
  | succ k ih =>
    rw [range_succ, map_append, flatten_append, ih, map_singleton,
      flatten_singleton, slice, succ_mul, Nat.add_sub_cancel_left, take_add]

theorem flatten_chunks {size : ℕ} (h : 0 < size) (l : List α) : (chunks size l).flatten = l := by
  rw [chunks, flatten_map_slice]
  apply take_of_length_le
  have hdiv := div_add_mod (l.length + size - 1) size
  have hmod := mod_lt (l.length + size - 1) h
  rw [mul_comm] at hdiv
  omega

end Slice

section Record

variable {α : Type} {i : ℕ} (fields : List (List α))

/-- Where field `i` of a record starts. -/
def fieldOffset (fields : List (List α)) (i : ℕ) : ℕ := ((fields.take i).map List.length).sum

theorem flatten_split (hi : i < fields.length) :
    fields.flatten = (fields.take i).flatten ++ (fields[i] ++ (fields.drop (i + 1)).flatten) := by
  conv_lhs => rw [← take_append_drop i fields, drop_eq_getElem_cons hi]
  rw [flatten_append, flatten_cons]

theorem slice_field {a b : ℕ} (hi : i < fields.length)
    (ha : fieldOffset fields i = a) (hb : a + fields[i].length = b) :
    slice fields.flatten a b = fields[i] := by
  rw [flatten_split fields hi]
  exact slice_middle _ _ _ (by rw [length_flatten]; exact ha) hb

theorem copyAt_field (src : List α) (hi : i < fields.length)
    (ho : fieldOffset fields i = off) (hs : fields[i].length = src.length) :
    copyAt fields.flatten off src = (fields.set i src).flatten := by
  rw [flatten_split fields hi, copyAt_middle _ _ _ src (by rw [length_flatten]; exact ho) hs,
    set_eq_take_append_cons_drop, if_pos hi, flatten_append, flatten_cons]

end Record
/-! ## Little-endian integers -/

/-- The `w` low bytes of `n`, least significant first. -/
def leBytes : ℕ → ℕ → Bytes
  | 0, _ => []
  | w + 1, n => UInt8.ofNat n :: leBytes w (n / 256)

/-- The integer whose little-endian bytes are `l`. -/
def ofLe : Bytes → ℕ
  | [] => 0
  | b :: l => b.toNat + 256 * ofLe l

@[simp] theorem length_leBytes (w n : ℕ) : (leBytes w n).length = w := by
  induction w generalizing n with
  | zero => rfl
  | succ w ih => rw [leBytes, length_cons, ih]

theorem ofLe_leBytes (w n : ℕ) : ofLe (leBytes w n) = n % 256 ^ w := by
  induction w generalizing n with
  | zero => simp [leBytes, ofLe, mod_one]
  | succ w ih =>
    rw [leBytes, ofLe, ih, pow_succ, mul_comm (256 ^ w) 256, mod_mul]
    simp

theorem ofLe_lt (l : Bytes) : ofLe l < 256 ^ l.length := by
  induction l with
  | nil => simp [ofLe]
  | cons b l ih =>
    have hb := b.toNat_lt
    rw [ofLe, length_cons, pow_succ]
    omega

theorem leBytes_ofLe (l : Bytes) : leBytes l.length (ofLe l) = l := by
  induction l with
  | nil => rfl
  | cons b l ih =>
    have hb := b.toNat_lt
    have hdiv : (b.toNat + 256 * ofLe l) / 256 = ofLe l := by omega
    have hmod : UInt8.ofNat (b.toNat + 256 * ofLe l) = b := by
      apply UInt8.toNat_inj.mp
      rw [toNat_ofNat']
      omega
    rw [length_cons, ofLe, leBytes, hdiv, ih, hmod]

theorem ofLe_append (l m : Bytes) : ofLe (l ++ m) = ofLe l + 256 ^ l.length * ofLe m := by
  induction l with
  | nil => simp [ofLe]
  | cons b l ih =>
    rw [cons_append, ofLe, ih, ofLe, length_cons, pow_succ]
    ring

@[simp] theorem ofLe_leBytes_u32 (x : UInt32) : UInt32.ofNat (ofLe (leBytes 4 x.toNat)) = x := by
  have hx := x.toNat_lt
  rw [ofLe_leBytes, mod_eq_of_lt (by norm_num; omega), UInt32.ofNat_toNat]

@[simp] theorem ofLe_leBytes_u64 (x : UInt64) : UInt64.ofNat (ofLe (leBytes 8 x.toNat)) = x := by
  have hx := x.toNat_lt
  rw [ofLe_leBytes, mod_eq_of_lt (by norm_num; omega), UInt64.ofNat_toNat]

theorem leBytes_ofLe_u32 (h : l.length = 4) : leBytes 4 (UInt32.ofNat (ofLe l)).toNat = l := by
  have hlt := ofLe_lt l
  rw [h] at hlt
  rw [UInt32.toNat_ofNat_of_lt' hlt, ← h]
  exact leBytes_ofLe l

theorem leBytes_ofLe_u64 (h : l.length = 8) : leBytes 8 (UInt64.ofNat (ofLe l)).toNat = l := by
  have hlt := ofLe_lt l
  rw [h] at hlt
  rw [UInt64.toNat_ofNat_of_lt' hlt, ← h]
  exact leBytes_ofLe l

/-! ## Big-endian integers -/

/-- The `w` low bytes of `n`, most significant first. -/
def beBytes (w n : ℕ) : Bytes := (leBytes w n).reverse

/-- The integer whose big-endian bytes are `l`. -/
def ofBe (l : Bytes) : ℕ := ofLe l.reverse

@[simp] theorem length_beBytes (w n : ℕ) : (beBytes w n).length = w := by
  rw [beBytes, length_reverse, length_leBytes]

theorem ofBe_beBytes (w n : ℕ) : ofBe (beBytes w n) = n % 256 ^ w := by
  rw [ofBe, beBytes, reverse_reverse, ofLe_leBytes]

theorem ofBe_lt (l : Bytes) : ofBe l < 256 ^ l.length := by
  simpa [ofBe] using ofLe_lt l.reverse

theorem beBytes_ofBe (l : Bytes) : beBytes l.length (ofBe l) = l := by
  have h := leBytes_ofLe l.reverse
  rw [length_reverse] at h
  rw [beBytes, ofBe, h, reverse_reverse]

theorem ofBe_cons (b : UInt8) (l : Bytes) : ofBe (b :: l) = b.toNat * 256 ^ l.length + ofBe l := by
  rw [ofBe, reverse_cons, ofLe_append, ofBe, length_reverse, ofLe, ofLe]
  ring

theorem lt_iff_ofBe_lt : ∀ {l m : Bytes}, l.length = m.length → (l < m ↔ ofBe l < ofBe m)
  | [], [], _ => by simp [ofBe, ofLe]
  | b :: l, c :: m, h => by
    have hlen : l.length = m.length := by simpa using h
    have hl := ofBe_lt l
    have hm := ofBe_lt m
    rw [cons_lt_cons_iff, lt_iff_ofBe_lt hlen, ofBe_cons, ofBe_cons, ← hlen]
    rw [← hlen] at hm
    rcases lt_trichotomy b.toNat c.toNat with hbc | hbc | hbc
    · have hmul : (b.toNat + 1) * 256 ^ l.length ≤ c.toNat * 256 ^ l.length :=
        mul_le_mul_right _ hbc
      rw [add_mul] at hmul
      have hlt : b < c := lt_iff_toNat_lt.mpr hbc
      simp only [hlt, true_or, true_iff]
      omega
    · obtain rfl : b = c := UInt8.toNat_inj.mp hbc
      simp
    have hmul : (c.toNat + 1) * 256 ^ l.length ≤ b.toNat * 256 ^ l.length :=
      mul_le_mul_right _ hbc
    rw [add_mul] at hmul
    have hlt : ¬ b < c := fun h' => by
      have := lt_iff_toNat_lt.mp h'
      omega
    have hne : b ≠ c := fun h' => by
      subst h'
      omega
    simp only [hlt, hne, false_and, or_self, false_iff]
    omega

theorem beBytes_lt_iff {w m : ℕ} (hm : m < 256 ^ w) (hn : n < 256 ^ w) :
    beBytes w m < beBytes w n ↔ m < n := by
  rw [lt_iff_ofBe_lt (by simp), ofBe_beBytes, ofBe_beBytes, mod_eq_of_lt hm,
    mod_eq_of_lt hn]

theorem compare_eq_lt_iff {l m : Bytes} : compare l m = .lt ↔ l < m := by
  induction l generalizing m with
  | nil =>
    cases m with
    | nil => simp
    | cons c m => simp [List.compare_nil_cons]
  | cons b l ih =>
    cases m with
    | nil => simp [List.compare_cons_nil]
    | cons c m =>
      rw [List.compare_cons_cons, Ordering.then_eq_lt, ih, cons_lt_cons_iff,
        Std.compare_eq_lt, Std.compare_eq_iff_eq]

end ByteLib
