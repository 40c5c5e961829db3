import Mathlib.Data.Nat.Factorization.Basic
import Mathlib.Data.Rat.Lemmas
import Mathlib.Tactic.NormNum
import Mathlib.Tactic.Positivity
import Mathlib.Tactic.Ring

/-!
# Exact numbers

The numbers of `sda-core/src/number.rs`: rationals in lowest terms, read from decimal literals and
written back as a decimal when the denominator has no prime factor but `2` and `5`.

* `parseLiteral`, `parseCanonical`: the two readers, with the widths of their exponents.
* `finiteDecimalString`, `canonicalString`: the writers; their counters are 32 bits wide.
* **`finiteDecimalString_of_den`**: a written decimal reads back with the powers of `2` and `5` in
  the denominator exchanged, because the writer scales each by the other's missing factor.
* **`parseCanonical_canonicalString_iff`**: so writing is exact for `ExactNum.Exact` numbers, whose
  denominator has as many factors `2` as `5`.
* **`literal_exact_iff`**: a literal has the value it denotes unless its power of ten is too big.
* **`canonical_law_iff`**: canonical texts are faithful to the `Exact` numbers and to no others.
-/

namespace Residiuum.Sda

open List Nat Option Rat

/-- The characters of a Rust string. -/
abbrev Text : Type := List Char

abbrev ExactNum : Type := ℚ

/-- Why a number is not read. -/
inductive ParseNumError where
  | invalidFormat
  | invalidDigits
  | zeroDenominator
  deriving DecidableEq, Repr

/-! ## Text -/

theorem forall_mem_of_all {p : Char → Prop} [DecidablePred p] {cs : Text}
    (h : (cs.all fun c => decide (p c)) = true) : ∀ c ∈ cs, p c := fun c hc =>
  of_decide_eq_true (all_eq_true.mp h c hc)

/-- `char::is_whitespace`: the characters with the property White_Space. -/
def isWhitespace (c : Char) : Bool :=
  let n := c.toNat
  (9 ≤ n && n ≤ 13) || n == 32 || n == 0x85 || n == 0xA0 || n == 0x1680 ||
    (0x2000 ≤ n && n ≤ 0x200A) || n == 0x2028 || n == 0x2029 || n == 0x202F || n == 0x205F ||
    n == 0x3000

def trimEnd (s : Text) : Text := (s.reverse.dropWhile isWhitespace).reverse

def trim (s : Text) : Text := trimEnd (s.dropWhile isWhitespace)

/-- `str::split_once`: what stands before and after the first character that `p` accepts. -/
def splitOnce (p : Char → Bool) : Text → Option (Text × Text)
  | [] => none
  | c :: cs => if p c then some ([], cs) else (splitOnce p cs).map fun ab => (c :: ab.1, ab.2)

/-! ## Reading -/

def asU32 (z : ℤ) : ℕ := (z % 2 ^ 32).toNat

/-- The value an `i64` keeps of `z`. -/
def asI64 (z : ℤ) : ℤ := Int.bmod z (2 ^ 64)

def parseI64 (s : Text) : Option ℤ :=
  let (neg, digits) := match s with
    | '-' :: rest => (true, rest)
    | '+' :: rest => (false, rest)
    | rest => (false, rest)
  if digits.isEmpty || !digits.all Char.isDigit then none
  else
    let n : ℤ := Nat.ofDigitChars 10 digits 0
    let z := if neg then -n else n
    if -2 ^ 63 ≤ z ∧ z < 2 ^ 63 then some z else none

/-- The value of a literal from its parts. `scale` is an `i64`, and the powers of ten take it as a
`u32`. -/
def literalValue (neg : Bool) (int frac : Text) (exponent : ℤ) : ExactNum :=
  let digits : ℤ := Nat.ofDigitChars 10 (int ++ frac) 0
  let scale := asI64 (frac.length - exponent)
  let numerator := if scale ≤ 0 then digits * 10 ^ asU32 (-scale) else digits
  let denominator := if scale ≤ 0 then 1 else 10 ^ asU32 scale
  mkRat (if neg then -numerator else numerator) denominator

/-- The sign of a literal and what follows it. -/
def splitSign : Text → Bool × Text
  | '-' :: rest => (true, rest)
  | '+' :: rest => (false, rest)
  | rest => (false, rest)

def parseLiteral (src : Text) : Except ParseNumError ExactNum := do
  let src := trim src
  if src.isEmpty then throw .invalidFormat
  else
    let (neg, unsigned) := splitSign src
    let (mantissa, exponent) ← match splitOnce (fun c => c == 'e' || c == 'E') unsigned with
      | some (mantissa, exponent) => match parseI64 exponent with
        | some parsed => pure (mantissa, parsed)
        | none => throw .invalidFormat
      | none => pure (unsigned, (0 : ℤ))
    let (int, frac) := (splitOnce (· == '.') mantissa).getD (mantissa, [])
    if int.isEmpty && frac.isEmpty then throw .invalidFormat
    else if !int.all Char.isDigit || !frac.all Char.isDigit then throw .invalidDigits
    else pure (literalValue neg int frac exponent)

def dropPlus (s : Text) : Text :=
  if s.head? = some '+' ∧ s.tail.head? ≠ some '+' then s.tail else s

/-- Decimal digits with underscores between them, as the integer library reads them. -/
def parseBigUint (s : Text) : Option ℕ :=
  let s := dropPlus s
  if s.isEmpty || s.head? == some '_' || !s.all (fun c => c.isDigit || c == '_') then none
  else some (Nat.ofDigitChars 10 (s.filter Char.isDigit) 0)

def parseBigInt (s : Text) : Option ℤ :=
  if s.head? = some '-' then
    if s.tail.head? = some '+' then none else (parseBigUint s.tail).map fun n : ℕ => -(n : ℤ)
  else (parseBigUint s).map fun n : ℕ => (n : ℤ)

def parseCanonical (src : Text) : Except ParseNumError ExactNum :=
  match splitOnce (· == '/') src with
  | some (numerator, denominator) =>
    match parseBigInt numerator, parseBigInt denominator with
    | some n, some d => if d = 0 then .error .zeroDenominator else .ok (Rat.divInt n d)
    | _, _ => .error .invalidDigits
  | none => parseLiteral src

def intText (z : ℤ) : Text :=
  (if z < 0 then ['-'] else []) ++ Nat.toDigits 10 z.natAbs

/-- Divide `p` out of `n` as often as it divides; `fuel` bounds the bits of `n`. -/
def stripFactor (p : ℕ) : ℕ → ℕ → ℕ × ℕ
  | 0, n => (n, 0)
  | fuel + 1, n =>
    if n % p = 0 then
      let (m, k) := stripFactor p fuel (n / p)
      (m, k + 1)
    else (n, 0)

/-- The digits of `n` with a decimal point before the last `scale` of them. -/
def decimalText (neg : Bool) (n scale : ℕ) : Text :=
  let digits := Nat.toDigits 10 n
  let sign := if neg then ['-'] else []
  if scale = 0 then sign ++ digits
  else if digits.length ≤ scale then
    sign ++ ['0', '.'] ++ List.replicate (scale - digits.length) '0' ++ digits
  else sign ++ digits.take (digits.length - scale) ++ '.' :: digits.drop (digits.length - scale)

/-- `finite_decimal_string`. The counters `twos` and `fives` are `u32`s. -/
def finiteDecimalString (q : ExactNum) : Option Text :=
  if q.den = 1 then some (intText q.num)
  else
    let (denominator, twos) := stripFactor 2 (q.den.log2 + 1) q.den
    let (denominator, fives) := stripFactor 5 (q.den.log2 + 1) denominator
    if denominator ≠ 1 then none
    else
      let twos := twos % 2 ^ 32
      let fives := fives % 2 ^ 32
      let scale := max twos fives
      let adjusted := q.num.natAbs * 5 ^ (scale - twos) * 2 ^ (scale - fives)
      some (decimalText (decide (q.num < 0)) adjusted scale)

def canonicalString (q : ExactNum) : Text :=
  (finiteDecimalString q).getD (intText q.num ++ '/' :: Nat.toDigits 10 q.den)

/-! ## Text of digits -/

variable {c : Char} {p : Char → Bool}

theorem splitOnce_append {a b : Text} (ha : ∀ x ∈ a, p x = false)
    (hc : p c = true) : splitOnce p (a ++ c :: b) = some (a, b) := by
  induction a with
  | nil => simp [splitOnce, hc]
  | cons x a ih =>
    rw [forall_mem_cons] at ha
    simp [splitOnce, ha.1, ih ha.2]

theorem splitOnce_eq_none {a : Text} (ha : ∀ x ∈ a, p x = false) : splitOnce p a = none := by
  induction a with
  | nil => rfl
  | cons x a ih =>
    rw [forall_mem_cons] at ha
    simp [splitOnce, ha.1, ih ha.2]

def isDecimalChar (c : Char) : Bool := c.isDigit || c == '.'

theorem isDigit_toNat (h : c.isDigit = true) : 48 ≤ c.toNat ∧ c.toNat ≤ 57 :=
  Char.isDigit_iff_toNat.mp h

theorem isAlpha_toNat (h : c.isAlpha = true) :
    (65 ≤ c.toNat ∧ c.toNat ≤ 90) ∨ (97 ≤ c.toNat ∧ c.toNat ≤ 122) := by
  rcases (Bool.or_eq_true _ _).mp h with h | h
  · exact .inl (of_decide_eq_true h)
  · obtain ⟨hlo, hhi⟩ := (Bool.and_eq_true _ _).mp h
    exact .inr ⟨of_decide_eq_true hlo, of_decide_eq_true hhi⟩

theorem isWhitespace_of_isDigit (h : c.isDigit = true) : isWhitespace c = false := by
  obtain ⟨h1, h2⟩ := isDigit_toNat h
  simp only [isWhitespace, Bool.or_eq_false_iff, Bool.and_eq_false_iff, beq_eq_false_iff_ne,
    decide_eq_false_iff_not]
  omega

theorem ne_of_isDigit {c d : Char} (h : c.isDigit = true) (hd : d.isDigit = false) : c ≠ d := by
  rintro rfl
  rw [h] at hd
  cases hd

theorem trim_eq_self {s : Text} (hhead : ∀ c ∈ s.head?, isWhitespace c = false)
    (hlast : ∀ c ∈ s.getLast?, isWhitespace c = false) : trim s = s := by
  have hdrop : s.dropWhile isWhitespace = s := by
    cases s with
    | nil => rfl
    | cons c s => exact dropWhile_cons_of_neg (by simp [hhead c rfl])
  have hrev : s.reverse.dropWhile isWhitespace = s.reverse := by
    cases hs : s.reverse with
    | nil => rfl
    | cons c r =>
      refine dropWhile_cons_of_neg ?_
      have hc : s.getLast? = some c := by rw [← head?_reverse, hs, head?_cons]
      simp [hlast c hc]
  rw [trim, hdrop, trimEnd, hrev, reverse_reverse]

/-! ## Reading a written decimal -/

/-- A sign, the digits before the point and those after it. -/
def pointText (neg : Bool) (int frac : Text) : Text :=
  (if neg then ['-'] else []) ++ int ++ if frac = [] then [] else '.' :: frac

variable {neg : Bool} {q : ExactNum} {n scale : ℕ} {a b d : ℕ} {int frac : Text}

theorem parseLiteral_pointText (hne : int ≠ [])
    (hint : ∀ c ∈ int, c.isDigit = true) (hfrac : ∀ c ∈ frac, c.isDigit = true) :
    parseLiteral (pointText neg int frac) = .ok (literalValue neg int frac 0) := by
  obtain ⟨d, int, rfl⟩ := exists_cons_of_ne_nil hne
  have hd : d.isDigit = true := hint d mem_cons_self
  have hunsigned : ∀ c ∈ d :: int ++ (if frac = [] then [] else '.' :: frac),
      isDecimalChar c = true := by
    intro c hc
    rw [mem_append] at hc
    rcases hc with hc | hc
    · simp [isDecimalChar, hint c hc]
    · split_ifs at hc
      · cases hc
      · rcases mem_cons.mp hc with rfl | hc
        · rfl
        · simp [isDecimalChar, hfrac c hc]
  have hsign : splitSign (pointText neg (d :: int) frac) =
      (neg, d :: int ++ if frac = [] then [] else '.' :: frac) := by
    cases neg with
    | true => rfl
    | false =>
      have hminus : d ≠ '-' := ne_of_isDigit hd rfl
      have hplus : d ≠ '+' := ne_of_isDigit hd rfl
      simp [pointText, splitSign, hminus, hplus]
  have hexp : splitOnce (fun c => c == 'e' || c == 'E')
      (d :: int ++ if frac = [] then [] else '.' :: frac) = none := by
    refine splitOnce_eq_none fun c hc => ?_
    have := hunsigned c hc
    simp only [isDecimalChar, Bool.or_eq_true, beq_iff_eq] at this
    rcases this with h | rfl
    · simp [ne_of_isDigit h (show 'e'.isDigit = false by decide),
        ne_of_isDigit h (show 'E'.isDigit = false by decide)]
    · decide
  have hpoint : (splitOnce (· == '.') (d :: int ++ if frac = [] then [] else '.' :: frac)).getD
      (d :: int ++ (if frac = [] then [] else '.' :: frac), []) = (d :: int, frac) := by
    have hno : ∀ c ∈ d :: int, (c == '.') = false := fun c hc =>
      beq_eq_false_iff_ne.mpr (ne_of_isDigit (hint c hc) rfl)
    by_cases hf : frac = []
    · subst hf
      rw [if_pos rfl, append_nil, splitOnce_eq_none hno]
      rfl
    · rw [if_neg hf, splitOnce_append hno rfl]
      rfl
  have htrim : trim (pointText neg (d :: int) frac) = pointText neg (d :: int) frac := by
    refine trim_eq_self (fun c hc => ?_) fun c hc => ?_
    · cases neg with
      | true =>
        obtain rfl : '-' = c := by simpa [pointText] using hc
        decide
      | false =>
        obtain rfl : d = c := by simpa [pointText] using hc
        exact isWhitespace_of_isDigit hd
    · have hmem : c ∈ d :: int ++ (if frac = [] then [] else '.' :: frac) := by
        have hlast : (pointText neg (d :: int) frac).getLast? =
            (d :: int ++ if frac = [] then [] else '.' :: frac).getLast? := by
          rw [pointText, append_assoc, getLast?_append_of_ne_nil _ (by simp)]
        rw [hlast] at hc
        exact mem_of_mem_getLast? hc
      have := hunsigned c hmem
      simp only [isDecimalChar, Bool.or_eq_true, beq_iff_eq] at this
      rcases this with h | rfl
      · exact isWhitespace_of_isDigit h
      · decide
  have hnonempty : (pointText neg (d :: int) frac).isEmpty = false := by
    cases neg <;> simp [pointText]
  have hdi : (d :: int).all Char.isDigit = true := all_eq_true.mpr hint
  have hdf : frac.all Char.isDigit = true := all_eq_true.mpr hfrac
  unfold parseLiteral
  simp only [htrim, hnonempty, hsign, hexp, pure_bind]
  simp only [hpoint, hdi, hdf]
  rfl

def signed (neg : Bool) (n d : ℕ) : ExactNum := mkRat (if neg then -(n : ℤ) else n) d

theorem literalValue_zero (h : frac.length < 2 ^ 32) : literalValue neg int frac 0 =
      signed neg (ofDigitChars 10 (int ++ frac) 0) (10 ^ frac.length) := by
  have hscale : asI64 (frac.length - 0) = frac.length := by
    rw [sub_zero]
    exact Int.bmod_eq_of_le (by omega) (by omega)
  have hwidth : asU32 (frac.length : ℤ) = frac.length := by
    unfold asU32
    omega
  have hzero : asU32 (-0 : ℤ) = 0 := rfl
  unfold literalValue signed
  rw [hscale]
  by_cases hz : frac.length = 0
  · rw [hz]
    simp only [Nat.cast_zero, le_refl, if_true, hzero, pow_zero, mul_one]
  · have hpos : ¬ (frac.length : ℤ) ≤ 0 := by omega
    simp only [hpos, if_false, hwidth]

theorem isDigit_toDigits (n : ℕ) : ∀ c ∈ toDigits 10 n, c.isDigit = true := fun _ hc =>
  isDigit_of_mem_toDigits (by decide) (by decide) hc

theorem decimalText_eq (neg : Bool) (n scale : ℕ) : ∃ int frac, decimalText neg n scale =
    pointText neg int frac ∧ int ≠ [] ∧ (∀ c ∈ int, c.isDigit = true) ∧
      (∀ c ∈ frac, c.isDigit = true) ∧ frac.length = scale ∧
        ofDigitChars 10 (int ++ frac) 0 = n := by
  have hdigits := isDigit_toDigits n
  have hvalue : ofDigitChars 10 (toDigits 10 n) 0 = n :=
    ofDigitChars_toDigits (by decide) (by decide)
  have hlen : 0 < (toDigits 10 n).length := length_toDigits_pos
  unfold decimalText
  by_cases h0 : scale = 0
  · refine ⟨toDigits 10 n, [], by simp [h0, pointText], toDigits_ne_nil, hdigits, by simp,
      by simp [h0], by rw [append_nil, hvalue]⟩
  by_cases hle : (toDigits 10 n).length ≤ scale
  · have hzeros : ∀ c ∈ List.replicate (scale - (toDigits 10 n).length) '0' ++
        toDigits 10 n, c.isDigit = true := by
      intro c hc
      rcases mem_append.mp hc with hc | hc
      · obtain rfl := eq_of_mem_replicate hc
        decide
      · exact hdigits c hc
    refine ⟨['0'], List.replicate (scale - (toDigits 10 n).length) '0' ++ toDigits 10 n,
      ?_, by simp, forall_mem_of_all rfl, hzeros, ?_, ?_⟩
    · have hne : List.replicate (scale - (toDigits 10 n).length) '0' ++
          toDigits 10 n ≠ [] := by simp [toDigits_ne_nil]
      simp only [h0, hle, if_true, if_false, pointText, if_neg hne]
      simp
    · rw [length_append, length_replicate]
      omega
    · have hzero : ofDigitChars 10 ['0'] 0 = 0 := rfl
      rw [ofDigitChars_append, ofDigitChars_append, hzero,
        ofDigitChars_replicate_zero, mul_zero, hvalue]
  · have hsplit : (toDigits 10 n).drop ((toDigits 10 n).length - scale) ≠ [] := by
      rw [ne_eq, drop_eq_nil_iff]
      omega
    refine ⟨(toDigits 10 n).take ((toDigits 10 n).length - scale),
      (toDigits 10 n).drop ((toDigits 10 n).length - scale), ?_, ?_,
      fun c hc => hdigits c (mem_of_mem_take hc),
      fun c hc => hdigits c (mem_of_mem_drop hc), ?_, ?_⟩
    · simp only [h0, hle, if_false, pointText, if_neg hsplit]
    · rw [ne_eq, take_eq_nil_iff]
      simp only [Nat.toDigits_ne_nil, or_false]
      omega
    · rw [length_drop]
      omega
    · rw [take_append_drop, hvalue]

theorem parseLiteral_decimalText (h : scale < 2 ^ 32) :
    parseLiteral (decimalText neg n scale) = .ok (signed neg n (10 ^ scale)) := by
  obtain ⟨int, frac, htext, hne, hint, hfrac, rfl, hvalue⟩ := decimalText_eq neg n scale
  rw [htext, parseLiteral_pointText hne hint hfrac, literalValue_zero h, hvalue]

theorem stripFactor_eq {p fuel a c : ℕ} (hp : 2 ≤ p) (hc : ¬ p ∣ c)
    (hfuel : p ^ a * c < 2 ^ fuel) : stripFactor p fuel (p ^ a * c) = (c, a) := by
  have hc0 : 0 < c := pos_of_ne_zero fun h => hc (h ▸ dvd_zero p)
  induction fuel generalizing a with
  | zero =>
    have hpos : 0 < p ^ a * c := Nat.mul_pos (Nat.pow_pos (by omega)) hc0
    omega
  | succ fuel ih =>
    cases a with
    | zero =>
      have hmod : ¬ c % p = 0 := fun h => hc (dvd_of_mod_eq_zero h)
      simp [stripFactor, hmod]
    | succ a =>
      have hsplit : p ^ (a + 1) * c = p * (p ^ a * c) := by ring
      have hmod : p * (p ^ a * c) % p = 0 := mul_mod_right p _
      have hdiv : p * (p ^ a * c) / p = p ^ a * c := Nat.mul_div_cancel_left _ (by omega)
      have hless : p ^ a * c < 2 ^ fuel := by
        rw [hsplit] at hfuel
        have : 2 * (p ^ a * c) ≤ p * (p ^ a * c) := mul_le_mul_right _ hp
        omega
      rw [hsplit, stripFactor, if_pos hmod, hdiv, ih hless]

theorem den_lt (q : ExactNum) : q.den < 2 ^ (q.den.log2 + 1) := lt_log2_self

theorem not_two_dvd_five_pow (b : ℕ) : ¬ 2 ∣ 5 ^ b := fun h => by
  have := Nat.Prime.dvd_of_dvd_pow prime_two h
  omega

/-- **A finite decimal is written with the powers of two and five exchanged.** The two factors that
bring the numerator to the scale of the point are each multiplied in for the other prime, and the
counters keep 32 bits. -/
theorem finiteDecimalString_of_den (h : q.den = 2 ^ a * 5 ^ b) :
    ∃ n scale, finiteDecimalString q = some (decimalText (decide (q.num < 0)) n scale) ∧
      parseLiteral (decimalText (decide (q.num < 0)) n scale) =
        .ok (mkRat q.num (2 ^ (b % 2 ^ 32) * 5 ^ (a % 2 ^ 32))) := by
  have hsigned : ∀ d, signed (decide (q.num < 0)) q.num.natAbs d = mkRat q.num d := by
    intro d
    unfold signed
    congr 1
    by_cases hneg : q.num < 0
    · simp only [hneg, decide_true, if_true]
      omega
    · simp only [hneg, decide_false, Bool.false_eq_true, if_false]
      omega
  by_cases hone : q.den = 1
  · have hab : a = 0 ∧ b = 0 := by
      rw [hone] at h
      have hprod := mul_eq_one.mp h.symm
      simpa using hprod
    obtain ⟨rfl, rfl⟩ := hab
    refine ⟨q.num.natAbs, 0, ?_, ?_⟩
    · by_cases hneg : q.num < 0 <;> simp [finiteDecimalString, hone, intText, decimalText, hneg]
    · rw [parseLiteral_decimalText (by decide), hsigned]
      rfl
  have h2 : stripFactor 2 (q.den.log2 + 1) q.den = (5 ^ b, a) := by
    have := den_lt q
    rw [h] at this ⊢
    exact stripFactor_eq le_rfl (not_two_dvd_five_pow b) this
  have h5 : stripFactor 5 (q.den.log2 + 1) (5 ^ b) = (1, b) := by
    have hle : 5 ^ b * 1 ≤ q.den := by
      rw [h, mul_one]
      exact Nat.le_mul_of_pos_left _ (Nat.pow_pos (by decide))
    have := stripFactor_eq (show 2 ≤ 5 by decide) (show ¬ 5 ∣ 1 by decide)
      (lt_of_le_of_lt hle (den_lt q))
    rwa [mul_one] at this
  set s := max (a % 2 ^ 32) (b % 2 ^ 32) with hs
  have hs32 : s < 2 ^ 32 := by omega
  refine ⟨q.num.natAbs * 5 ^ (s - a % 2 ^ 32) * 2 ^ (s - b % 2 ^ 32), s, ?_, ?_⟩
  · simp only [finiteDecimalString, hone, if_false, h2, h5, ne_eq, not_true_eq_false, ← hs]
  · rw [parseLiteral_decimalText hs32, ← hsigned]
    have hten : (10 : ℕ) ^ s = 2 ^ (b % 2 ^ 32) * 5 ^ (a % 2 ^ 32) *
        (5 ^ (s - a % 2 ^ 32) * 2 ^ (s - b % 2 ^ 32)) := by
      have h2s : (2 : ℕ) ^ s = 2 ^ (b % 2 ^ 32) * 2 ^ (s - b % 2 ^ 32) := by
        rw [← pow_add]
        congr 1
        omega
      have h5s : (5 : ℕ) ^ s = 5 ^ (a % 2 ^ 32) * 5 ^ (s - a % 2 ^ 32) := by
        rw [← pow_add]
        congr 1
        omega
      rw [show (10 : ℕ) = 2 * 5 from rfl, mul_pow, h2s, h5s]
      ring
    have hpos : 5 ^ (s - a % 2 ^ 32) * 2 ^ (s - b % 2 ^ 32) ≠ 0 := by positivity
    unfold signed
    rw [hten, mul_assoc]
    congr 1
    set k := 5 ^ (s - a % 2 ^ 32) * 2 ^ (s - b % 2 ^ 32) with hk
    have hnum : (if decide (q.num < 0) = true then -((q.num.natAbs * k : ℕ) : ℤ)
        else ((q.num.natAbs * k : ℕ) : ℤ)) =
        (if decide (q.num < 0) = true then -(q.num.natAbs : ℤ) else (q.num.natAbs : ℤ)) * k := by
      split_ifs <;> push_cast <;> ring
    rw [hnum]
    exact mkRat_mul_right hpos

theorem finiteDecimalString_eq_none (h : ∀ a b, q.den ≠ 2 ^ a * 5 ^ b) :
    finiteDecimalString q = none := by
  have hone : q.den ≠ 1 := fun h1 => h 0 0 (by rw [h1]; rfl)
  obtain ⟨a, m, hm, hden⟩ := exists_eq_pow_mul_and_not_dvd q.den_ne_zero 2 (by decide)
  have hm0 : m ≠ 0 := fun h0 => hm (h0 ▸ dvd_zero 2)
  obtain ⟨b, c, hc, hmc⟩ := exists_eq_pow_mul_and_not_dvd hm0 5 (by decide)
  have h2 : stripFactor 2 (q.den.log2 + 1) q.den = (m, a) := by
    have := den_lt q
    rw [hden] at this ⊢
    exact stripFactor_eq le_rfl hm this
  have h5 : stripFactor 5 (q.den.log2 + 1) m = (c, b) := by
    have hle : m ≤ q.den := by
      rw [hden]
      exact Nat.le_mul_of_pos_left _ (Nat.pow_pos (by decide))
    have := lt_of_le_of_lt hle (den_lt q)
    rw [hmc] at this ⊢
    exact stripFactor_eq (by decide) hc this
  have hc1 : c ≠ 1 := by
    rintro rfl
    exact h a b (by rw [hden, hmc, mul_one])
  simp [finiteDecimalString, hone, h2, h5, hc1]

/-! ## Exact numbers -/

/-- A number that is written exactly: a finite decimal has as many factors `2` as `5` in its
denominator, and a counter of 32 bits holds how many. -/
def Exact (q : ExactNum) : Prop := ∀ a b, q.den = 2 ^ a * 5 ^ b → a = b ∧ a < 2 ^ 32

theorem two_five_inj {a b c : ℕ} (h : 2 ^ a * 5 ^ b = 2 ^ c * 5 ^ d) : a = c ∧ b = d := by
  have hleft : stripFactor 2 (2 ^ a * 5 ^ b) (2 ^ a * 5 ^ b) = (5 ^ b, a) :=
    stripFactor_eq le_rfl (not_two_dvd_five_pow b) Nat.lt_two_pow_self
  have hright : stripFactor 2 (2 ^ c * 5 ^ d) (2 ^ c * 5 ^ d) = (5 ^ d, c) :=
    stripFactor_eq le_rfl (not_two_dvd_five_pow d) Nat.lt_two_pow_self
  rw [h, hright] at hleft
  obtain ⟨hpow, hexp⟩ := Prod.mk.inj hleft
  exact ⟨hexp.symm, (Nat.pow_right_injective (show 2 ≤ 5 by decide) hpow).symm⟩

theorem mkRat_eq_self_iff (hd : d ≠ 0) : mkRat q.num d = q ↔ q.num = 0 ∨ d = q.den := by
  by_cases hnum : q.num = 0
  · simp [num_eq_zero.mp hnum]
  · rw [or_iff_right hnum, ← mkRat_self q, mkRat_eq_iff hd q.den_ne_zero, mkRat_self]
    constructor
    · intro h
      exact_mod_cast (mul_left_cancel₀ hnum h).symm
    · rintro rfl
      rfl

theorem exact_of_den (h : q.den = 2 ^ a * 5 ^ b) : Exact q ↔ a = b ∧ a < 2 ^ 32 := by
  refine ⟨fun hexact => hexact a b h, fun hab c d hcd => ?_⟩
  obtain ⟨rfl, rfl⟩ := two_five_inj (h.symm.trans hcd)
  exact hab

theorem mkRat_exchanged_iff (h : q.den = 2 ^ a * 5 ^ b) :
    mkRat q.num (2 ^ (b % 2 ^ 32) * 5 ^ (a % 2 ^ 32)) = q ↔ Exact q := by
  rw [mkRat_eq_self_iff (by positivity), exact_of_den h, h]
  constructor
  · rintro (hnum | hden)
    · rw [num_eq_zero.mp hnum, den_zero] at h
      obtain ⟨rfl, rfl⟩ := two_five_inj (show 2 ^ 0 * 5 ^ 0 = 2 ^ a * 5 ^ b from h)
      decide
    · obtain ⟨hba, hab⟩ := two_five_inj hden
      omega
  · rintro ⟨rfl, hlt⟩
    exact .inr (by rw [mod_eq_of_lt hlt])

theorem mem_decimalText (hc : c ∈ decimalText neg n scale) : c = '-' ∨ isDecimalChar c = true := by
  obtain ⟨int, frac, htext, -, hint, hfrac, -, -⟩ := decimalText_eq neg n scale
  rw [htext, pointText, mem_append, mem_append] at hc
  rcases hc with (hc | hc) | hc
  · split_ifs at hc
    · exact .inl (mem_singleton.mp hc)
    · cases hc
  · exact .inr (by simp [isDecimalChar, hint c hc])
  · split_ifs at hc
    · cases hc
    · rcases mem_cons.mp hc with rfl | hc
      · exact .inr rfl
      · exact .inr (by simp [isDecimalChar, hfrac c hc])

theorem parseBigUint_toDigits (n : ℕ) : parseBigUint (toDigits 10 n) = some n := by
  have hdigits := isDigit_toDigits n
  have hvalue : ofDigitChars 10 (toDigits 10 n) 0 = n :=
    ofDigitChars_toDigits (by decide) (by decide)
  obtain ⟨d, ds, hd⟩ := exists_cons_of_ne_nil (toDigits_ne_nil (n := n) (b := 10))
  have hfilter : (d :: ds).filter Char.isDigit = d :: ds :=
    filter_eq_self.mpr (hd ▸ hdigits)
  have hall : (d :: ds).all (fun c => c.isDigit || c == '_') = true :=
    all_eq_true.mpr fun c hc => by rw [hdigits c (hd ▸ hc)]; rfl
  have hdd : d.isDigit = true := hdigits d (hd ▸ mem_cons_self)
  have hplus : d ≠ '+' := ne_of_isDigit hdd rfl
  have hunder : d ≠ '_' := ne_of_isDigit hdd rfl
  have hdrop : dropPlus (d :: ds) = d :: ds := by simp [dropPlus, hplus]
  rw [hd] at hvalue ⊢
  simp only [parseBigUint, hdrop, hall, hfilter, hvalue]
  simp [hunder]

theorem parseBigInt_intText (z : ℤ) : parseBigInt (intText z) = some z := by
  obtain ⟨d, ds, hd⟩ := exists_cons_of_ne_nil (toDigits_ne_nil (n := z.natAbs) (b := 10))
  have hdd : d.isDigit = true := isDigit_toDigits z.natAbs d (hd ▸ mem_cons_self)
  have hplus : d ≠ '+' := ne_of_isDigit hdd rfl
  have hminus : d ≠ '-' := ne_of_isDigit hdd rfl
  have hnat := parseBigUint_toDigits z.natAbs
  rw [hd] at hnat
  by_cases hneg : z < 0
  · have htext : intText z = '-' :: d :: ds := by simp [intText, hneg, hd]
    rw [htext, parseBigInt, if_pos head?_cons, if_neg (by simpa using hplus), tail_cons, hnat,
      map_some, some.injEq]
    omega
  · have htext : intText z = d :: ds := by simp [intText, hneg, hd]
    rw [htext, parseBigInt, if_neg (by simpa using hminus), hnat, map_some,
      some.injEq]
    omega

theorem mem_intText {z : ℤ} (hc : c ∈ intText z) : c = '-' ∨ c.isDigit = true := by
  rw [intText, mem_append] at hc
  rcases hc with hc | hc
  · split_ifs at hc
    · exact .inl (mem_singleton.mp hc)
    · cases hc
  · exact .inr (isDigit_toDigits _ c hc)

theorem slash_notMem_decimalText : '/' ∉ decimalText neg n scale := fun h => by
  rcases mem_decimalText h with h | h <;> revert h <;> decide

theorem parseCanonical_canonicalString_iff (q : ExactNum) :
    parseCanonical (canonicalString q) = .ok q ↔ Exact q := by
  by_cases hden : ∃ a b, q.den = 2 ^ a * 5 ^ b
  · obtain ⟨a, b, hab⟩ := hden
    obtain ⟨n, scale, htext, hparse⟩ := finiteDecimalString_of_den hab
    have hslash : splitOnce (· == '/') (decimalText (decide (q.num < 0)) n scale) = none :=
      splitOnce_eq_none fun c hc => beq_eq_false_iff_ne.mpr fun h =>
        slash_notMem_decimalText (h ▸ hc)
    rw [canonicalString, htext, getD_some, parseCanonical, hslash]
    rw [hparse, Except.ok.injEq, mkRat_exchanged_iff hab]
  · have hnone := finiteDecimalString_eq_none fun a b h => hden ⟨a, b, h⟩
    have hslash : splitOnce (· == '/') (intText q.num ++ '/' :: toDigits 10 q.den) =
        some (intText q.num, toDigits 10 q.den) := by
      refine splitOnce_append (fun c hc => ?_) rfl
      rcases mem_intText hc with rfl | hdigit
      · decide
      · exact beq_eq_false_iff_ne.mpr (ne_of_isDigit hdigit rfl)
    have hdenText : parseBigInt (toDigits 10 q.den) = some (q.den : ℤ) := by
      have := parseBigInt_intText q.den
      rwa [intText, if_neg (by omega), nil_append, Int.natAbs_natCast] at this
    have hne : (q.den : ℤ) ≠ 0 := by exact_mod_cast q.den_ne_zero
    refine iff_of_true ?_ fun a b h => absurd ⟨a, b, h⟩ hden
    rw [canonicalString, hnone, getD_none, parseCanonical, hslash]
    simp only [parseBigInt_intText, hdenText, hne, if_false]
    rw [num_divInt_den]

theorem dvd_ten_pow {k : ℕ} (h : d ∣ 10 ^ k) : ∃ a b, a ≤ k ∧ b ≤ k ∧ d = 2 ^ a * 5 ^ b := by
  rw [show (10 : ℕ) = 2 * 5 from rfl, mul_pow] at h
  obtain ⟨x, y, hx, hy, rfl⟩ := (Nat.dvd_mul).mp h
  obtain ⟨a, ha, rfl⟩ := (dvd_prime_pow prime_two).mp hx
  obtain ⟨b, hb, rfl⟩ := (dvd_prime_pow prime_five).mp hy
  exact ⟨a, b, ha, hb, rfl⟩

theorem den_mkRat_dvd (n : ℤ) (d : ℕ) : (mkRat n d).den ∣ d := by
  rw [mkRat_eq_divInt]
  exact_mod_cast den_dvd n d

theorem literalValue_den (neg : Bool) (int frac : Text) (exponent : ℤ) :
    ∃ a b, a < 2 ^ 32 ∧ b < 2 ^ 32 ∧
      (literalValue neg int frac exponent).den = 2 ^ a * 5 ^ b := by
  have hwidth : ∀ z, asU32 z < 2 ^ 32 := by
    intro z
    unfold asU32
    omega
  have hdvd : ∃ k < 2 ^ 32, (literalValue neg int frac exponent).den ∣ 10 ^ k := by
    unfold literalValue
    by_cases hscale : asI64 (frac.length - exponent) ≤ 0
    · refine ⟨0, by decide, ?_⟩
      simp only [hscale, if_true, pow_zero]
      exact den_mkRat_dvd _ _
    · refine ⟨_, hwidth (asI64 (frac.length - exponent)), ?_⟩
      simp only [hscale, if_false]
      exact den_mkRat_dvd _ _
  obtain ⟨k, hk, hdvd⟩ := hdvd
  obtain ⟨a, b, ha, hb, hab⟩ := dvd_ten_pow hdvd
  exact ⟨a, b, by omega, by omega, hab⟩

/-! ## Exactness of literals -/

theorem splitOnce_eq_some {s a b : Text} (h : splitOnce p s = some (a, b)) :
    ∃ c, p c = true ∧ s = a ++ c :: b := by
  induction s generalizing a with
  | nil => cases h
  | cons d s ih =>
    rw [splitOnce] at h
    split_ifs at h with hd
    · cases h
      exact ⟨d, hd, rfl⟩
    · obtain ⟨⟨x, y⟩, hxy, heq⟩ := map_eq_some_iff.mp h
      cases heq
      obtain ⟨c, hc, rfl⟩ := ih hxy
      exact ⟨c, hc, rfl⟩

/-- `s` is a sign, the digits `int`, a point with the digits `frac`, and the exponent `e`. -/
def LiteralParts (s : Text) (neg : Bool) (int frac : Text) (e : ℤ) : Prop :=
  ∃ sign point exponent, s = sign ++ (int ++ point ++ frac ++ exponent) ∧
    (sign ∈ if neg then [['-']] else [[], ['+']]) ∧ (point = ['.'] ∨ point = [] ∧ frac = []) ∧
    (exponent = [] ∧ e = 0 ∨ ∃ m t, (m = 'e' ∨ m = 'E') ∧ exponent = m :: t ∧ parseI64 t = some e) ∧
    ∀ c ∈ int ++ frac, c.isDigit = true

theorem splitSign_text (s : Text) : ∃ sign, s = sign ++ (splitSign s).2 ∧
    sign ∈ if (splitSign s).1 then [['-']] else [[], ['+']] := by
  unfold splitSign
  split
  · exact ⟨['-'], rfl, by simp⟩
  · exact ⟨['+'], rfl, by simp⟩
  · exact ⟨[], rfl, by simp⟩

theorem literalParts_of_parseLiteral {src : Text} (h : parseLiteral src = .ok q) :
    ∃ neg int frac e, LiteralParts (trim src) neg int frac e ∧ q = literalValue neg int frac e := by
  obtain ⟨sign, hsign, hmem⟩ := splitSign_text (trim src)
  -- The mantissa and the exponent of the unsigned text.
  have hparts : ∃ mantissa exponent e, (splitSign (trim src)).2 = mantissa ++ exponent ∧
      (exponent = [] ∧ e = 0 ∨
        ∃ m t, (m = 'e' ∨ m = 'E') ∧ exponent = m :: t ∧ parseI64 t = some e) ∧
      (let (int, frac) := (splitOnce (· == '.') mantissa).getD (mantissa, [])
       if int.isEmpty && frac.isEmpty then throw .invalidFormat
       else if !int.all Char.isDigit || !frac.all Char.isDigit then throw .invalidDigits
       else pure (literalValue (splitSign (trim src)).1 int frac e)) =
        (.ok q : Except ParseNumError ExactNum) := by
    unfold parseLiteral at h
    dsimp only at h
    split_ifs at h
    split at h
    · rename_i m t hsplit
      obtain ⟨c, hc, heq⟩ := splitOnce_eq_some hsplit
      split at h
      · rename_i e hread
        exact ⟨m, c :: t, e, heq, .inr ⟨c, t, by simpa using hc, rfl, hread⟩, h⟩
      · cases h
    · exact ⟨_, [], 0, (append_nil _).symm, .inl ⟨rfl, rfl⟩, h⟩
  obtain ⟨mantissa, exponent, e, hunsigned, hexp, hvalue⟩ := hparts
  obtain ⟨⟨int, frac⟩, hsplit⟩ : ∃ ab, (splitOnce (· == '.') mantissa).getD (mantissa, []) = ab :=
    ⟨_, rfl⟩
  have hpoint : ∃ point, mantissa = int ++ point ++ frac ∧
      (point = ['.'] ∨ point = [] ∧ frac = []) := by
    cases hpair : splitOnce (· == '.') mantissa with
    | none =>
      rw [hpair] at hsplit
      cases hsplit
      exact ⟨[], by simp, .inr ⟨rfl, rfl⟩⟩
    | some ab =>
      rw [hpair] at hsplit
      cases hsplit
      obtain ⟨c, hc, heq⟩ := splitOnce_eq_some hpair
      obtain rfl : c = '.' := beq_iff_eq.mp hc
      exact ⟨['.'], by simpa using heq, .inl rfl⟩
  obtain ⟨point, hmant, hpoint⟩ := hpoint
  rw [hsplit] at hvalue
  dsimp only at hvalue
  split_ifs at hvalue with hempty hdigits
  refine ⟨_, int, frac, e, ⟨sign, point, exponent, ?_, hmem, hpoint, hexp, ?_⟩,
    (Except.ok.inj hvalue).symm⟩
  · rw [← hmant, ← hunsigned, ← hsign]
  · simpa [or_imp, forall_and] using hdigits

/-- The number a literal denotes. -/
def literalMeaning (neg : Bool) (int frac : Text) (e : ℤ) : ℚ :=
  (if neg then -1 else 1) * Nat.ofDigitChars 10 (int ++ frac) 0 * 10 ^ (e - frac.length)

theorem literalValue_eq (neg : Bool) (int frac : Text) (e : ℤ) : ∃ k : ℤ, |k| < 2 ^ 32 ∧
    (|frac.length - e| < 2 ^ 32 → k = e - frac.length) ∧ literalValue neg int frac e =
      (if neg then -1 else 1) * ofDigitChars 10 (int ++ frac) 0 * (10 : ℚ) ^ k := by
  have hsmall : |frac.length - e| < 2 ^ 32 → asI64 (frac.length - e) = frac.length - e := fun h =>
    Int.bmod_eq_of_le (by rw [abs_lt] at h; omega) (by rw [abs_lt] at h; omega)
  unfold literalValue
  generalize asI64 (frac.length - e) = scale at hsmall ⊢
  by_cases hscale : scale ≤ 0
  · refine ⟨asU32 (-scale), ?_, fun h => ?_, ?_⟩
    · unfold asU32; rw [abs_lt]; omega
    · have := hsmall h
      rw [abs_lt] at h
      unfold asU32
      omega
    · simp only [hscale, if_true, mkRat_one, zpow_natCast]
      split_ifs <;> push_cast <;> ring
  · refine ⟨-asU32 scale, ?_, fun h => ?_, ?_⟩
    · unfold asU32; rw [abs_lt]; omega
    · have := hsmall h
      rw [abs_lt] at h
      unfold asU32
      omega
    · simp only [hscale, if_false, mkRat_eq_div, zpow_neg, zpow_natCast]
      split_ifs <;> push_cast <;> ring

/-- **A literal is exact unless its power of ten leaves 32 bits.** -/
theorem literal_exact_iff {src : Text} (h : parseLiteral src = .ok q) :
    ∃ neg int frac e, LiteralParts (trim src) neg int frac e ∧
      (q = literalMeaning neg int frac e ↔
        Nat.ofDigitChars 10 (int ++ frac) 0 = 0 ∨ |frac.length - e| < 2 ^ 32) := by
  obtain ⟨neg, int, frac, e, hlit, rfl⟩ := literalParts_of_parseLiteral h
  refine ⟨neg, int, frac, e, hlit, ?_⟩
  obtain ⟨k, hk, hsmall, hvalue⟩ := literalValue_eq neg int frac e
  rw [hvalue, literalMeaning]
  by_cases hzero : ofDigitChars 10 (int ++ frac) 0 = 0
  · simp [hzero]
  have hne : (if neg then -1 else 1 : ℚ) * ofDigitChars 10 (int ++ frac) 0 ≠ 0 :=
    mul_ne_zero (by split_ifs <;> norm_num) (by exact_mod_cast hzero)
  rw [mul_right_inj' hne, (zpow_right_injective₀ (by norm_num) (by norm_num)).eq_iff,
    or_iff_right hzero]
  refine ⟨?_, hsmall⟩
  rintro rfl
  rwa [abs_sub_comm]

/-- A literal without an exponent has the value it spells. -/
theorem literal_exact_minus_2_50 : parseLiteral "-2.50".toList = .ok (-5 / 2) ∧
    ∃ neg int frac e, LiteralParts "-2.50".toList neg int frac e ∧
      -5 / 2 = literalMeaning neg int frac e := by
  have hparse : parseLiteral "-2.50".toList = .ok (-5 / 2) := by decide +kernel
  obtain ⟨neg, int, frac, e, hparts, hiff⟩ := literal_exact_iff hparse
  have htrim : trim "-2.50".toList = "-2.50".toList := by decide +kernel
  rw [htrim] at hparts
  refine ⟨hparse, neg, int, frac, e, hparts, hiff.mpr (.inr ?_)⟩
  obtain ⟨sign, point, exponent, htext, -, -, hexponent, -⟩ := hparts
  rcases hexponent with ⟨rfl, rfl⟩ | ⟨m, t, hm, rfl, -⟩
  · have hlen := congrArg List.length htext
    simp only [length_append] at hlen
    rw [abs_lt]
    have : "-2.50".toList.length = 5 := rfl
    omega
  · have hmem : m ∈ "-2.50".toList := by
      rw [htext]
      simp
    rcases hm with rfl | rfl <;> exact absurd hmem (by decide)

theorem huge_exponent_one : parseLiteral "1e4294967296".toList = .ok 1 ∧
    literalMeaning false ['1'] [] 4294967296 ≠ 1 := by
  refine ⟨by decide +kernel, ?_⟩
  have hlt : (1 : ℚ) < 10 ^ (4294967296 : ℤ) := one_lt_zpow₀ (by norm_num) (by norm_num)
  simpa [literalMeaning, ofDigitChars] using hlt.ne'

/-! ## The law of canonical text -/

def FiniteDecimal (q : ExactNum) : Prop := ∃ (n : ℤ) (k : ℕ), q = n / 10 ^ k

theorem finiteDecimal_iff : FiniteDecimal q ↔ ∃ a b, q.den = 2 ^ a * 5 ^ b := by
  constructor
  · rintro ⟨n, k, hq⟩
    have hdvd : q.den ∣ 10 ^ k := by
      rw [hq, show (n / 10 ^ k : ℚ) = mkRat n (10 ^ k) by simp [mkRat_eq_div]]
      exact den_mkRat_dvd n _
    obtain ⟨a, b, -, -, hab⟩ := dvd_ten_pow hdvd
    exact ⟨a, b, hab⟩
  · rintro ⟨a, b, hab⟩
    refine ⟨q.num * (2 ^ b * 5 ^ a : ℕ), a + b, ?_⟩
    have hten : (10 : ℚ) ^ (a + b) = q.den * (2 ^ b * 5 ^ a : ℕ) := by
      rw [hab, show (10 : ℚ) = 2 * 5 by norm_num, mul_pow]
      push_cast
      ring
    rw [hten, Int.cast_mul, Int.cast_natCast, mul_div_mul_right _ _ (by positivity),
      num_div_den]

theorem slash_mem_iff : '/' ∈ canonicalString q ↔ ¬ FiniteDecimal q := by
  rw [finiteDecimal_iff]
  by_cases hden : ∃ a b, q.den = 2 ^ a * 5 ^ b
  · obtain ⟨a, b, hab⟩ := hden
    obtain ⟨n, scale, htext, -⟩ := finiteDecimalString_of_den hab
    rw [canonicalString, htext]
    exact iff_of_false slash_notMem_decimalText (not_not_intro ⟨a, b, hab⟩)
  · have hnone := finiteDecimalString_eq_none fun a b h => hden ⟨a, b, h⟩
    rw [canonicalString, hnone]
    exact iff_of_true (mem_append_right _ mem_cons_self) hden

/-- The numbers of `S` read back from their texts, which are distinct and have a slash exactly when
there is no finite decimal. -/
structure CanonicalLaw (S : Set ExactNum) : Prop where
  reads : ∀ q ∈ S, parseCanonical (canonicalString q) = .ok q
  slash : ∀ q ∈ S, '/' ∈ canonicalString q ↔ ¬ FiniteDecimal q
  injOn : Set.InjOn canonicalString S

/-- **Canonical texts are faithful to the `Exact` numbers and to no others.** -/
theorem canonical_law_iff (S : Set ExactNum) : CanonicalLaw S ↔ ∀ q ∈ S, Exact q := by
  simp only [← parseCanonical_canonicalString_iff]
  refine ⟨CanonicalLaw.reads, fun h => ⟨h, fun _ _ => slash_mem_iff, fun q hq r hr heq => ?_⟩⟩
  have hread := h q hq
  rw [heq, h r hr] at hread
  exact (Except.ok.inj hread).symm

theorem five_halves_text : canonicalString (5 / 2) = canonicalString (2 / 5) ∧
    parseCanonical (canonicalString (5 / 2)) = .ok 1 := by decide +kernel

end Residiuum.Sda
