import Residiuum.Sda.Number

/-!
# Byte strings in base 16

`encode_base16` and its two readers, `decode_base16` of the JSON bridge and `parse_bytes_literal` of
the parser, which are the same function.

* **`decodeBase16_encodeBase16`**: bytes survive the round trip.
-/

namespace Residiuum.Sda

open List

/-- `encode_base16`: two lower-case digits a byte. -/
def encodeBase16 (b : List UInt8) : Text :=
  b.flatMap fun x => [Nat.digitChar (x.toNat / 16), Nat.digitChar (x.toNat % 16)]

def toDigit16 (c : Char) : Option ℕ :=
  let n := c.toNat
  if 48 ≤ n ∧ n ≤ 57 then some (n - 48)
  else if 97 ≤ n ∧ n ≤ 102 then some (n - 87)
  else if 65 ≤ n ∧ n ≤ 70 then some (n - 55)
  else none

/-- The loop over pairs of characters; one left over ends it. -/
def decodePairs : Text → Except Text (List UInt8)
  | hi :: lo :: rest =>
    match toDigit16 hi, toDigit16 lo with
    | some hi, some lo => do
      let out ← decodePairs rest
      return UInt8.ofNat (hi * 16 + lo) :: out
    | _, _ => .error "expected base16 digits only".toList
  | _ => .ok []

/-- `decode_base16`; the length is the one in UTF-8. -/
def decodeBase16 (src : Text) : Except Text (List UInt8) :=
  if (src.map Char.utf8Size).sum % 2 ≠ 0 then
    .error "expected even-length base16 string".toList
  else decodePairs src

/-- `parse_bytes_literal`, the parser's copy. -/
def parseBytesLiteral (src : Text) : Except Text (List UInt8) := decodeBase16 src

theorem digitChar_hex {n : ℕ} (h : n < 16) :
    toDigit16 (Nat.digitChar n) = some n ∧ (Nat.digitChar n).utf8Size = 1 := by
  have hall : ∀ k < 16, toDigit16 (Nat.digitChar k) = some k ∧ (Nat.digitChar k).utf8Size = 1 := by
    decide
  exact hall n h

theorem decodeBase16_encodeBase16 (b : List UInt8) : decodeBase16 (encodeBase16 b) = .ok b := by
  have hdigits : ∀ x : UInt8, x.toNat / 16 < 16 ∧ x.toNat % 16 < 16 := by
    intro x
    have := x.toNat_lt
    omega
  have hlen : ((encodeBase16 b).map Char.utf8Size).sum % 2 = 0 := by
    induction b with
    | nil => rfl
    | cons x b ih =>
      simp only [encodeBase16, flatMap_cons, map_append, sum_append, map_cons,
        map_nil, sum_cons, sum_nil, (digitChar_hex (hdigits x).1).2,
        (digitChar_hex (hdigits x).2).2] at ih ⊢
      omega
  rw [decodeBase16, if_neg (by omega)]
  clear hlen
  induction b with
  | nil => rfl
  | cons x b ih =>
    have hbyte : x.toNat / 16 * 16 + x.toNat % 16 = x.toNat := Nat.div_add_mod' _ _
    change decodePairs (Nat.digitChar (x.toNat / 16) :: Nat.digitChar (x.toNat % 16) ::
      encodeBase16 b) = _
    rw [decodePairs, (digitChar_hex (hdigits x).1).1, (digitChar_hex (hdigits x).2).1]
    dsimp only
    rw [ih, hbyte, UInt8.ofNat_toNat]
    rfl

end Residiuum.Sda
