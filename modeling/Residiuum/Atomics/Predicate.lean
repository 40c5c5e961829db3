import Residiuum.Atomics.Evidence

/-!
# Compiled predicate payloads

The payloads that compiled predicates carry (`predicate.rs`) and the scalar encodings they name
(`encoding.rs`). A payload is a map with a fixed number of entries; every failure to read one is a
refusal.

* `compareCanonicalKeys`: the mathematical order of keys of one kind; decimals are compared by
  exponent and digits.
* `decodeCollectionLifecyclePayload`, `decodeExactScalarPayload`, `decodeBoundedRangePayload`: the
  three payloads.
* `rangeIdentity`: the hash that names a range by its collection, order and bounds.
-/

namespace Residiuum.Atomics

open ByteLib

def malformed : AtomicsError := .refused .malformedInput

def invalidErr : AtomicsError := .refused .invalidValue

/-! ## Key kinds and their order -/

/-- Kinds of keys. -/
inductive CanonicalKeyKind where
  | string
  | opaqueBytes
  | integer
  | decimal
  deriving DecidableEq, Repr

def CanonicalKeyKind.wireCode : CanonicalKeyKind → UInt8
  | .string => 1
  | .opaqueBytes => 2
  | .integer => 3
  | .decimal => 4

def CanonicalKeyKind.fromWireCode (code : UInt8) : Option CanonicalKeyKind :=
  if code = 1 then some .string
  else if code = 2 then some .opaqueBytes
  else if code = 3 then some .integer
  else if code = 4 then some .decimal
  else none

def CanonicalKey.kind : CanonicalKey → CanonicalKeyKind
  | .string _ => .string
  | .opaqueBytes _ => .opaqueBytes
  | .integer _ => .integer
  | .decimal _ _ => .decimal

/-- `BigInt::from_signed_bytes_be`: two's complement, most significant byte first. -/
def signedOfBe : Bytes → ℤ
  | [] => 0
  | b :: l => if b < 0x80 then ofBe (b :: l) else (ofBe (b :: l) : ℤ) - 256 ^ (l.length + 1)

def signRank (n : ℤ) : ℕ := if n < 0 then 0 else if n = 0 then 1 else 2

/-- The first place at which two digit strings differ, the shorter one continued by zeros. -/
def compareDigits (left right : List Char) : Ordering :=
  let orders := (List.range (max left.length right.length)).map fun i =>
    compare (left.getD i '0') (right.getD i '0')
  (orders.find? fun o => o ≠ .eq).getD .eq

def decimalCmp (left : Bytes) (leftScale : Int64) (right : Bytes) (rightScale : Int64) : Ordering :=
  let left := signedOfBe left
  let right := signedOfBe right
  let signOrder := compare (signRank left) (signRank right)
  if signOrder ≠ .eq then signOrder
  else if left = 0 then .eq
  else
    let leftDigits := Nat.toDigits 10 left.natAbs
    let rightDigits := Nat.toDigits 10 right.natAbs
    let leftExponent := (leftDigits.length : ℤ) - leftScale.toInt
    let rightExponent := (rightDigits.length : ℤ) - rightScale.toInt
    let magnitude := compare leftExponent rightExponent
    let magnitude := if magnitude = .eq then compareDigits leftDigits rightDigits else magnitude
    if left < 0 then magnitude.swap else magnitude

def compareCanonicalKeys : CanonicalKey → CanonicalKey → Except AtomicsError Ordering
  | .string left, .string right => return compare (stringBytes left) (stringBytes right)
  | .opaqueBytes left, .opaqueBytes right => return compare left right
  | .integer left, .integer right => return compare (signedOfBe left) (signedOfBe right)
  | .decimal left leftScale, .decimal right rightScale =>
    let mathematical := decimalCmp left leftScale right rightScale
    return if mathematical = .eq then compare leftScale.toInt rightScale.toInt else mathematical
  | _, _ => throw malformed

/-- How a collection encodes admitted values. -/
inductive ValueEncoding where
  | bytes
  | utf8
  | integer
  | decimal
  deriving DecidableEq, Repr

def ValueEncoding.fromWireCode (code : UInt8) : Option ValueEncoding :=
  if code = 1 then some .bytes
  else if code = 2 then some .utf8
  else if code = 3 then some .integer
  else if code = 4 then some .decimal
  else none

/-- `verify_decimal_value`; a scale that does not fit is invalid here, as every other failure. -/
def verifyDecimalValue (bytes : Bytes) : Except AtomicsError (Bytes × Int64) := do
  let map ← (decodeMap bytes).mapError fun _ => invalidErr
  if map.length ≠ 3 then throw invalidErr
  else
    match field map 1, field map 2, field map 3 with
    | some (.uint kind), some (.bytes coefficient), some v =>
      if kind ≠ CanonicalKeyKind.decimal.wireCode.toUInt64 then throw invalidErr
      else
        let scale ← (decodeInt v).mapError fun _ => invalidErr
        verifySignedInteger coefficient
        return (coefficient, scale)
    | _, _, _ => throw invalidErr

def ValueEncoding.admitBytes (bytes : Bytes) : ValueEncoding → Except AtomicsError Unit
  | .bytes => return ()
  | .utf8 => if (fromUtf8 bytes).isSome then return () else throw invalidErr
  | .integer => verifySignedInteger bytes
  | .decimal => do
    let _ ← verifyDecimalValue bytes
    return ()

/-! ## Reading payloads -/

variable (map : Map) (key : UInt64)

def requireUint : Except AtomicsError UInt64 :=
  match field map key with
  | some (.uint n) => return n
  | _ => throw malformed

def requirePayloadBytes : Except AtomicsError Bytes :=
  match field map key with
  | some (.bytes b) => return b
  | _ => throw malformed

def requireFixed (n : ℕ) (map : Map) (key : UInt64) : Except AtomicsError (Arr n) := do
  arrOfBytes n (← requirePayloadBytes map key)

def requireBool : Except AtomicsError Bool := do
  let n ← requireUint map key
  if n = 0 then return false else if n = 1 then return true else throw malformed

/-- `u8::try_from(..).ok().and_then(from_wire_code).ok_or_else(malformed)`. -/
def requireKnown {α : Type} (fromWireCode : UInt8 → Option α) (n : UInt64) :
    Except AtomicsError α :=
  if n.toNat < 2 ^ 8 then
    match fromWireCode n.toUInt8 with
    | some a => return a
    | none => throw malformed
  else throw malformed

/-- `u32::try_from(require_uint(..))`. -/
def requireUint32 : Except AtomicsError UInt32 := do
  let n ← requireUint map key
  if n.toNat < 2 ^ 32 then return n.toUInt32 else throw malformed

/-- States of a collection. -/
inductive CollectionLifecycleState where
  | absent
  | active
  | retired
  deriving DecidableEq, Repr

def CollectionLifecycleState.fromWireCode (code : UInt64) : Option CollectionLifecycleState :=
  if code = 0 then some .absent
  else if code = 1 then some .active
  else if code = 2 then some .retired
  else none

def decodeCollectionLifecyclePayload (bytes : Bytes) :
    Except AtomicsError CollectionLifecycleState := do
  let map ← (decodeMap bytes).mapError fun _ => malformed
  if map.length ≠ 2 then throw malformed
  else if (← requireUint map 1) ≠ 1 then throw malformed
  else
    match CollectionLifecycleState.fromWireCode (← requireUint map 2) with
    | some state => return state
    | none => throw malformed

/-- A scalar that a value must equal. -/
structure ExactScalarEquality where
  encoding : ValueEncoding
  expected : Bytes

def decodeExactScalarPayload (bytes : Bytes) : Except AtomicsError ExactScalarEquality := do
  let map ← (decodeMap bytes).mapError fun _ => malformed
  if map.length ≠ 3 then throw malformed
  else if (← requireUint map 1) ≠ 1 then throw malformed
  else
    let encoding ← requireKnown ValueEncoding.fromWireCode (← requireUint map 2)
    let expected ← requirePayloadBytes map 3
    (encoding.admitBytes expected).mapError fun _ => malformed
    return ⟨encoding, expected⟩

/-! ## Bounded range -/

def MAX_RANGE_RESULT_ENTRIES : UInt32 := 4096

def MAX_RANGE_EXAMINED : UInt32 := 1000000

/-- ASCII `RESIDIUUM-AUTHORITATIVE-PRIMARY-KEY-COVERAGE-V1`. -/
def DOMAIN_RANGE_COVERAGE : Bytes :=
  [0x52, 0x45, 0x53, 0x49, 0x44, 0x49, 0x55, 0x55, 0x4d, 0x2d, 0x41, 0x55, 0x54, 0x48, 0x4f, 0x52,
    0x49, 0x54, 0x41, 0x54, 0x49, 0x56, 0x45, 0x2d, 0x50, 0x52, 0x49, 0x4d, 0x41, 0x52, 0x59, 0x2d,
    0x4b, 0x45, 0x59, 0x2d, 0x43, 0x4f, 0x56, 0x45, 0x52, 0x41, 0x47, 0x45, 0x2d, 0x56, 0x31]

def DOMAIN_RANGE_IDENTITY : Bytes :=
  [0x52, 0x45, 0x53, 0x49, 0x44, 0x49, 0x55, 0x55, 0x4d, 0x2d, 0x41, 0x54, 0x4f, 0x4d, 0x49, 0x43,
    0x2d, 0x52, 0x41, 0x4e, 0x47, 0x45, 0x2d, 0x49, 0x44, 0x45, 0x4e, 0x54, 0x49, 0x54, 0x59, 0x2d,
    0x56, 0x31]

section Range

variable (R : Runtime)

def rangeCoverageDomain : Arr 32 := R.blake3 DOMAIN_RANGE_COVERAGE

/-- `hash_key`: the length, then the order bytes. -/
def hashKey (hasher : R.Hasher) (key : CanonicalKey) : R.Hasher :=
  let bytes := keyOrderBytes key
  R.update (R.update hasher (beBytes 4 bytes.length)) bytes

def boolByte (b : Bool) : UInt8 := if b then 1 else 0

def rangeIdentity (collectionId : CollectionId) (keyKind : CanonicalKeyKind) (lower : CanonicalKey)
    (lowerInclusive : Bool) (upper : CanonicalKey) (upperInclusive : Bool) : Arr 32 :=
  let hasher := R.update R.hasherNew DOMAIN_RANGE_IDENTITY
  let hasher := R.update hasher collectionId.1.1
  let hasher := R.update hasher [keyKind.wireCode, 1]
  let hasher := hashKey R hasher lower
  let hasher := R.update hasher [boolByte lowerInclusive]
  let hasher := hashKey R hasher upper
  let hasher := R.update hasher [boolByte upperInclusive]
  R.finalize (R.update hasher (rangeCoverageDomain R).1)

/-- A range of keys with its bounds. -/
structure BoundedKeyRange where
  collectionId : CollectionId
  keyKind : CanonicalKeyKind
  lower : CanonicalKey
  lowerInclusive : Bool
  upper : CanonicalKey
  upperInclusive : Bool
  examinationLimit : UInt32
  expectedCount : UInt32
  expectedResult : Arr 32
  rangeIdentity : Arr 32

def decodeBoundedRangePayload (bytes : Bytes) : Except AtomicsError BoundedKeyRange := do
  let map ← (decodeMap bytes).mapError fun _ => malformed
  if map.length ≠ 13 then throw malformed
  else if (← requireUint map 1) ≠ 1 then throw malformed
  else
    let collectionId ← CollectionId.fromBytes (← requireFixed 16 map 2)
    let keyKind ← requireKnown CanonicalKeyKind.fromWireCode (← requireUint map 3)
    if (← requireUint map 4) ≠ 1 then throw malformed
    else if (← requireFixed 32 map 9) ≠ rangeCoverageDomain R then throw malformed
    else
      let lower ← decodeKey (← requireValue map 5)
      let lowerInclusive ← requireBool map 6
      let upper ← decodeKey (← requireValue map 7)
      let upperInclusive ← requireBool map 8
      let examinationLimit ← requireUint32 map 10
      let expectedCount ← requireUint32 map 11
      let expectedResult ← requireFixed 32 map 12
      let encodedIdentity ← requireFixed 32 map 13
      if lower.kind ≠ keyKind ∨ upper.kind ≠ keyKind ∨ examinationLimit = 0 ∨
          examinationLimit > MAX_RANGE_EXAMINED ∨ expectedCount > MAX_RANGE_RESULT_ENTRIES ∨
          expectedCount > examinationLimit then throw malformed
      else
        let boundOrder ← compareCanonicalKeys lower upper
        if boundOrder = .gt ∨ (boundOrder = .eq ∧ ¬ (lowerInclusive ∧ upperInclusive)) then
          throw malformed
        else
          let expectedIdentity :=
            rangeIdentity R collectionId keyKind lower lowerInclusive upper upperInclusive
          if encodedIdentity ≠ expectedIdentity then throw malformed
          else
            return {
              collectionId
              keyKind
              lower
              lowerInclusive
              upper
              upperInclusive
              examinationLimit
              expectedCount
              expectedResult
              rangeIdentity := expectedIdentity }

end Range

end Residiuum.Atomics
