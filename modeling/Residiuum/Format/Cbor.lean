import Mathlib.Data.List.Sort
import Residiuum.Lib.Bytes
import Residiuum.Lib.Parse

/-!
# Deterministic CBOR envelopes: the codec

The three walkers of `cbor_envelope.rs` over the bytes not yet read (the cursor):

* `skipValue` and `readEnvelopeMap`, the validator;
* `readValue` and `decodeDeterministicUintMap`, the decoder;
* `writeValue` and `encodeDeterministicUintMap`, the encoder with its self-check.

Recursive walkers carry a fuel that bounds the nesting depth. Every nesting level consumes a byte,
so `cur.length + 1` is enough on the cursor `cur`.
-/

namespace Residiuum

open ByteLib

/-- Failures of the deterministic envelope rules. -/
inductive CborEnvelopeError where
  | truncated
  | trailingBytes
  | notMap
  | indefinite
  | nonShortest
  | duplicateKey
  | unsortedKeys
  | nonUintKey
  | invalidUtf8
  | unsupported
  | floatRejected
  | tagRejected
  deriving DecidableEq, Repr

/-- The CBOR values of an envelope; `nint n` stands for `-1 - n`. -/
inductive CborValue where
  | uint (n : UInt64)
  | nint (n : UInt64)
  | bytes (b : Bytes)
  | text (s : String)
  | array (items : List CborValue)
  | map (entries : List (UInt64 × CborValue))
  | bool (b : Bool)
  | null

def EMPTY_ENVELOPE : Bytes := [0xa0]

/-! ## The cursor -/

/-- A read at the cursor; the state is what is left to read. -/
abbrev Cursor (α : Type) : Type := Step UInt8 CborEnvelopeError α

def take (n : ℕ) : Cursor Bytes := fun cur =>
  if cur.length < n then .error .truncated else .ok (cur.take n, cur.drop n)

def takeByte : Cursor UInt8
  | [] => .error .truncated
  | b :: cur => .ok (b, cur)

/-- `peek`: the next byte, not consumed. -/
def peek : Cursor UInt8
  | [] => .error .truncated
  | b :: cur => .ok (b, b :: cur)

/-- A multi-byte argument of width `w`, which must be at least `least` to be shortest. -/
def readArg (w least : ℕ) : Cursor UInt64 := do
  let raw ← take w
  if ofBe raw < least then throw .nonShortest else return UInt64.ofNat (ofBe raw)

/-- Major type and argument of a head, in shortest form. -/
def readHead : Cursor (UInt8 × UInt64) := do
  let head ← takeByte
  let major := head >>> 5
  let ai := head &&& 0x1f
  if ai ≤ 23 then
    return (major, ai.toUInt64)
  else if ai = 24 then
    return (major, ← readArg 1 24)
  else if ai = 25 then
    return (major, ← readArg 2 256)
  else if ai = 26 then
    return (major, ← readArg 4 65536)
  else if ai = 27 then
    return (major, ← readArg 8 0x100000000)
  else if ai = 31 then
    throw .indefinite
  else
    throw .unsupported

/-- The argument of a head whose major type must be `major`. -/
def readHeadOf (major : UInt8) (wrong : CborEnvelopeError) : Cursor UInt64 := do
  let (m, arg) ← readHead
  if m ≠ major then throw wrong else return arg

def readUint : Cursor UInt64 := readHeadOf 0 .nonUintKey

def readUintAny : Cursor UInt64 := readHeadOf 0 .unsupported

/-- A declared length must fit the bytes that remain, at `minItemBytes` each. -/
def boundCollectionLen (arg : UInt64) (minItemBytes : ℕ) : Cursor ℕ := fun cur =>
  if arg.toNat > cur.length / max minItemBytes 1 then .error .truncated
  else .ok (arg.toNat, cur)

/-- The length of a definite map; an entry takes at least two bytes. -/
def readMapLen : Cursor ℕ := do
  let arg ← readHeadOf 5 .notMap
  boundCollectionLen arg 2

def readArrayLen : Cursor ℕ := do
  let arg ← readHeadOf 4 .unsupported
  boundCollectionLen arg 1

def readBstr : Cursor Bytes := do
  let arg ← readHeadOf 2 .unsupported
  take arg.toNat

def fromUtf8 (raw : Bytes) : Option String := String.fromUTF8? raw.toByteArray

/-- A text string, which must be valid UTF-8. -/
def readTstr : Cursor String := do
  let arg ← readHeadOf 3 .unsupported
  let raw ← take arg.toNat
  match fromUtf8 raw with
  | some s => return s
  | none => throw .invalidUtf8

/-- A simple value: only `false`, `true` and `null` are in the profile. -/
def readSimpleValue : Cursor CborValue := do
  let head ← takeByte
  let ai := head &&& 0x1f
  if ai = 20 then
    return .bool false
  else if ai = 21 then
    return .bool true
  else if ai = 22 then
    return .null
  else if ai = 23 then
    throw .unsupported
  else if ai = 24 then
    let _ ← takeByte
    throw .unsupported
  else if 25 ≤ ai ∧ ai ≤ 27 then
    throw .floatRejected
  else if ai = 31 then
    throw .indefinite
  else
    throw .unsupported

/-! ## Validation -/

/-- The entry loop of the validator: keys unique and ascending by their encoded bytes. -/
def skipEntries (skip : Cursor Unit) : ℕ → Option Bytes → List UInt64 → Cursor Unit
  | 0, _, _ => pure ()
  | n + 1, prevKeyEnc, seen => do
    let keyStart ← get
    let key ← readUint
    let rest ← get
    let keyEnc := keyStart.take (keyStart.length - rest.length)
    if key ∈ seen then throw .duplicateKey
    else if prevKeyEnc.any (fun prev => keyEnc ≤ prev) then throw .unsortedKeys
    else do
      skip
      skipEntries skip n (some keyEnc) (seen ++ [key])

/-- The branches of `skip_value`, with `skip` for the recursive call. -/
def skipBranch (skip : Cursor Unit) : ℕ → Cursor Unit
  | 0 | 1 => do
    let _ ← readHead
    return ()
  | 2 => do
    let _ ← readBstr
    return ()
  | 3 => do
    let _ ← readTstr
    return ()
  | 4 => do
    let n ← readArrayLen
    let _ ← times skip n
    return ()
  | 5 => do
    let n ← readMapLen
    skipEntries skip n none []
  | 6 => throw .tagRejected
  | 7 => do
    let _ ← readSimpleValue
    return ()
  | _ => throw .unsupported

/-- `skip_value` to nesting depth `fuel`. -/
def skipValueFuel : ℕ → Cursor Unit
  | 0 => throw .truncated
  | fuel + 1 => do
    let head ← peek
    skipBranch (skipValueFuel fuel) (head >>> 5).toNat

def skipValue : Cursor Unit := fun cur => skipValueFuel (cur.length + 1) cur

def readEnvelopeMap : Cursor Unit := do
  let head ← peek
  if head >>> 5 ≠ 5 then throw .notMap
  else do
    let n ← readMapLen
    skipEntries skipValue n none []

/-- Exactly one deterministic map, and nothing after it. -/
def validateDeterministicCborEnvelope (bytes : Bytes) : Except CborEnvelopeError Unit := do
  let ((), cur) ← readEnvelopeMap bytes
  if cur ≠ [] then throw .trailingBytes else return ()

def readEntry (read : Cursor CborValue) : Cursor (UInt64 × CborValue) := do
  let key ← readUint
  let val ← read
  return (key, val)

/-- The branches of `read_value`, with `read` for the recursive call. -/
def readBranch (read : Cursor CborValue) : ℕ → Cursor CborValue
  | 0 => do
    let n ← readUintAny
    return .uint n
  | 1 => do
    let (_, arg) ← readHead
    return .nint arg
  | 2 => do
    let data ← readBstr
    return .bytes data
  | 3 => do
    let data ← readTstr
    return .text data
  | 4 => do
    let n ← readArrayLen
    let items ← times read n
    return .array items
  | 5 => do
    let n ← readMapLen
    let items ← times (readEntry read) n
    return .map items
  | 6 => throw .tagRejected
  | 7 => readSimpleValue
  | _ => throw .unsupported

/-- `read_value` to nesting depth `fuel`. -/
def readValueFuel : ℕ → Cursor CborValue
  | 0 => throw .truncated
  | fuel + 1 => do
    let head ← peek
    readBranch (readValueFuel fuel) (head >>> 5).toNat

def readValue : Cursor CborValue := fun cur => readValueFuel (cur.length + 1) cur

/-- Decode a deterministic map: validate, then read the entries. -/
def decodeDeterministicUintMap (bytes : Bytes) :
    Except CborEnvelopeError (List (UInt64 × CborValue)) := do
  validateDeterministicCborEnvelope bytes
  let (n, cur) ← readMapLen bytes
  let (out, _) ← times (readEntry readValue) n cur
  return out

/-! ## Encoding -/

/-- Head of major type `major` with argument `arg`, in shortest form. -/
def writeTypeArg (major : UInt8) (arg : UInt64) : Bytes :=
  let mt := major <<< 5
  if arg ≤ 23 then [mt ||| arg.toUInt8]
  else if arg ≤ 0xff then (mt ||| 24) :: beBytes 1 arg.toNat
  else if arg ≤ 0xffff then (mt ||| 25) :: beBytes 2 arg.toNat
  else if arg ≤ 0xffffffff then (mt ||| 26) :: beBytes 4 arg.toNat
  else (mt ||| 27) :: beBytes 8 arg.toNat

def writeUint (n : UInt64) : Bytes := writeTypeArg 0 n

/-- `write_map_header`; `u64::try_from` on the length. -/
def writeMapHeader (len : ℕ) : Except CborEnvelopeError Bytes :=
  if len < 2 ^ 64 then .ok (writeTypeArg 5 (UInt64.ofNat len)) else .error .unsupported

def sortByKey {α : Type} (entries : List (UInt64 × α)) : List (UInt64 × α) :=
  entries.insertionSort fun a b => a.1 ≤ b.1

/-- Two neighbours of a sorted entry list share a key. -/
def hasDuplicateKey {α : Type} : List (UInt64 × α) → Bool
  | a :: b :: es => a.1 == b.1 || hasDuplicateKey (b :: es)
  | _ => false

/-- Keys and values of a sorted map, one after the other. -/
def writeSorted : List (UInt64 × Except CborEnvelopeError Bytes) →
    Except CborEnvelopeError Bytes
  | [] => .ok []
  | (k, v) :: es => do
    let bytes ← v
    let rest ← writeSorted es
    return writeUint k ++ bytes ++ rest

/-- `encode_deterministic_uint_map` on entries whose values are already written: sort, refuse
duplicates, write, and check the result. -/
def encodeWritten (entries : List (UInt64 × Except CborEnvelopeError Bytes)) :
    Except CborEnvelopeError Bytes := do
  let sorted := sortByKey entries
  if hasDuplicateKey sorted then throw .duplicateKey
  else do
    let header ← writeMapHeader sorted.length
    let body ← writeSorted sorted
    let out := header ++ body
    validateDeterministicCborEnvelope out
    return out

mutual

def writeValue : CborValue → Except CborEnvelopeError Bytes
  | .uint n => .ok (writeUint n)
  | .nint n => .ok (writeTypeArg 1 n)
  | .bytes b => .ok (writeTypeArg 2 (UInt64.ofNat b.length) ++ b)
  | .text s => .ok (writeTypeArg 3 (UInt64.ofNat s.utf8ByteSize) ++ s.toByteArray.data.toList)
  | .array items => do
    let bytes ← writeItems items
    return writeTypeArg 4 (UInt64.ofNat items.length) ++ bytes
  | .map entries => encodeWritten (writeEntries entries)
  | .bool false => .ok [0xf4]
  | .bool true => .ok [0xf5]
  | .null => .ok [0xf6]

def writeItems : List CborValue → Except CborEnvelopeError Bytes
  | [] => .ok []
  | v :: vs => do
    let bytes ← writeValue v
    let rest ← writeItems vs
    return bytes ++ rest

/-- Each value written, still paired with its key. -/
def writeEntries : List (UInt64 × CborValue) →
    List (UInt64 × Except CborEnvelopeError Bytes)
  | [] => []
  | (k, v) :: es => (k, writeValue v) :: writeEntries es

end

def encodeDeterministicUintMap (entries : List (UInt64 × CborValue)) :
    Except CborEnvelopeError Bytes := encodeWritten (writeEntries entries)

end Residiuum
