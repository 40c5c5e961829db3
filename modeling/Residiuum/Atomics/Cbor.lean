import Residiuum.Format.Cbor

/-!
# The CBOR profile of atomic evidence

The codec of `residiuum-atomics/src/cbor.rs`. It keeps its own copy of the deterministic rules: no
text, no simple values, and a bound on the nesting depth instead of the fuel of the envelope codec.
`write_type_arg` and the sort by key are those of the envelope codec.

* `decodeMap`, `encodeMap`: a whole record, checked by `validateMap` on both sides.
-/

namespace Residiuum.Atomics

open ByteLib

/-! ## Errors -/

/-- Failures of the deterministic rules. -/
inductive CborError where
  | truncated
  | trailingBytes
  | notMap
  | indefinite
  | nonShortest
  | duplicateKey
  | unsortedKeys
  | nonUintKey
  | unsupported
  | tagRejected
  | depthExceeded
  deriving DecidableEq, Repr

/-- The structural refusals of the modelled functions. -/
inductive AtomicRefuseReason where
  | malformedInput
  | unsupportedProfile
  | scopeUnavailable
  | duplicateTarget
  | crossHeapCollection
  | invalidValue
  | unknownMutationKind
  | unsupportedPredicate
  | limitExceeded
  | atomicIdConflict
  deriving DecidableEq, Repr

/-- Why a call is refused or bytes are not read. -/
inductive AtomicsError where
  | invalidIdentity (label : String)
  | cbor (e : CborError)
  | refused (reason : AtomicRefuseReason)
  deriving DecidableEq, Repr

/-- Maximum nested map or array depth. -/
def MAX_CBOR_DEPTH : ℕ := 8

/-- The values of a record; `nint n` stands for `-1 - n`. -/
inductive Value where
  | uint (n : UInt64)
  | nint (n : UInt64)
  | bytes (b : Bytes)
  | array (items : List Value)
  | map (entries : List (UInt64 × Value))

/-- The entries of a map, in wire order. -/
abbrev Map : Type := List (UInt64 × Value)

/-! ## The cursor -/

/-- A read at the cursor; the state is what is left to read. -/
abbrev Cursor (α : Type) : Type := Step UInt8 AtomicsError α

def take (n : ℕ) : Cursor Bytes := fun cur =>
  if cur.length < n then .error (.cbor .truncated) else .ok (cur.take n, cur.drop n)

def takeByte : Cursor UInt8
  | [] => .error (.cbor .truncated)
  | b :: cur => .ok (b, cur)

/-- The next byte, not consumed. -/
def peek : Cursor UInt8
  | [] => .error (.cbor .truncated)
  | b :: cur => .ok (b, b :: cur)

/-- A multi-byte argument of width `w`, which must be at least `least` to be shortest. -/
def readArg (w least : ℕ) : Cursor UInt64 := do
  let raw ← take w
  if ofBe raw < least then throw (.cbor .nonShortest) else return UInt64.ofNat (ofBe raw)

/-- `read_head`: major type and argument, in shortest form. -/
def readHead : Cursor (UInt8 × UInt64) := do
  let head ← takeByte
  let major := head >>> 5
  let ai := head &&& 0x1f
  if ai ≤ 23 then
    return (major, ai.toUInt64)
  else if ai = 24 then
    return (major, ← readArg 1 24)
  else if ai = 25 then
    return (major, ← readArg 2 256)
  else if ai = 26 then
    return (major, ← readArg 4 65536)
  else if ai = 27 then
    return (major, ← readArg 8 0x100000000)
  else if ai = 31 then
    throw (.cbor .indefinite)
  else
    throw (.cbor .unsupported)

/-- `bound_len`: a declared length must fit the bytes that remain, at `minItem` each. -/
def boundLen (arg : UInt64) (minItem : ℕ) : Cursor ℕ := fun cur =>
  if arg.toNat > cur.length / max minItem 1 then .error (.cbor .truncated)
  else .ok (arg.toNat, cur)

def readMapLen : Cursor ℕ := do
  let (major, arg) ← readHead
  if major ≠ 5 then throw (.cbor .notMap) else boundLen arg 2

/-- `read_uint`: a map key, or an unsigned value. -/
def readUint : Cursor UInt64 := do
  let (major, arg) ← readHead
  if major ≠ 0 then throw (.cbor .nonUintKey) else return arg

/-- The entry loop of `skip_map` and `read_canonical_map`: keys unique and ascending by their
encoded bytes, values by `read`. -/
def readCanonicalEntries (read : Cursor Value) :
    ℕ → Option Bytes → List UInt64 → Cursor Map
  | 0, _, _ => pure []
  | n + 1, prev, seen => do
    let start ← get
    let key ← readUint
    let rest ← get
    let enc := start.take (start.length - rest.length)
    if key ∈ seen then throw (.cbor .duplicateKey)
    else if prev.any (fun p => enc ≤ p) then throw (.cbor .unsortedKeys)
    else do
      let val ← read
      let items ← readCanonicalEntries read n (some enc) (seen ++ [key])
      return (key, val) :: items

/-- The branches of `read_value`, with `read` for the recursive call one level down. -/
def readBranch (read : Cursor Value) : ℕ → Cursor Value
  | 0 => do
    let n ← readUint
    return .uint n
  | 1 => do
    let (_, arg) ← readHead
    return .nint arg
  | 2 => do
    let (_, arg) ← readHead
    let data ← take arg.toNat
    return .bytes data
  | 4 => do
    let (_, arg) ← readHead
    let n ← boundLen arg 1
    let items ← times read n
    return .array items
  | 5 => do
    let n ← readMapLen
    let items ← readCanonicalEntries read n none []
    return .map items
  | 6 => throw (.cbor .tagRejected)
  | _ => throw (.cbor .unsupported)

/-- `read_value` with `left` nesting levels left. -/
def readValueLeft : ℕ → Cursor Value
  | 0 => throw (.cbor .depthExceeded)
  | left + 1 => do
    let head ← peek
    readBranch (readValueLeft left) (head >>> 5).toNat

def readValue (depth : ℕ) : Cursor Value := readValueLeft (MAX_CBOR_DEPTH + 1 - depth)

/-! ## Records -/

/-- `validate_map`: one canonical map and nothing after it; `skip_map(0)` reads its values at
depth 0. -/
def validateMap (bytes : Bytes) : Except AtomicsError Unit := do
  let (n, cur) ← readMapLen bytes
  let (_, cur) ← readCanonicalEntries (readValue 0) n none [] cur
  if cur ≠ [] then throw (.cbor .trailingBytes) else return ()

/-- One entry of `decode_map`; its value is read at depth 1. -/
def readEntry : Cursor (UInt64 × Value) := do
  let key ← readUint
  let val ← readValue 1
  return (key, val)

def decodeMap (bytes : Bytes) : Except AtomicsError Map := do
  validateMap bytes
  let (n, cur) ← readMapLen bytes
  let (out, cur) ← times readEntry n cur
  if cur ≠ [] then throw (.cbor .trailingBytes) else return out

/-- Keys and values of a sorted map, one after the other. -/
def writeSorted : List (UInt64 × Except AtomicsError Bytes) →
    Except AtomicsError Bytes
  | [] => .ok []
  | (k, v) :: es => do
    let bytes ← v
    let rest ← writeSorted es
    return writeTypeArg 0 k ++ bytes ++ rest

/-- `encode_map` on entries whose values are already written. -/
def encodeWritten (entries : List (UInt64 × Except AtomicsError Bytes)) :
    Except AtomicsError Bytes := do
  let sorted := sortByKey entries
  if hasDuplicateKey sorted then throw (.cbor .duplicateKey)
  else do
    let body ← writeSorted sorted
    let out := writeTypeArg 5 (UInt64.ofNat sorted.length) ++ body
    validateMap out
    return out

mutual

def writeValue : Value → Except AtomicsError Bytes
  | .uint n => .ok (writeTypeArg 0 n)
  | .nint n => .ok (writeTypeArg 1 n)
  | .bytes b => .ok (writeTypeArg 2 (UInt64.ofNat b.length) ++ b)
  | .array items => do
    let bytes ← writeItems items
    return writeTypeArg 4 (UInt64.ofNat items.length) ++ bytes
  | .map entries => encodeWritten (writeEntries entries)

def writeItems : List Value → Except AtomicsError Bytes
  | [] => .ok []
  | v :: vs => do
    let bytes ← writeValue v
    let rest ← writeItems vs
    return bytes ++ rest

/-- Each value written, still paired with its key. -/
def writeEntries : List (UInt64 × Value) → List (UInt64 × Except AtomicsError Bytes)
  | [] => []
  | (k, v) :: es => (k, writeValue v) :: writeEntries es

end

def encodeMap (entries : Map) : Except AtomicsError Bytes :=
  encodeWritten (writeEntries entries)

end Residiuum.Atomics
