import Residiuum.Lib.Bytes

/-!
# CRC-32C and BLAKE3

Executable definitions of the two digests, for evaluating concrete inputs.

* `crc32c`, `crc32cAppend`: the reflected CRC with the Castagnoli polynomial.
* `blake3`: the unkeyed hash with 32 bytes of output: chunks of 1024 bytes in blocks of 64, and the
  binary tree over them.
-/

namespace DigestLib

open ByteLib

/-! ## CRC-32C -/

/-- One bit of the division by the reflected polynomial. -/
def crcBit (c : UInt32) : UInt32 :=
  if c &&& 1 = 1 then (c >>> 1) ^^^ 0x82f63b78 else c >>> 1

def crcByte (c : UInt32) (b : UInt8) : UInt32 :=
  crcBit (crcBit (crcBit (crcBit (crcBit (crcBit (crcBit (crcBit (c ^^^ b.toUInt32))))))))

def crcLoop (c : UInt32) : Bytes → UInt32
  | [] => c
  -- both branches are the same step; the test makes evaluation strict in the remainder
  | b :: data => if c = 0 then crcLoop (crcByte 0 b) data else crcLoop (crcByte c b) data

def crc32cAppend (crc : UInt32) (data : Bytes) : UInt32 :=
  crcLoop (crc ^^^ 0xffffffff) data ^^^ 0xffffffff

/-- The checksum of a byte string. -/
def crc32c (data : Bytes) : UInt32 := crc32cAppend 0 data

/-! ## BLAKE3: the compression function -/

def rotr (x n : UInt32) : UInt32 := (x >>> n) ||| (x <<< (32 - n))

/-- The quarter round on the words `a`, `b`, `c`, `d` of the state. -/
def quarter (s : List UInt32) (a b c d : ℕ) (x y : UInt32) : List UInt32 :=
  let va := s.getD a 0 + s.getD b 0 + x
  let vd := rotr (s.getD d 0 ^^^ va) 16
  let vc := s.getD c 0 + vd
  let vb := rotr (s.getD b 0 ^^^ vc) 12
  let va := va + vb + y
  let vd := rotr (vd ^^^ va) 8
  let vc := vc + vd
  let vb := rotr (vb ^^^ vc) 7
  (((s.set a va).set b vb).set c vc).set d vd

/-- One round: the columns, then the diagonals. -/
def round (s m : List UInt32) : List UInt32 :=
  let s := quarter s 0 4 8 12 (m.getD 0 0) (m.getD 1 0)
  let s := quarter s 1 5 9 13 (m.getD 2 0) (m.getD 3 0)
  let s := quarter s 2 6 10 14 (m.getD 4 0) (m.getD 5 0)
  let s := quarter s 3 7 11 15 (m.getD 6 0) (m.getD 7 0)
  let s := quarter s 0 5 10 15 (m.getD 8 0) (m.getD 9 0)
  let s := quarter s 1 6 11 12 (m.getD 10 0) (m.getD 11 0)
  let s := quarter s 2 7 8 13 (m.getD 12 0) (m.getD 13 0)
  quarter s 3 4 9 14 (m.getD 14 0) (m.getD 15 0)

/-- The message words of the next round. -/
def permute (m : List UInt32) : List UInt32 :=
  [2, 6, 3, 10, 7, 0, 4, 13, 1, 11, 12, 5, 9, 14, 15, 8].map fun i => m.getD i 0

def rounds : ℕ → List UInt32 → List UInt32 → List UInt32
  | 0, s, _ => s
  | n + 1, s, m => rounds n (round s m) (permute m)

/-- The initial chaining value. -/
def iv : List UInt32 :=
  [0x6a09e667, 0xbb67ae85, 0x3c6ef372, 0xa54ff53a, 0x510e527f, 0x9b05688c, 0x1f83d9ab, 0x5be0cd19]

/-- A call of the compression function. -/
structure Node where
  cv : List UInt32
  block : List UInt32
  counter : ℕ
  len : UInt32
  flags : UInt32

/-- The eight words a call returns. -/
def Node.compress (n : Node) : List UInt32 :=
  let s := rounds 7 (n.cv ++ iv.take 4 ++
    [UInt32.ofNat n.counter, UInt32.ofNat (n.counter / 2 ^ 32), n.len, n.flags]) n.block
  (List.range 8).map fun i => s.getD i 0 ^^^ s.getD (i + 8) 0

/-- The last call of the whole computation. -/
def Node.root (n : Node) : Node := { n with counter := 0, flags := n.flags ||| 8 }

def blockWords (block : Bytes) : List UInt32 :=
  (List.range 16).map fun i =>
    UInt32.ofNat (ofLe (slice (toArr 64 block).1 (4 * i) (4 * i + 4)))

/-- The last call of a chunk; `start` marks its first block. -/
def chunkNode (counter : ℕ) (cv : List UInt32) (start : UInt32) : List Bytes → Node
  | [] => ⟨cv, blockWords [], counter, 0, start ||| 2⟩
  | [block] => ⟨cv, blockWords block, counter, UInt32.ofNat block.length, start ||| 2⟩
  | block :: blocks =>
    chunkNode counter (Node.compress ⟨cv, blockWords block, counter, 64, start⟩) 0 blocks

/-- The last call of a subtree; the left part has the largest power of two of the chunks that
leaves one for the right part. -/
def treeNode : ℕ → ℕ → List Bytes → Node
  | fuel + 1, counter, chunk :: next :: rest =>
    let all := chunk :: next :: rest
    let k := 2 ^ Nat.log2 (all.length - 1)
    ⟨iv, (treeNode fuel counter (all.take k)).compress ++
      (treeNode fuel (counter + k) (all.drop k)).compress, 0, 64, 4⟩
  | _, counter, all => chunkNode counter iv 1 (chunks 64 (all.headD []))

def blake3 (data : Bytes) : Arr 32 :=
  let all := chunks 1024 data
  toArr 32 ((treeNode all.length 0 all).root.compress.flatMap fun w => leBytes 4 w.toNat)

example : crc32c [0x31, 0x32, 0x33, 0x34, 0x35, 0x36, 0x37, 0x38, 0x39] = 0xe3069283 := by
  decide +kernel

example : (blake3 []).1 =
    [0xaf, 0x13, 0x49, 0xb9, 0xf5, 0xf9, 0xa1, 0xa6, 0xa0, 0x40, 0x4d, 0xea, 0x36, 0xdc, 0xc9, 0x49,
      0x9b, 0xcb, 0x25, 0xc9, 0xad, 0xc1, 0x12, 0xb7, 0xcc, 0x9a, 0x93, 0xca, 0xe4, 0x1f, 0x32,
      0x62] := by
  decide +kernel

end DigestLib
