import Residiuum.Format.Frame

/-!
# Frames: lengths and layout

The prefix and the suffix are records: `prefixFields` and `suffixFields` list their fields in wire
order. Writing fills these records, reading returns their fields, and each CRC covers the record
with its own field zeroed.

* `encodePrefix_eq`, **`readPrefixFields_eq`**: the prefix round trip.
-/

namespace Residiuum

open List

open ByteLib Option UInt64

/-! ## Lengths -/

theorem checkedAdd_eq_some {a b n : UInt64} :
    checkedAdd a b = some n ↔ n.toNat = a.toNat + b.toNat := by
  rw [checkedAdd]
  split_ifs with h
  · have hab : (a + b).toNat = a.toNat + b.toNat := by
      rw [UInt64.toNat_add, Nat.mod_eq_of_lt h]
    rw [some_inj, ← UInt64.toNat_inj, hab, eq_comm]
  · have := n.toNat_lt
    exact ⟨nofun, fun h' => absurd (h' ▸ this) h⟩

variable {envelopeLen : UInt32} {bodyLen : UInt64}

theorem checkedFrameLen_eq_some {n : UInt64} : checkedFrameLen envelopeLen bodyLen = some n ↔
      n.toNat = 120 + envelopeLen.toNat + bodyLen.toNat := by
  have hfixed : checkedAdd 64 56 = some 120 := by decide
  have he := envelopeLen.toNat_lt
  have henv : checkedAdd 120 envelopeLen.toUInt64 = some (120 + envelopeLen.toUInt64) := by
    rw [checkedAdd, if_pos]
    rw [UInt32.toNat_toUInt64]
    change 120 + _ < _
    omega
  have hsum := checkedAdd_eq_some.mp henv
  rw [UInt32.toNat_toUInt64] at hsum
  simp only [checkedFrameLen, hfixed, henv, bind_eq_bind, bind_some]
  rw [checkedAdd_eq_some, hsum]
  rfl

/-- Lengths within the limits, as numbers. -/
def SafetyLimits.Accepts (limits : SafetyLimits) (envelopeLen bodyLen : ℕ) : Prop :=
  envelopeLen ≤ limits.maxEnvelopeLen.toNat ∧ bodyLen ≤ limits.maxBodyLen.toNat ∧
    120 + envelopeLen + bodyLen ≤ limits.maxFrameLen.toNat

theorem acceptsLengths_iff {limits : SafetyLimits} :
    limits.acceptsLengths envelopeLen bodyLen = true ↔
      limits.Accepts envelopeLen.toNat bodyLen.toNat := by
  have hm := limits.maxFrameLen.toNat_lt
  rw [SafetyLimits.acceptsLengths, SafetyLimits.Accepts]
  split_ifs with h
  · simp only [GT.gt, UInt32.lt_iff_toNat_lt, lt_iff_toNat_lt] at h
    simp only [false_iff]
    omega
  simp only [GT.gt, UInt32.lt_iff_toNat_lt, lt_iff_toNat_lt] at h
  cases hc : checkedFrameLen envelopeLen bodyLen with
  | some n =>
    rw [checkedFrameLen_eq_some] at hc
    simp only [decide_eq_true_eq, le_iff_toNat_le, hc]
    omega
  | none =>
    simp only [Bool.false_eq_true, false_iff]
    intro hacc
    have hn : (UInt64.ofNat (120 + envelopeLen.toNat + bodyLen.toNat)).toNat =
        120 + envelopeLen.toNat + bodyLen.toNat :=
      toNat_ofNat_of_lt' (by change _ < 2 ^ 64; omega)
    rw [checkedFrameLen_eq_some.mpr hn] at hc
    cases hc

/-! ## The prefix -/

def prefixFields (h : FrameHeader) (crc : Bytes) : List Bytes :=
  [START_MAGIC, [h.wireMajor], [h.wireMinor], [h.frameKind], [h.flags.raw],
    leBytes 4 h.envelopeLen.toNat, leBytes 8 h.bodyLen.toNat, leBytes 8 h.logicalLen.toNat,
    leBytes 8 h.writerSequence.toNat, h.eventId.1, crc, [0, 0, 0, 0]]

variable {crc crc' : Bytes} (h : FrameHeader)

theorem length_prefixFields (hc : crc.length = 4) : (prefixFields h crc).flatten.length = 64 := by
  simp [prefixFields, START_MAGIC, hc, h.eventId.2]

theorem writePrefixFields_eq : writePrefixFields (replicate FRAME_PREFIX_LEN 0) h =
      (prefixFields h [0, 0, 0, 0]).flatten := by
  have hid := h.eventId.2
  have hz : replicate FRAME_PREFIX_LEN (0 : UInt8) = [] ++ replicate 64 0 := rfl
  rw [hz]
  simp (disch := simp [START_MAGIC, hid]) only [writePrefixFields, copyAt_append_replicate]
  simp [prefixFields, START_MAGIC, hid]

theorem copyAt_prefixCrc (hc : crc.length = 4) (hc' : crc'.length = 4) :
    copyAt (prefixFields h crc).flatten 56 crc' = (prefixFields h crc').flatten :=
  copyAt_field (prefixFields h crc) crc' (i := 10) (by simp [prefixFields])
    (by simp [prefixFields, fieldOffset, START_MAGIC, h.eventId.2]) (hc.trans hc'.symm)

/-- The CRC a prefix must carry; it does not depend on what the CRC field holds. -/
def prefixCrc (R : Runtime) (h : FrameHeader) (envelope : Bytes) : UInt32 :=
  R.crc32cAppend (R.crc32c (prefixFields h [0, 0, 0, 0]).flatten) envelope

theorem prefixCrc32c_eq (R : Runtime) (h : FrameHeader) (envelope : Bytes) (hc : crc.length = 4) :
    prefixCrc32c R (prefixFields h crc).flatten envelope = prefixCrc R h envelope := by
  rw [prefixCrc32c, copyAt_prefixCrc h hc rfl, prefixCrc]

theorem encodePrefix_eq (R : Runtime) (h : FrameHeader) (envelope : Bytes) :
    encodePrefix R h envelope =
      (prefixFields h (leBytes 4 (prefixCrc R h envelope).toNat)).flatten := by
  simp only [encodePrefix, writePrefixFields_eq]
  rw [prefixCrc32c_eq R h envelope rfl, copyAt_prefixCrc h rfl (length_leBytes _ _)]

theorem length_encodePrefix (R : Runtime) (h : FrameHeader) (envelope : Bytes) :
    (encodePrefix R h envelope).length = 64 := by
  rw [encodePrefix_eq, length_prefixFields h (length_leBytes _ _)]

theorem slice_prefixCrc (hc : crc.length = 4) : slice (prefixFields h crc).flatten 56 60 = crc :=
  slice_field (prefixFields h crc) (i := 10) (by simp [prefixFields])
    (by simp [prefixFields, fieldOffset, START_MAGIC, h.eventId.2]) (by simp [prefixFields, hc])

theorem readPrefixFields_eq (crc : Bytes) : readPrefixFields (prefixFields h crc).flatten = h := by
  have hid := h.eventId.2
  have field : ∀ {i a b : ℕ} (hi : i < (prefixFields h crc).length),
      fieldOffset (prefixFields h crc) i = a → a + (prefixFields h crc)[i].length = b →
      slice (prefixFields h crc).flatten a b = (prefixFields h crc)[i] :=
    fun hi => slice_field _ hi
  have hlt : 9 < (prefixFields h crc).length := by simp [prefixFields]
  have h5 := field (i := 5) (a := 12) (b := 16) (by omega) rfl rfl
  have h6 := field (i := 6) (a := 16) (b := 24) (by omega) rfl rfl
  have h7 := field (i := 7) (a := 24) (b := 32) (by omega) rfl rfl
  have h8 := field (i := 8) (a := 32) (b := 40) (by omega) rfl rfl
  have h9 := field (i := 9) (a := 40) (b := 56) (by omega) rfl (by simp [prefixFields, hid])
  simp only [readPrefixFields, h5, h6, h7, h8, h9]
  simp only [prefixFields, getElem_cons_succ, getElem_cons_zero]
  rw [ofLe_leBytes_u32, ofLe_leBytes_u64, ofLe_leBytes_u64, ofLe_leBytes_u64, toArr_val]
  simp [START_MAGIC]

theorem slice_startMagic (crc : Bytes) : slice (prefixFields h crc).flatten 0 8 = START_MAGIC :=
  slice_field (prefixFields h crc) (i := 0) (by simp [prefixFields]) rfl rfl

/-! ## The suffix -/

def suffixFields (frameLen : UInt64) (hash : Arr 32) (crc : Bytes) : List Bytes :=
  [END_MAGIC, leBytes 8 frameLen.toNat, hash.1, crc, [0, 0, 0, 0]]

def suffixCrc (R : Runtime) (frameLen : UInt64) (hash : Arr 32) : UInt32 :=
  R.crc32c (suffixFields frameLen hash [0, 0, 0, 0]).flatten

section Suffix

variable (frameLen : UInt64) (hash : Arr 32) {crc : Bytes} (hc : crc.length = 4)

include hc in
theorem length_suffixFields : (suffixFields frameLen hash crc).flatten.length = 56 := by
  simp [suffixFields, END_MAGIC, hc, hash.2]

include hc in
theorem copyAt_suffixCrc (hc' : crc'.length = 4) :
    copyAt (suffixFields frameLen hash crc).flatten 48 crc' =
      (suffixFields frameLen hash crc').flatten :=
  copyAt_field (suffixFields frameLen hash crc) crc' (i := 3) (by simp [suffixFields])
    (by simp [suffixFields, fieldOffset, END_MAGIC, hash.2]) (hc.trans hc'.symm)

include hc in
theorem suffixCrc32c_eq (R : Runtime) :
    suffixCrc32c R (suffixFields frameLen hash crc).flatten = suffixCrc R frameLen hash := by
  rw [suffixCrc32c, copyAt_suffixCrc frameLen hash hc rfl, suffixCrc]

theorem encodeSuffix_eq (R : Runtime) : encodeSuffix R frameLen hash =
    (suffixFields frameLen hash (leBytes 4 (suffixCrc R frameLen hash).toNat)).flatten := by
  have hz : replicate FRAME_SUFFIX_LEN (0 : UInt8) = [] ++ replicate 56 0 := rfl
  have hfill : copyAt (copyAt (copyAt (replicate FRAME_SUFFIX_LEN 0) 0 END_MAGIC) 8
      (leBytes 8 frameLen.toNat)) 16 hash.1 =
      (suffixFields frameLen hash [0, 0, 0, 0]).flatten := by
    rw [hz]
    simp (disch := simp [END_MAGIC, hash.2]) only [copyAt_append_replicate]
    simp [suffixFields, END_MAGIC, hash.2]
  simp only [encodeSuffix, hfill]
  rw [suffixCrc32c_eq frameLen hash rfl, copyAt_suffixCrc frameLen hash rfl (length_leBytes _ _)]

theorem length_encodeSuffix (R : Runtime) : (encodeSuffix R frameLen hash).length = 56 := by
  rw [encodeSuffix_eq, length_suffixFields frameLen hash (length_leBytes _ _)]

theorem slice_endMagic (crc : Bytes) :
    slice (suffixFields frameLen hash crc).flatten 0 8 = END_MAGIC :=
  slice_field (suffixFields frameLen hash crc) (i := 0) (by simp [suffixFields]) rfl rfl

theorem slice_suffixLen (crc : Bytes) :
    slice (suffixFields frameLen hash crc).flatten 8 16 = leBytes 8 frameLen.toNat :=
  slice_field (suffixFields frameLen hash crc) (i := 1) (by simp [suffixFields]) rfl rfl

theorem slice_suffixHash (crc : Bytes) :
    slice (suffixFields frameLen hash crc).flatten 16 48 = hash.1 :=
  slice_field (suffixFields frameLen hash crc) (i := 2) (by simp [suffixFields]) rfl
    (by simp [suffixFields, hash.2])

include hc in
theorem slice_suffixCrc : slice (suffixFields frameLen hash crc).flatten 48 52 = crc :=
  slice_field (suffixFields frameLen hash crc) (i := 3) (by simp [suffixFields])
    (by simp [suffixFields, fieldOffset, END_MAGIC, hash.2]) (by simp [suffixFields, hc])

end Suffix

end Residiuum
