import Residiuum.Format.Cbor

/-!
# Deterministic CBOR envelopes: heads, strings and simple values

Each primitive read succeeds exactly on the bytes the encoder writes for its result.

* **`readHead_eq_ok`**: a head reads as `(m, a)` iff it is `writeTypeArg m a`, so only shortest
  forms are read.
* **`writeUint_lt_iff`**: encoded keys sort by bytes as the keys sort by value.
-/

namespace Residiuum

open UInt64

open ByteLib List Nat Prod UInt64 UInt8

/-! ## Reads at the cursor -/

variable {n : ℕ} {cur x r : Bytes} {m : UInt8} {wrong : CborEnvelopeError} {a k : UInt64}
  {w least c : ℕ} {s : String} {b : UInt8}

theorem take_eq_ok : (take n).run cur = .ok (x, r) ↔ x.length = n ∧ cur = x ++ r := by
  change (if cur.length < n then Except.error _ else Except.ok (cur.take n, cur.drop n)) = _ ↔ _
  split_ifs with h
  · simp only [false_iff, not_and]
    rintro rfl rfl
    simp at h
  · rw [Except.ok.injEq, Prod.mk.injEq]
    constructor
    · rintro ⟨rfl, rfl⟩
      exact ⟨by rw [length_take]; omega, (take_append_drop n cur).symm⟩
    · rintro ⟨rfl, rfl⟩
      exact ⟨take_left, drop_left⟩

theorem takeByte_eq_ok : takeByte.run cur = .ok (b, r) ↔ cur = b :: r := by
  cases cur with
  | nil | cons c cur => simp [takeByte, StateT.run]

theorem peek_eq_ok : peek.run cur = .ok (b, r) ↔ r = cur ∧ ∃ t, cur = b :: t := by
  cases cur with
  | nil => simp [peek, StateT.run]
  | cons c cur => simp [peek, StateT.run, and_comm, eq_comm]

theorem readArg_eq_ok (hw : w ≤ 8) : (readArg w least).run cur = .ok (a, r) ↔
      least ≤ a.toNat ∧ a.toNat < 256 ^ w ∧ cur = beBytes w a.toNat ++ r := by
  have hpow : (256 : ℕ) ^ w ≤ 256 ^ 8 := Nat.pow_le_pow_right (by norm_num) hw
  simp only [readArg, run_bind_eq_ok, take_eq_ok, run_ite]
  constructor
  · rintro ⟨raw, r', ⟨hlen, rfl⟩, h⟩
    split_ifs at h with hl
    · exact (run_throw_eq_ok.mp h).elim
    · cases run_pure_eq_ok.mp h
      have hlt := ofBe_lt raw
      rw [hlen] at hlt
      have hval : (UInt64.ofNat (ofBe raw)).toNat = ofBe raw :=
        toNat_ofNat_of_lt' (lt_of_lt_of_le hlt (by simpa using hpow))
      rw [hval]
      exact ⟨by omega, hlt, by rw [← hlen, beBytes_ofBe]⟩
  · rintro ⟨hl, hlt, rfl⟩
    refine ⟨beBytes w a.toNat, r, ⟨length_beBytes _ _, rfl⟩, ?_⟩
    rw [ofBe_beBytes, mod_eq_of_lt hlt, if_neg (by omega), UInt64.ofNat_toNat]
    rfl

set_option maxRecDepth 4000 in
private theorem head_table : ∀ i : Fin 256,
    ((UInt8.ofNat i.val >>> 5) <<< 5) ||| (UInt8.ofNat i.val &&& 0x1f) = UInt8.ofNat i.val ∧
      UInt8.ofNat i.val >>> 5 < 8 ∧ UInt8.ofNat i.val &&& 0x1f < 32 := by
  decide

set_option maxRecDepth 4000 in
private theorem head_table' : ∀ m : Fin 8, ∀ a : Fin 32,
    ((UInt8.ofNat m.val <<< 5) ||| UInt8.ofNat a.val) >>> 5 = UInt8.ofNat m.val ∧
      ((UInt8.ofNat m.val <<< 5) ||| UInt8.ofNat a.val) &&& 0x1f = UInt8.ofNat a.val := by
  decide

theorem head_split (h : UInt8) :
    ((h >>> 5) <<< 5) ||| (h &&& 0x1f) = h ∧ h >>> 5 < 8 ∧ h &&& 0x1f < 32 := by
  simpa using head_table ⟨h.toNat, h.toNat_lt⟩

theorem head_join {a : UInt8} (hm : m < 8) (ha : a < 32) :
    ((m <<< 5) ||| a) >>> 5 = m ∧ ((m <<< 5) ||| a) &&& 0x1f = a := by
  simpa using head_table' ⟨m.toNat, lt_iff_toNat_lt.mp hm⟩
    ⟨a.toNat, lt_iff_toNat_lt.mp ha⟩

theorem writeTypeArg_eq (m : UInt8) (a : UInt64) : writeTypeArg m a =
    if a.toNat ≤ 23 then [(m <<< 5) ||| a.toUInt8]
    else if a.toNat ≤ 255 then ((m <<< 5) ||| 24) :: beBytes 1 a.toNat
    else if a.toNat ≤ 65535 then ((m <<< 5) ||| 25) :: beBytes 2 a.toNat
    else if a.toNat ≤ 4294967295 then ((m <<< 5) ||| 26) :: beBytes 4 a.toNat
    else ((m <<< 5) ||| 27) :: beBytes 8 a.toNat := by
  simp only [writeTypeArg, UInt64.le_iff_toNat_le]
  rfl

theorem readWide_eq_ok (hw : w ≤ 8) {k : UInt8} :
    (readArg w least >>= fun x => pure (k, x) : Cursor _).run cur = .ok ((m, a), r) ↔
      m = k ∧ least ≤ a.toNat ∧ a.toNat < 256 ^ w ∧ cur = beBytes w a.toNat ++ r := by
  simp only [run_bind_eq_ok, readArg_eq_ok hw, run_pure_eq_ok, Prod.mk.injEq]
  constructor
  · rintro ⟨x, r1, ⟨hl, hu, rfl⟩, ⟨rfl, rfl⟩, rfl⟩
    exact ⟨rfl, hl, hu, rfl⟩
  · rintro ⟨rfl, hl, hu, rfl⟩
    exact ⟨a, r, ⟨hl, hu, rfl⟩, ⟨rfl, rfl⟩, rfl⟩

theorem readHead_eq_ok :
    readHead.run cur = .ok ((m, a), r) ↔ m < 8 ∧ cur = writeTypeArg m a ++ r := by
  have hlt := a.toNat_lt
  simp only [readHead, run_bind_eq_ok, takeByte_eq_ok]
  constructor
  · rintro ⟨h, r', rfl, hrun⟩
    obtain ⟨hj, hm, -⟩ := head_split h
    simp only [run_ite] at hrun
    split_ifs at hrun with h0
    any_goals exact (run_throw_eq_ok.mp hrun).elim
    · obtain ⟨⟨rfl, rfl⟩, rfl⟩ := by simpa only [Prod.mk.injEq] using run_pure_eq_ok.mp hrun
      have h0' := le_iff_toNat_le.mp h0
      refine ⟨hm, ?_⟩
      rw [writeTypeArg_eq, if_pos (by simpa using h0'), toUInt8_toUInt64, hj]
      rfl
    all_goals
      obtain ⟨rfl, hl, hu, rfl⟩ := (readWide_eq_ok (by norm_num)).mp hrun
      rw [‹h &&& 0x1f = _›] at hj
      refine ⟨hm, ?_⟩
      rw [writeTypeArg_eq, if_neg (by omega)]
      split_ifs <;> first | omega | rw [hj]; rfl
  · rintro ⟨hm, rfl⟩
    rw [writeTypeArg_eq]
    split_ifs with h0 h1 h2 h3
    · have ha : a.toUInt8 ≤ 23 := by
        rw [UInt8.le_iff_toNat_le, UInt64.toNat_toUInt8]
        exact (mod_le _ _).trans h0
      obtain ⟨e1, e2⟩ := head_join hm (UInt8.lt_of_le_of_lt ha (by decide))
      have hval : a.toUInt8.toUInt64 = a := by
        rw [← UInt64.toNat_inj, UInt8.toNat_toUInt64, toNat_toUInt8]
        omega
      refine ⟨_, r, rfl, ?_⟩
      rw [e1, e2, run_ite, if_pos ha, hval]
      rfl
    all_goals
      refine ⟨_, _, rfl, ?_⟩
      rw [(head_join hm ?_).1, (head_join hm ?_).2]
      · exact (readWide_eq_ok (by norm_num)).mpr ⟨rfl, by omega, by omega, rfl⟩
      all_goals decide

theorem length_writeTypeArg_pos (m : UInt8) (a : UInt64) : 0 < (writeTypeArg m a).length := by
  rw [writeTypeArg_eq]
  split_ifs <;> simp

theorem writeTypeArg_head (hm : m < 8) (a : UInt64) :
    ∃ h t, writeTypeArg m a = h :: t ∧ h >>> 5 = m := by
  obtain ⟨h, t, ht⟩ := exists_cons_of_length_pos (length_writeTypeArg_pos m a)
  refine ⟨h, t, ht, ?_⟩
  rw [writeTypeArg_eq] at ht
  split_ifs at ht with h0 h1 h2 h3
  · cases ht
    refine (head_join hm ?_).1
    rw [UInt8.lt_iff_toNat_lt, UInt64.toNat_toUInt8]
    exact lt_of_le_of_lt ((mod_le _ _).trans h0) (by decide)
  all_goals
    cases ht
    exact (head_join hm (by decide)).1

theorem readHeadOf_eq_ok (hm : m < 8)
    : (readHeadOf m wrong).run cur = .ok (a, r) ↔ cur = writeTypeArg m a ++ r := by
  simp only [readHeadOf, run_bind_eq_ok]
  constructor
  · rintro ⟨⟨m', a'⟩, r', h1, h2⟩
    obtain ⟨-, rfl⟩ := readHead_eq_ok.mp h1
    simp only [run_ite] at h2
    split_ifs at h2 with hne
    · exact (run_throw_eq_ok.mp h2).elim
    · cases run_pure_eq_ok.mp h2
      rw [not_not.mp hne]
  · rintro rfl
    refine ⟨(m, a), r, readHead_eq_ok.mpr ⟨hm, rfl⟩, ?_⟩
    simp only [ne_eq, not_true_eq_false, if_false]
    rfl

theorem readUint_eq_ok : readUint.run cur = .ok (k, r) ↔ cur = writeUint k ++ r :=
  readHeadOf_eq_ok (by decide)

theorem boundCollectionLen_eq_ok (hc : 0 < c) : (boundCollectionLen a c).run cur = .ok (n, r) ↔
      n = a.toNat ∧ n * c ≤ cur.length ∧ r = cur := by
  have hmax : max c 1 = c := by omega
  change (if _ then _ else _) = _ ↔ _
  rw [hmax]
  split_ifs with h
  · simp only [false_iff]
    rintro ⟨rfl, hle, -⟩
    exact absurd h (not_lt.mpr ((Nat.le_div_iff_mul_le hc).mpr hle))
  · rw [Except.ok.injEq, Prod.mk.injEq]
    constructor
    · rintro ⟨rfl, rfl⟩
      exact ⟨rfl, (Nat.le_div_iff_mul_le hc).mp (not_lt.mp h), rfl⟩
    · rintro ⟨rfl, -, rfl⟩
      exact ⟨rfl, rfl⟩

theorem readLen_eq_ok (hm : m < 8) (hc : 0 < c) :
    (readHeadOf m wrong >>= fun a => boundCollectionLen a c : Cursor ℕ).run cur = .ok (n, r) ↔
      n < 2 ^ 64 ∧ n * c ≤ r.length ∧ cur = writeTypeArg m (ofNat n) ++ r := by
  simp only [run_bind_eq_ok, readHeadOf_eq_ok hm, boundCollectionLen_eq_ok hc]
  constructor
  · rintro ⟨a, r', rfl, rfl, hle, rfl⟩
    exact ⟨a.toNat_lt, hle, by rw [UInt64.ofNat_toNat]⟩
  · rintro ⟨hn, hle, rfl⟩
    exact ⟨ofNat n, r, rfl, (toNat_ofNat_of_lt' hn).symm, hle, rfl⟩

theorem readArrayLen_eq_ok : readArrayLen.run cur = .ok (n, r) ↔
    n < 2 ^ 64 ∧ n * 1 ≤ r.length ∧ cur = writeTypeArg 4 (ofNat n) ++ r :=
  readLen_eq_ok (by decide) one_pos

theorem readMapLen_eq_ok : readMapLen.run cur = .ok (n, r) ↔
    n < 2 ^ 64 ∧ n * 2 ≤ r.length ∧ cur = writeTypeArg 5 (ofNat n) ++ r :=
  readLen_eq_ok (by decide) two_pos

theorem readRaw_eq_ok (hm : m < 8) :
    (readHeadOf m wrong >>= fun a => take a.toNat : Cursor Bytes).run cur = .ok (x, r) ↔
      x.length < 2 ^ 64 ∧ cur = writeTypeArg m (ofNat x.length) ++ x ++ r := by
  simp only [run_bind_eq_ok, readHeadOf_eq_ok hm, take_eq_ok]
  constructor
  · rintro ⟨a, r', rfl, hx, rfl⟩
    exact ⟨hx ▸ a.toNat_lt, by rw [hx, UInt64.ofNat_toNat, append_assoc]⟩
  · rintro ⟨hx, rfl⟩
    exact ⟨ofNat x.length, x ++ r, by rw [append_assoc],
      (toNat_ofNat_of_lt' hx).symm, rfl⟩

theorem readBstr_eq_ok : readBstr.run cur = .ok (x, r) ↔
    x.length < 2 ^ 64 ∧ cur = writeTypeArg 2 (ofNat x.length) ++ x ++ r :=
  readRaw_eq_ok (by decide)

theorem fromUtf8_eq_some {raw : Bytes} :
    fromUtf8 raw = some s ↔ raw = s.toByteArray.data.toList := by
  have hback : ∀ b : ByteArray, b.data.toList.toByteArray = b := fun b => by
    apply ByteArray.ext
    rw [data_toByteArray]
  rw [fromUtf8, String.fromUTF8?]
  constructor
  · intro h
    split_ifs at h with hv
    · rw [← Option.some.inj h]
      exact toList_data_toByteArray.symm
  · rintro rfl
    rw [hback, dif_pos s.isValidUTF8]
    rfl

theorem length_utf8 (s : String) : s.toByteArray.data.toList.length = s.utf8ByteSize := by
  rw [← String.size_toByteArray]
  rfl

theorem readTstr_eq_ok : readTstr.run cur = .ok (s, r) ↔ s.utf8ByteSize < 2 ^ 64 ∧
      cur = writeTypeArg 3 (ofNat s.utf8ByteSize) ++ s.toByteArray.data.toList ++ r := by
  unfold readTstr
  rw [← bind_assoc, run_bind_eq_ok]
  constructor
  · rintro ⟨raw, r', h1, h2⟩
    obtain ⟨hlen, rfl⟩ := (readRaw_eq_ok (by decide)).mp h1
    cases hs : fromUtf8 raw with
    | none =>
      rw [hs] at h2
      exact (run_throw_eq_ok.mp h2).elim
    | some s' =>
      rw [hs] at h2
      cases run_pure_eq_ok.mp h2
      obtain rfl := fromUtf8_eq_some.mp hs
      rw [length_utf8] at hlen ⊢
      exact ⟨hlen, rfl⟩
  · rintro ⟨hlen, rfl⟩
    refine ⟨s.toByteArray.data.toList, r, (readRaw_eq_ok (by decide)).mpr ?_, ?_⟩
    · rw [length_utf8]
      exact ⟨hlen, rfl⟩
    · rw [fromUtf8_eq_some.mpr rfl]
      rfl

set_option maxRecDepth 4000 in
private theorem simple_table : ∀ i : Fin 256, UInt8.ofNat i.val >>> 5 = 7 →
    ((UInt8.ofNat i.val &&& 0x1f = 20 ↔ UInt8.ofNat i.val = 0xf4) ∧
      (UInt8.ofNat i.val &&& 0x1f = 21 ↔ UInt8.ofNat i.val = 0xf5) ∧
      (UInt8.ofNat i.val &&& 0x1f = 22 ↔ UInt8.ofNat i.val = 0xf6)) := by
  decide

theorem readSimpleValue_eq_ok {h : UInt8} (hh : h >>> 5 = 7) {v : CborValue} :
    readSimpleValue.run (h :: cur) = .ok (v, r) ↔ r = cur ∧
      ((h = 0xf4 ∧ v = .bool false) ∨ (h = 0xf5 ∧ v = .bool true) ∨ (h = 0xf6 ∧ v = .null)) := by
  obtain ⟨h20, h21, h22⟩ :
      (h &&& 0x1f = 20 ↔ h = 0xf4) ∧ (h &&& 0x1f = 21 ↔ h = 0xf5) ∧
      (h &&& 0x1f = 22 ↔ h = 0xf6) := by
    simpa using simple_table ⟨h.toNat, h.toNat_lt⟩ (by simpa using hh)
  simp only [readSimpleValue, run_bind_eq_ok, takeByte_eq_ok, List.cons.injEq, and_assoc,
    exists_and_left, exists_eq_left', run_ite]
  rw [← h20, ← h21, ← h22]
  clear h20 h21 h22 hh
  split_ifs with a0 a1 a2 a3 a4 a5
  all_goals
    simp only [run_pure_eq_ok, run_throw_eq_ok, run_bind_eq_ok, Prod.mk.injEq]
    simp [*, and_comm]

/-! ## Key order -/

/-- The additional information a shortest head uses for the argument `a`. -/
def argInfo (a : ℕ) : ℕ :=
  if a ≤ 23 then a else if a ≤ 255 then 24 else if a ≤ 65535 then 25
  else if a ≤ 4294967295 then 26 else 27

/-- The argument bytes that follow additional information `ai`. -/
def argWidth (ai : ℕ) : ℕ :=
  if ai ≤ 23 then 0 else if ai = 24 then 1 else if ai = 25 then 2 else if ai = 26 then 4 else 8

theorem writeUint_eq (k : UInt64) : writeUint k =
      UInt8.ofNat (argInfo k.toNat) :: beBytes (argWidth (argInfo k.toNat)) k.toNat := by
  have hzero : ∀ b : UInt8, (0 : UInt8) <<< 5 ||| b = b := fun b => by simp
  rw [writeUint, writeTypeArg_eq, argInfo]
  simp only [hzero]
  split_ifs with h0 h1 h2 h3
  · rw [argWidth, if_pos h0]
    rfl
  all_goals rfl

theorem argInfo_lt_of_lt {j k : ℕ} (h : argInfo j < argInfo k) : j < k := by
  unfold argInfo at h
  split_ifs at h <;> omega

theorem argInfo_le (a : ℕ) : argInfo a ≤ 27 := by
  unfold argInfo
  split_ifs <;> omega

theorem lt_argWidth {a : ℕ} (ha : a < 2 ^ 64) :
    argInfo a = a ∧ a ≤ 23 ∨ 23 < argInfo a ∧ a < 256 ^ argWidth (argInfo a) := by
  unfold argInfo argWidth
  split_ifs <;> omega

theorem writeUint_lt_iff {j : UInt64} : writeUint j < writeUint k ↔ j < k := by
  have hj : argInfo j.toNat < UInt8.size := lt_of_le_of_lt (argInfo_le _) (by decide)
  have hk : argInfo k.toNat < UInt8.size := lt_of_le_of_lt (argInfo_le _) (by decide)
  rw [UInt64.lt_iff_toNat_lt, writeUint_eq, writeUint_eq, cons_lt_cons_iff,
    UInt8.lt_iff_toNat_lt, ← UInt8.toNat_inj, UInt8.toNat_ofNat_of_lt' hj,
    toNat_ofNat_of_lt' hk]
  rcases Nat.lt_trichotomy (argInfo j.toNat) (argInfo k.toNat) with h | h | h
  · have := argInfo_lt_of_lt h
    simp [h, this]
  · rw [h]
    simp only [lt_irrefl, true_and, false_or]
    rcases lt_argWidth j.toNat_lt with ⟨e1, e2⟩ | ⟨e1, e2⟩ <;>
      rcases lt_argWidth k.toNat_lt with ⟨f1, f2⟩ | ⟨f1, f2⟩
    · obtain rfl : j = k := UInt64.toNat_inj.mp (by omega)
      simp
    · omega
    · omega
    · rw [h] at e2
      exact beBytes_lt_iff e2 f2
  · have := argInfo_lt_of_lt h
    simp only [h.ne', not_lt.mpr h.le, false_and, or_self, false_iff]
    omega

end Residiuum
