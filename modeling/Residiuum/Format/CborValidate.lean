import Residiuum.Format.CborWire

/-!
# Deterministic CBOR envelopes: the validator and the decoder

The validator walks the bytes without building values, and checks key order on the encoded keys
where the grammar orders the keys themselves.

* **`validate_eq_ok`**: the valid envelopes are the wire forms of canonical maps.
* **`decode_eq_ok`**: decoding returns that map, and succeeds on nothing else.
-/

namespace Residiuum

open ByteLib CborValue List Nat UInt64

/-! ## The validator's walker -/

/-- What a branch of the validator for major type `m` accepts: canonical values of that type. -/
def SkipsMajor (m : UInt8) (p : Cursor Unit) (cur : Bytes) : Prop :=
  ∀ r, p.run cur = .ok ((), r) ↔ ∃ v, major v = m ∧ Canon v ∧ cur = wire v ++ r

variable {v : CborValue} {h : UInt8} {t r b : Bytes} {prev : Option UInt64} {k : UInt64}
  {es : List (UInt64 × CborValue)}

theorem canon_leaf (h4 : major v ≠ 4) (h5 : major v ≠ 5) : Canon v ↔ Fits v := by
  cases v with
  | array items => exact absurd rfl h4
  | map es => exact absurd rfl h5
  | _ => exact and_iff_left trivial

theorem Canon.fits (h : Canon v) : Fits v := by
  induction v using CborValue.ind with
  | array items ih =>
    obtain ⟨hl, hv⟩ := everywhere_array.mp h
    exact everywhere_array.mpr ⟨hl.1, fun v hm => ih v hm (hv v hm)⟩
  | map es ih =>
    obtain ⟨hl, hv⟩ := everywhere_map.mp h
    exact everywhere_map.mpr ⟨hl.1, fun e hm => ih e hm (hv e hm)⟩
  | _ => exact h.1

section Skip

variable (skip : Cursor Unit) (cur : Bytes) {seen : List UInt64} {m : UInt8}

theorem skipsMajor_leaf {α : Type} (h4 : m ≠ 4) (h5 : m ≠ 5) {p : Cursor α}
    {f : α → CborValue} (h : ReadsMajor m (p >>= fun x => pure (f x)) cur) :
    SkipsMajor m (p >>= fun _ => pure ()) cur := by
  intro r
  have hdrop : (p >>= fun _ => pure () : Cursor Unit).run cur = .ok ((), r) ↔
      ∃ v, (p >>= fun x => pure (f x) : Cursor CborValue).run cur = .ok (v, r) := by
    simp only [run_bind_eq_ok, run_pure_eq_ok, Prod.mk.injEq, true_and]
    constructor
    · rintro ⟨x, r, hx, rfl⟩
      exact ⟨f x, x, r, hx, rfl, rfl⟩
    · rintro ⟨_, x, r, hx, rfl, rfl⟩
      exact ⟨x, r, hx, rfl⟩
  rw [hdrop]
  refine exists_congr fun v => (h v r).trans ?_
  constructor
  · rintro ⟨rfl, hf, e⟩
    exact ⟨rfl, (canon_leaf h4 h5).mpr hf, e⟩
  · rintro ⟨rfl, hc, e⟩
    exact ⟨rfl, hc.fits, e⟩

theorem readHead_major {a : UInt64}
    (e : readHead.run (h :: t) = .ok ((m, a), r)) : m = h >>> 5 := by
  obtain ⟨hm, e⟩ := readHead_eq_ok.mp e
  obtain ⟨h', t', ht, hh⟩ := writeTypeArg_head hm a
  rw [ht] at e
  rw [(List.cons.inj e).1, hh]

theorem many_canon {us : List Unit} : Many (fun _ b => ∃ v, Canon v ∧ b = wire v) us b ↔
      ∃ items : List CborValue, items.length = us.length ∧ (∀ v ∈ items, Canon v) ∧
        b = items.flatMap wire := by
  induction us generalizing b with
  | nil => simp [Many]
  | cons u us ih =>
    simp only [Many, ih]
    constructor
    · rintro ⟨b1, b2, ⟨v, hv, rfl⟩, ⟨items, hl, hc, rfl⟩, rfl⟩
      exact ⟨v :: items, by simp [hl], by simpa using ⟨hv, hc⟩, rfl⟩
    · rintro ⟨items, hl, hc, rfl⟩
      cases items with
      | nil => simp at hl
      | cons v items =>
        obtain ⟨hv, hc⟩ := forall_mem_cons.mp hc
        exact ⟨_, _, ⟨v, hv, rfl⟩, ⟨items, by simpa using hl, hc, rfl⟩, rfl⟩

/-- The entries that may follow the key `prev`: ascending, all beyond it. -/
def Follows (prev : Option UInt64) (es : List (UInt64 × CborValue)) : Prop :=
  KeysAscend es ∧ ∀ p ∈ prev, ∀ e ∈ es, p < e.1

theorem follows_cons {e : UInt64 × CborValue} :
    Follows prev (e :: es) ↔ (∀ p ∈ prev, p < e.1) ∧ Follows (some e.1) es := by
  simp only [Follows, KeysAscend, pairwise_cons, forall_mem_cons, Option.mem_some,
    forall_eq']
  constructor
  · rintro ⟨⟨h1, h2⟩, h3⟩
    exact ⟨fun p hp => (h3 p hp).1, h2, h1⟩
  · rintro ⟨h1, h2, h3⟩
    exact ⟨⟨h3, h2⟩, fun p hp => ⟨h1 p hp, fun e' he' => UInt64.lt_trans (h1 p hp) (h3 e' he')⟩⟩

theorem take_key (k : UInt64) (cur : Bytes) :
    (writeUint k ++ cur).take ((writeUint k ++ cur).length - cur.length) = writeUint k := by
  rw [length_append, Nat.add_sub_cancel, take_left]

theorem any_le_prev :
    ((prev.map writeUint).any fun p => writeUint k ≤ p) = false ↔ ∀ p ∈ prev, p < k := by
  cases prev with
  | none => simp
  | some p => simp [writeUint_lt_iff]

/-- The keys seen after reading `k` are at most `k` as soon as `k` is beyond the previous key. -/
theorem seen_le_key (hseen : ∀ j ∈ seen, ∃ p ∈ prev, j ≤ p) (hk : ∀ p ∈ prev, p < k) :
    ∀ j ∈ seen ++ [k], ∃ p ∈ some k, j ≤ p := by
  intro j hj
  refine ⟨k, rfl, ?_⟩
  rcases mem_append.mp hj with hj | hj
  · obtain ⟨p, hp, hle⟩ := hseen j hj
    exact UInt64.le_trans hle (UInt64.le_of_lt (hk p hp))
  · rw [mem_singleton.mp hj]
    exact UInt64.le_refl k

theorem not_mem_seen
    (hseen : ∀ j ∈ seen, ∃ p ∈ prev, j ≤ p) (hk : ∀ p ∈ prev, p < k) : k ∉ seen := by
  intro hmem
  obtain ⟨p, hp, hle⟩ := hseen k hmem
  exact absurd (hk p hp) (UInt64.not_lt.mpr hle)

variable {skip} {fuel : ℕ} (ih : ParsesBelow fuel skip fun _ b => ∃ v, Canon v ∧ b = wire v)

include ih

/-- **The entry loop** accepts the canonical entries whose keys ascend from the previous key. The
keys seen so far are all at most the previous one, so the duplicate test never decides alone. -/
theorem skipEntries_eq_ok (n : ℕ) : ∀ (prev : Option UInt64) (seen : List UInt64)
    (_ : ∀ k ∈ seen, ∃ p ∈ prev, k ≤ p) (cur : Bytes) (_ : cur.length < fuel) (r : Bytes),
    (skipEntries skip n (prev.map writeUint) seen).run cur = .ok ((), r) ↔
      ∃ es : List (UInt64 × CborValue), es.length = n ∧ (∀ e ∈ es, Canon e.2) ∧ Follows prev es ∧
        cur = wireEntries es ++ r := by
  induction n with
  | zero =>
    intro prev seen hseen cur hcur r
    rw [skipEntries, run_pure_eq_ok]
    constructor
    · rintro h
      cases h
      exact ⟨[], rfl, by simp, ⟨List.Pairwise.nil, by simp⟩, rfl⟩
    · rintro ⟨es, hl, -, -, rfl⟩
      rw [length_eq_zero_iff.mp hl]
      rfl
  | succ n ihn =>
    intro prev seen hseen cur hcur r
    simp only [skipEntries, run_bind_eq_ok, run_get_eq_ok, readUint_eq_ok]
    constructor
    · rintro ⟨_, _, ⟨rfl, rfl⟩, k, _, rfl, _, cur1, ⟨rfl, rfl⟩, h⟩
      rw [take_key, run_ite, run_ite] at h
      split_ifs at h with hdup hsort
      · exact (run_throw_eq_ok.mp h).elim
      · exact (run_throw_eq_ok.mp h).elim
      have hk := any_le_prev.mp (Bool.not_eq_true _ ▸ hsort)
      obtain ⟨_, cur2, h1, h2⟩ := run_bind_eq_ok.mp h
      have hcur1 : cur1.length < fuel := by
        rw [length_append] at hcur
        omega
      obtain ⟨_, ⟨v, hv, rfl⟩, rfl⟩ := (ih cur1 hcur1 () cur2).mp h1
      have hcur2 : cur2.length < fuel := by
        rw [length_append] at hcur1
        omega
      obtain ⟨es, hl, hc, hfol, rfl⟩ := (ihn (some k) _ (seen_le_key hseen hk) cur2 hcur2 r).mp h2
      refine ⟨(k, v) :: es, by rw [length_cons, hl], forall_mem_cons.mpr ⟨hv, hc⟩,
        follows_cons.mpr ⟨hk, hfol⟩, ?_⟩
      simp [wireEntries]
    · rintro ⟨es, hl, hc, hfol, rfl⟩
      cases es with
      | nil => simp at hl
      | cons e es =>
        obtain ⟨k, v⟩ := e
        obtain ⟨hv, hc⟩ := forall_mem_cons.mp hc
        obtain ⟨hk, hfol⟩ := follows_cons.mp hfol
        simp only [wireEntries, append_assoc] at hcur ⊢
        refine ⟨_, _, ⟨rfl, rfl⟩, k, _, rfl, _, _, ⟨rfl, rfl⟩, ?_⟩
        rw [take_key, run_ite, if_neg (not_mem_seen hseen hk), run_ite,
          if_neg (by simp [any_le_prev.mpr hk])]
        have hcur1 : (wire v ++ (wireEntries es ++ r)).length < fuel := by
          rw [length_append] at hcur
          omega
        have hcur2 : (wireEntries es ++ r).length < fuel := by
          rw [length_append] at hcur1
          omega
        refine run_bind_eq_ok.mpr ⟨(), wireEntries es ++ r, ?_, ?_⟩
        · exact (ih _ hcur1 () _).mpr ⟨_, ⟨v, hv, rfl⟩, rfl⟩
        · exact (ihn (some k) _ (seen_le_key hseen hk) _ hcur2 r).mpr
            ⟨es, by simpa using hl, hc, hfol, rfl⟩

theorem skipBranch_array (hcur : cur.length < fuel + 1) : SkipsMajor 4 (skipBranch skip 4) cur := by
  intro r
  rw [skipBranch, run_bind_eq_ok]
  simp only [readArrayLen_eq_ok]
  constructor
  · rintro ⟨n, r1, ⟨hn, hb, rfl⟩, h2⟩
    obtain ⟨us, r2, h3, h4⟩ := run_bind_eq_ok.mp h2
    cases run_pure_eq_ok.mp h4
    have hpos := length_writeTypeArg_pos 4 (ofNat n)
    have hr1 : r1.length < fuel := by
      rw [length_append] at hcur
      omega
    obtain ⟨b, ⟨rfl, hM⟩, rfl⟩ := (ih.times n r1 hr1 _ _).mp h3
    obtain ⟨items, hl, hc, rfl⟩ := many_canon.mp hM
    have hn' : items.length < 2 ^ 64 := by rw [hl]; exact hn
    refine ⟨.array items, rfl, everywhere_array.mpr ⟨⟨hn', trivial⟩, hc⟩, ?_⟩
    rw [wire, wireItems_eq, append_assoc, hl]
  · rintro ⟨v, hm, hc, rfl⟩
    cases v with
    | array items =>
      obtain ⟨⟨hn, -⟩, hc⟩ := everywhere_array.mp hc
      have hlen := length_le_wireItems items
      have hpos := length_writeTypeArg_pos 4 (ofNat items.length)
      rw [wire, wireItems_eq, append_assoc] at hcur ⊢
      have hr1 : (items.flatMap wire ++ r).length < fuel := by
        rw [length_append] at hcur
        omega
      refine ⟨items.length, _, ⟨hn, ?_, rfl⟩,
        run_bind_eq_ok.mpr ⟨List.replicate items.length (), r, ?_, rfl⟩⟩
      · rw [length_append]
        omega
      · exact (ih.times _ _ hr1 _ _).mpr ⟨_, ⟨length_replicate,
          many_canon.mpr ⟨items, length_replicate.symm, hc, rfl⟩⟩, rfl⟩
    | _ => simp [major] at hm

theorem skipMap_eq_ok (hcur : cur.length < fuel + 1) (r : Bytes) :
    (readMapLen >>= fun n => skipEntries skip n none [] : Cursor Unit).run cur = .ok ((), r) ↔
      ∃ es, Canon (.map es) ∧ cur = wire (.map es) ++ r := by
  rw [run_bind_eq_ok]
  simp only [readMapLen_eq_ok]
  constructor
  · rintro ⟨n, r1, ⟨hn, hb, rfl⟩, h2⟩
    have hpos := length_writeTypeArg_pos 5 (ofNat n)
    have hr1 : r1.length < fuel := by
      rw [length_append] at hcur
      omega
    obtain ⟨es, rfl, hc, hfol, rfl⟩ :=
      (skipEntries_eq_ok ih n none [] (by simp) r1 hr1 r).mp h2
    refine ⟨es, everywhere_map.mpr ⟨⟨hn, hfol.1⟩, hc⟩, ?_⟩
    rw [wire, append_assoc]
  · rintro ⟨es, hc, rfl⟩
    obtain ⟨⟨hn, hsort⟩, hc⟩ := everywhere_map.mp hc
    have hlen := length_le_wireEntries es
    have hpos := length_writeTypeArg_pos 5 (ofNat es.length)
    rw [wire, append_assoc] at hcur ⊢
    have hr1 : (wireEntries es ++ r).length < fuel := by
      rw [length_append] at hcur
      omega
    refine ⟨es.length, _, ⟨hn, ?_, rfl⟩, ?_⟩
    · rw [length_append]
      omega
    · exact (skipEntries_eq_ok ih _ none [] (by simp) _ hr1 r).mpr
        ⟨es, rfl, hc, ⟨hsort, by simp⟩, rfl⟩

theorem skipBranch_map (hcur : cur.length < fuel + 1) : SkipsMajor 5 (skipBranch skip 5) cur := by
  intro r
  refine (skipMap_eq_ok cur ih hcur r).trans ?_
  constructor
  · rintro ⟨es, hc, e⟩
    exact ⟨.map es, rfl, hc, e⟩
  · rintro ⟨v, hm, hc, e⟩
    cases v with
    | map es => exact ⟨es, hc, e⟩
    | _ => simp [major] at hm

omit ih in
theorem skipBranch_int (hh : h >>> 5 = 0 ∨ h >>> 5 = 1) :
    SkipsMajor (h >>> 5) (readHead >>= fun _ => pure ()) (h :: t) := by
  intro r
  simp only [run_bind_eq_ok, run_pure_eq_ok, Prod.mk.injEq, true_and]
  constructor
  · rintro ⟨⟨m, a⟩, r, e, rfl⟩
    obtain rfl := readHead_major e
    obtain ⟨-, e⟩ := readHead_eq_ok.mp e
    rcases hh with hh | hh
    · exact ⟨.uint a, hh.symm, ⟨trivial, trivial⟩, by rw [e, hh]; rfl⟩
    · exact ⟨.nint a, hh.symm, ⟨trivial, trivial⟩, by rw [e, hh]; rfl⟩
  · rintro ⟨v, hm, -, e⟩
    cases v with
    | uint n => exact ⟨(0, n), r, readHead_eq_ok.mpr ⟨by decide, e⟩, rfl⟩
    | nint n => exact ⟨(1, n), r, readHead_eq_ok.mpr ⟨by decide, e⟩, rfl⟩
    | _ => rcases hh with hh | hh <;> rw [hh] at hm <;> simp [major] at hm

theorem skipBranch_cons (hcur : (h :: t).length < fuel + 1) :
    SkipsMajor (h >>> 5) (skipBranch skip (h >>> 5).toNat) (h :: t) := by
  rcases major_cases (head_split h).2.1 with hm | hm | hm | hm | hm | hm | hm | hm
  · have := skipBranch_int (t := t) (Or.inl hm)
    rwa [hm] at this ⊢
  · have := skipBranch_int (t := t) (Or.inr hm)
    rwa [hm] at this ⊢
  · rw [hm]
    exact skipsMajor_leaf _ (by decide) (by decide) (readBranch_bytes readValue _)
  · rw [hm]
    exact skipsMajor_leaf _ (by decide) (by decide) (readBranch_text readValue _)
  · rw [hm]
    exact skipBranch_array _ ih hcur
  · rw [hm]
    exact skipBranch_map _ ih hcur
  · rw [hm]
    intro r
    refine run_throw_eq_ok.trans (iff_of_false not_false ?_)
    rintro ⟨v, h6, -, -⟩
    cases v <;> simp [major] at h6
  · rw [hm]
    refine skipsMajor_leaf (f := id) _ (by decide) (by decide) ?_
    have := readBranch_simple readValue (t := t) hm
    rwa [readBranch, ← bind_pure readSimpleValue] at this

end Skip

theorem skipValueFuel_parses (fuel : ℕ) :
    ParsesBelow fuel (skipValueFuel fuel) fun _ b => ∃ v, Canon v ∧ b = wire v := by
  induction fuel with
  | zero => exact fun cur hcur => absurd hcur (Nat.not_lt_zero _)
  | succ fuel ih =>
    intro cur hcur u r
    have hout : (∃ b, (∃ v, Canon v ∧ b = wire v) ∧ cur = b ++ r) ↔
        ∃ v, Canon v ∧ cur = wire v ++ r := by
      constructor
      · rintro ⟨b, ⟨v, hf, rfl⟩, e⟩
        exact ⟨v, hf, e⟩
      · rintro ⟨v, hf, e⟩
        exact ⟨_, ⟨v, hf, rfl⟩, e⟩
    rw [hout]
    cases cur with
    | nil =>
      refine iff_of_false nofun ?_
      rintro ⟨v, -, e⟩
      exact wire_append_ne_nil v r e.symm
    | cons h t =>
      change (skipBranch (skipValueFuel fuel) (h >>> 5).toNat).run (h :: t) = _ ↔ _
      rw [skipBranch_cons ih hcur r]
      exact exists_congr fun v => ⟨fun h' => h'.2, fun h' => ⟨(wire_head h'.2).symm, h'⟩⟩

theorem skipValue_parses (n : ℕ) : ParsesBelow n skipValue fun _ b => ∃ v, Canon v ∧ b = wire v :=
  fun cur _ => skipValueFuel_parses (cur.length + 1) cur (lt_succ_self _)

theorem wire_append_inj {w : CborValue} (hv : Fits v) (hw : Fits w) {s : Bytes}
    (e : wire v ++ r = wire w ++ s) : v = w ∧ r = s := by
  have h1 : readValue.run (wire v ++ r) = .ok (v, r) := readValue_eq_ok.mpr ⟨hv, rfl⟩
  have h2 : readValue.run (wire v ++ r) = .ok (w, s) := readValue_eq_ok.mpr ⟨hw, e⟩
  rw [h1] at h2
  exact Prod.mk.inj (Except.ok.inj h2)

theorem readEnvelopeMap_eq_ok {cur : Bytes} :
    readEnvelopeMap.run cur = .ok ((), r) ↔ ∃ es, Canon (.map es) ∧ cur = wire (.map es) ++ r := by
  have hmap := skipMap_eq_ok cur (skipValue_parses cur.length.succ) (lt_succ_of_lt
    (lt_succ_self _)) r
  rw [readEnvelopeMap, run_bind_eq_ok]
  constructor
  · rintro ⟨h, cur', hp, h2⟩
    obtain ⟨rfl, t, rfl⟩ := peek_eq_ok.mp hp
    rw [run_ite] at h2
    split_ifs at h2 with h5
    · exact (run_throw_eq_ok.mp h2).elim
    · exact hmap.mp h2
  · rintro ⟨es, hc, e⟩
    cases cur with
    | nil => exact absurd e.symm (wire_append_ne_nil _ _)
    | cons h t =>
      refine ⟨h, h :: t, rfl, ?_⟩
      have h5 : h >>> 5 = 5 := wire_head e
      rw [run_ite, if_neg (not_not.mpr h5)]
      exact hmap.mpr ⟨es, hc, e⟩

theorem validate_eq_ok : validateDeterministicCborEnvelope b = .ok () ↔
    ∃ es, Canon (.map es) ∧ b = wire (.map es) := by
  rw [validateDeterministicCborEnvelope, bind_eq_ok]
  constructor
  · rintro ⟨⟨u, cur⟩, h1, h2⟩
    obtain ⟨es, hc, rfl⟩ := readEnvelopeMap_eq_ok.mp h1
    by_cases hcur : cur = []
    · exact ⟨es, hc, by rw [hcur, append_nil]⟩
    · simp [hcur] at h2
  · rintro ⟨es, hc, rfl⟩
    exact ⟨((), []), readEnvelopeMap_eq_ok.mpr ⟨es, hc, (append_nil _).symm⟩, rfl⟩

theorem validate_append_eq_nil {a : Bytes} (ha : validateDeterministicCborEnvelope a = .ok ())
    (hab : validateDeterministicCborEnvelope (a ++ b) = .ok ()) : b = [] := by
  obtain ⟨es, hes, rfl⟩ := validate_eq_ok.mp ha
  obtain ⟨fs, hfs, heq⟩ := validate_eq_ok.mp hab
  rw [← append_nil (wire (.map fs))] at heq
  exact (wire_append_inj hes.fits hfs.fits heq).2

theorem decode_eq_ok :
    decodeDeterministicUintMap b = .ok es ↔ Canon (.map es) ∧ b = wire (.map es) := by
  rw [decodeDeterministicUintMap, bind_eq_ok]
  have hent := fun n => readEntry_parses (readValue_parses n)
  constructor
  · rintro ⟨_, h1, h2⟩
    obtain ⟨es', hc, rfl⟩ := validate_eq_ok.mp h1
    obtain ⟨⟨n, cur⟩, h3, h4⟩ := bind_eq_ok.mp h2
    obtain ⟨⟨out, rest⟩, h5, h6⟩ := bind_eq_ok.mp h4
    obtain rfl := Except.ok.inj h6
    obtain ⟨hn, -, e⟩ := readMapLen_eq_ok.mp h3
    obtain ⟨rfl, hf, rfl⟩ := ((hent _).times_eq_ok n (lt_succ_self _)).mp h5
    have e' : wire (.map es') ++ [] = wire (.map out) ++ rest := by
      rw [append_nil, e, wire, wireEntries_eq, append_assoc]
    obtain ⟨hes, -⟩ := wire_append_inj hc.fits (everywhere_map.mpr ⟨hn, hf⟩) e'
    obtain rfl := CborValue.map.inj hes
    exact ⟨hc, rfl⟩
  · rintro ⟨hc, rfl⟩
    obtain ⟨hn, hf⟩ := everywhere_map.mp hc.fits
    have hlen := length_le_wireEntries es
    refine ⟨(), validate_eq_ok.mpr ⟨es, hc, rfl⟩, bind_eq_ok.mpr
      ⟨(es.length, wireEntries es), readMapLen_eq_ok.mpr ⟨hn, hlen, rfl⟩,
        bind_eq_ok.mpr ⟨(es, []), ?_, rfl⟩⟩⟩
    refine ((hent _).times_eq_ok _ (lt_succ_self _)).mpr ⟨rfl, hf, ?_⟩
    rw [append_nil, wireEntries_eq]

end Residiuum
