import Residiuum.Format.CborValidate

/-!
# Deterministic CBOR envelopes: the encoder and the round trips

`sortDeep v` is `v` with every map, at every depth, in key order. The encoder writes the wire form
of that, so it is the inverse of the decoder on canonical maps.

* **`writeValue_eq`**: without duplicate keys `writeValue v` succeeds with `wire (sortDeep v)`.
* **`encode_eq_wire`**: the same for whole envelopes, self-check included.
* **`envelope_codec_bijection`**: valid envelopes, encoder outputs and canonical maps are the same
  thing, and the two round trips hold.
-/

namespace Residiuum

open ByteLib CborValue List

/-! ## Sorting every map -/

mutual

/-- The value with every map, at every depth, sorted by key. -/
def sortDeep : CborValue → CborValue
  | .array items => .array (sortItems items)
  | .map entries => .map (sortByKey (sortValues entries))
  | v => v

def sortItems : List CborValue → List CborValue
  | [] => []
  | v :: vs => sortDeep v :: sortItems vs

/-- Each entry's value sorted, the entries left in order. -/
def sortValues : List (UInt64 × CborValue) → List (UInt64 × CborValue)
  | [] => []
  | (k, v) :: es => (k, sortDeep v) :: sortValues es

end

/-- The entries of a map as the codec orders them. -/
def sortedEntries (es : List (UInt64 × CborValue)) : List (UInt64 × CborValue) :=
  sortByKey (sortValues es)

/-- No two entries of a map share a key. -/
def keysDistinct : CborValue → Prop
  | .map entries => (entries.map Prod.fst).Nodup
  | _ => True

/-- No duplicate key in any map, at any depth. -/
def NoDuplicateKeys (v : CborValue) : Prop := v.Everywhere keysDistinct

theorem sortItems_eq (items : List CborValue) : sortItems items = items.map sortDeep := by
  induction items with
  | nil => rfl
  | cons v vs ih => rw [sortItems, ih, map_cons]

theorem sortValues_eq (es : List (UInt64 × CborValue)) :
    sortValues es = es.map fun e => (e.1, sortDeep e.2) := by
  induction es with
  | nil => rfl
  | cons e es ih => rw [sortValues, ih, map_cons]

theorem writeEntries_eq (es : List (UInt64 × CborValue)) :
    writeEntries es = es.map fun e => (e.1, writeValue e.2) := by
  induction es with
  | nil => rfl
  | cons e es ih => rw [writeEntries, ih, map_cons]

/-! ## The stable sort -/

variable {α : Type} {v : CborValue} {es : List (UInt64 × CborValue)} {β : Type}

theorem sortByKey_perm (es : List (UInt64 × α)) : (sortByKey es).Perm es :=
  perm_insertionSort _ es

theorem sortByKey_map (f : α → β) (es : List (UInt64 × α)) :
    sortByKey (es.map fun e => (e.1, f e.2)) = (sortByKey es).map fun e => (e.1, f e.2) :=
  (map_insertionSort (fun a b : UInt64 × α => a.1 ≤ b.1) (fun a b : UInt64 × β => a.1 ≤ b.1)
    (fun e => (e.1, f e.2)) es fun _ _ _ _ => Iff.rfl).symm

theorem sortByKey_ascending {es : List (UInt64 × α)} (h : (es.map Prod.fst).Nodup) :
    (sortByKey es).Pairwise fun a b => a.1 < b.1 := by
  have hle : (sortByKey es).Pairwise fun a b => a.1 ≤ b.1 := by
    have : Std.Total fun a b : UInt64 × α => a.1 ≤ b.1 := ⟨fun a b => UInt64.le_total a.1 b.1⟩
    have : IsTrans (UInt64 × α) fun a b => a.1 ≤ b.1 := ⟨fun a b c => UInt64.le_trans⟩
    exact pairwise_insertionSort _ es
  have hne : (sortByKey es).Pairwise fun a b => a.1 ≠ b.1 := by
    rw [← pairwise_map]
    exact ((sortByKey_perm es).map Prod.fst).nodup_iff.mpr h
  exact (hle.and hne).imp fun ⟨h1, h2⟩ => UInt64.lt_of_le_of_ne h1 h2

theorem sortByKey_of_ascending {es : List (UInt64 × α)}
    (h : es.Pairwise fun a b => a.1 < b.1) : sortByKey es = es :=
  (h.imp UInt64.le_of_lt).insertionSort_eq

theorem hasDuplicateKey_of_ascending {es : List (UInt64 × α)}
    (h : es.Pairwise fun a b => a.1 < b.1) : hasDuplicateKey es = false := by
  induction es with
  | nil => rfl
  | cons a es ih =>
    cases es with
    | nil => rfl
    | cons b es =>
      have hab : a.1 < b.1 := rel_of_pairwise_cons h mem_cons_self
      rw [hasDuplicateKey, ih h.of_cons, Bool.or_false, beq_eq_false_iff_ne]
      exact UInt64.ne_of_lt hab

theorem hasDuplicateKey_map (f : α → β) (es : List (UInt64 × α)) :
    hasDuplicateKey (es.map fun e => (e.1, f e.2)) = hasDuplicateKey es := by
  induction es with
  | nil => rfl
  | cons a es ih =>
    cases es with
    | nil => rfl
    | cons b es =>
      rw [hasDuplicateKey, ← ih]
      rfl

theorem canon_distinct : Canon v → NoDuplicateKeys v := by
  induction v using ind with
  | array items ih =>
    intro h
    obtain ⟨-, h⟩ := everywhere_array.mp h
    exact everywhere_array.mpr ⟨trivial, fun w hw => ih w hw (h w hw)⟩
  | map es ih =>
    intro h
    obtain ⟨⟨-, hs⟩, h⟩ := everywhere_map.mp h
    refine everywhere_map.mpr ⟨?_, fun e he => ih e he (h e he)⟩
    exact pairwise_map.mpr (hs.imp UInt64.ne_of_lt)
  | _ => exact fun _ => trivial

theorem canon_sortDeep : Fits v → NoDuplicateKeys v → Canon (sortDeep v) := by
  induction v using ind with
  | array items ih =>
    intro hf hd
    obtain ⟨hl, hf⟩ := everywhere_array.mp hf
    obtain ⟨-, hd⟩ := everywhere_array.mp hd
    rw [sortDeep, sortItems_eq]
    refine everywhere_array.mpr ⟨⟨by simpa [lenFits] using hl, trivial⟩, ?_⟩
    exact forall_mem_map.mpr fun w hw => ih w hw (hf w hw) (hd w hw)
  | map es ih =>
    intro hf hd
    obtain ⟨hl, hf⟩ := everywhere_map.mp hf
    obtain ⟨hk, hd⟩ := everywhere_map.mp hd
    have hlen : (sortByKey (es.map fun e => (e.1, sortDeep e.2))).length = es.length := by
      rw [(sortByKey_perm _).length_eq, length_map]
    rw [sortDeep, sortValues_eq]
    refine everywhere_map.mpr ⟨⟨?_, ?_⟩, ?_⟩
    · rw [lenFits, hlen]
      exact hl
    · exact sortByKey_ascending (by rw [map_map]; exact hk)
    · intro e he
      obtain ⟨d, hd', rfl⟩ := mem_map.mp ((sortByKey_perm _).mem_iff.mp he)
      exact ih d hd' (hf d hd') (hd d hd')
  | _ =>
    rw [sortDeep]
    · exact fun hf _ => (canon_leaf (by simp [major]) (by simp [major])).mpr hf
    all_goals simp

theorem sortDeep_of_canon : Canon v → sortDeep v = v := by
  induction v using ind with
  | array items ih =>
    intro h
    obtain ⟨-, h⟩ := everywhere_array.mp h
    have hsame : items.map sortDeep = items :=
      (map_congr_left fun w hw => ih w hw (h w hw)).trans (map_id items)
    rw [sortDeep, sortItems_eq, hsame]
  | map es ih =>
    intro h
    obtain ⟨⟨-, hs⟩, h⟩ := everywhere_map.mp h
    have hsame : (es.map fun e => (e.1, sortDeep e.2)) = es := by
      refine (map_congr_left ?_).trans (map_id es)
      exact fun e he => Prod.ext rfl (ih e he (h e he))
    rw [sortDeep, sortValues_eq, hsame, sortByKey_of_ascending hs]
  | _ => exact fun _ => rfl

/-! ## The writer -/

theorem encode_eq (es : List (UInt64 × CborValue)) : encodeDeterministicUintMap es =
    if hasDuplicateKey (sortByKey es) then .error .duplicateKey
    else do
      let header ← writeMapHeader (sortByKey es).length
      let body ← writeSorted ((sortByKey es).map fun e => (e.1, writeValue e.2))
      validateDeterministicCborEnvelope (header ++ body)
      return header ++ body := by
  rw [encodeDeterministicUintMap, encodeWritten, writeEntries_eq]
  simp only [sortByKey_map, hasDuplicateKey_map, length_map]
  rfl

theorem validate_of_encode {b : Bytes}
    (h : encodeDeterministicUintMap es = .ok b) : validateDeterministicCborEnvelope b = .ok () := by
  rw [encode_eq] at h
  split_ifs at h
  obtain ⟨header, -, h⟩ := bind_eq_ok.mp h
  obtain ⟨body, -, h⟩ := bind_eq_ok.mp h
  obtain ⟨_, hv, h⟩ := bind_eq_ok.mp h
  cases h
  exact hv

theorem writeSorted_eq (es : List (UInt64 × CborValue)) :
    writeSorted (es.map fun e => (e.1, .ok (wire e.2))) = .ok (wireEntries es) := by
  induction es with
  | nil => rfl
  | cons e es ih =>
    rw [map_cons, writeSorted, ih]
    rfl

theorem encode_of_values (hv : ∀ e ∈ es, writeValue e.2 = .ok (wire (sortDeep e.2)))
    (hc : Canon (.map (sortedEntries es))) :
    encodeDeterministicUintMap es = .ok (wire (.map (sortedEntries es))) := by
  obtain ⟨⟨hl, hs⟩, -⟩ := everywhere_map.mp hc
  have hsort : (sortByKey es).map (fun e => (e.1, sortDeep e.2)) = sortedEntries es := by
    rw [sortedEntries, sortValues_eq, sortByKey_map]
  have hbody : (sortByKey es).map (fun e => (e.1, writeValue e.2)) =
      (sortedEntries es).map fun e => (e.1, .ok (wire e.2)) := by
    rw [← hsort, map_map]
    exact map_congr_left fun e he =>
      Prod.ext rfl (hv e ((sortByKey_perm es).mem_iff.mp he))
  have hdup : hasDuplicateKey (sortByKey es) = false := by
    rw [← hasDuplicateKey_map sortDeep, hsort]
    exact hasDuplicateKey_of_ascending hs
  have hlen : (sortByKey es).length = (sortedEntries es).length := by rw [← hsort, length_map]
  have hl' : (sortedEntries es).length < 2 ^ 64 := hl
  have hval := validate_eq_ok.mpr ⟨sortedEntries es, hc, rfl⟩
  rw [encode_eq, hdup, hbody, writeSorted_eq, writeMapHeader, hlen, if_pos hl']
  rw [wire] at hval ⊢
  simp [bind, Except.bind, pure, Except.pure, hval]

theorem writeValue_eq : Fits v → NoDuplicateKeys v →
    writeValue v = .ok (wire (sortDeep v)) := by
  induction v using ind with
  | array items ih =>
    intro hf hd
    obtain ⟨-, hf⟩ := everywhere_array.mp hf
    obtain ⟨-, hd⟩ := everywhere_array.mp hd
    have hitems : ∀ vs : List CborValue, (∀ v ∈ vs, v ∈ items) →
        writeItems vs = .ok (wireItems (sortItems vs)) := by
      intro vs hvs
      induction vs with
      | nil => rfl
      | cons v vs ihvs =>
        obtain ⟨hv, hvs⟩ := forall_mem_cons.mp hvs
        rw [writeItems, ih v hv (hf v hv) (hd v hv), ihvs hvs]
        rfl
    rw [writeValue, hitems items fun _ h => h, sortDeep, wire, sortItems_eq, length_map]
    rfl
  | map es ih =>
    intro hf hd
    have hc := canon_sortDeep hf hd
    obtain ⟨-, hf⟩ := everywhere_map.mp hf
    obtain ⟨-, hd⟩ := everywhere_map.mp hd
    exact encode_of_values (fun e he => ih e he (hf e he) (hd e he)) hc
  | bool b => cases b <;> exact fun _ _ => rfl
  | _ => exact fun _ _ => rfl

theorem encode_eq_wire (hf : Fits (.map es)) (hd : NoDuplicateKeys (.map es)) :
    encodeDeterministicUintMap es = .ok (wire (.map (sortedEntries es))) :=
  writeValue_eq hf hd

theorem encode_of_canon (hc : Canon (.map es)) :
    encodeDeterministicUintMap es = .ok (wire (.map es)) := by
  have hs : sortedEntries es = es := map.inj (sortDeep_of_canon hc)
  rw [encode_eq_wire hc.fits (canon_distinct hc), hs]

/-- **The envelope codec is a bijection with its grammar.** -/
theorem envelope_codec_bijection : (∀ b, validateDeterministicCborEnvelope b = .ok () ↔
      ∃ es, encodeDeterministicUintMap es = .ok b) ∧
    (∀ es, Fits (.map es) → NoDuplicateKeys (.map es) →
      ∃ b, encodeDeterministicUintMap es = .ok b ∧
        decodeDeterministicUintMap b = .ok (sortedEntries es)) ∧
    (∀ b, validateDeterministicCborEnvelope b = .ok () →
      ∃ es, decodeDeterministicUintMap b = .ok es ∧ encodeDeterministicUintMap es = .ok b) := by
  refine ⟨fun b => ⟨fun h => ?_, fun ⟨es, h⟩ => validate_of_encode h⟩, fun es hf hd => ?_,
    fun b h => ?_⟩
  · obtain ⟨es, hc, rfl⟩ := validate_eq_ok.mp h
    exact ⟨es, encode_of_canon hc⟩
  · have hc : Canon (.map (sortedEntries es)) := canon_sortDeep hf hd
    exact ⟨_, encode_eq_wire hf hd, decode_eq_ok.mpr ⟨hc, rfl⟩⟩
  · obtain ⟨es, hc, rfl⟩ := validate_eq_ok.mp h
    exact ⟨es, decode_eq_ok.mpr ⟨hc, rfl⟩, encode_of_canon hc⟩

/-- An array of unsorted maps under an unsorted map. -/
theorem envelope_codec_bijection_nested : ∃ b, encodeDeterministicUintMap
        [(300, .array [.map [(24, .null), (2, .bool true)]]), (7, .bytes [1, 2])] = .ok b ∧
      decodeDeterministicUintMap b =
        .ok [(7, .bytes [1, 2]), (300, .array [.map [(2, .bool true), (24, .null)]])] :=
  envelope_codec_bijection.2.1 _
    (by simp [Fits, Everywhere, EverywhereEntries, EverywhereItems, lenFits])
    (by simp [NoDuplicateKeys, Everywhere, EverywhereEntries, EverywhereItems, keysDistinct])

end Residiuum
