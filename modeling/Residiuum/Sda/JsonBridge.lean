import Residiuum.Sda.Render

/-!
# The JSON bridge, there and back

What `to_json` writes, `from_json` reads as a value that is written the same way. By
`eq_iff_render` that value equals the one that was written, as long as the rendering of numbers can
be read back; `finite_decimal_string` exchanges the powers of two and five of a denominator, so it
can be for the numbers that are `Exact` only.

* `Readable`: a JSON value that reads as a plain value written the same way; **`readable_toJson`**:
  everything `to_json` writes of exact numbers is.
* **`json_bridge_iff`**: in a class of plain values that contains the parts of its members, the
  bridge is lossless and canonical exactly when the numbers are exact.
-/

namespace Residiuum.Sda

open DistinctLib List SortedMapLib Value

/-! ## Numbers -/

variable {q : ExactNum} {v : Value} {js : List Json} {j : Json} {es : List (Text × Json)}
  {w : Value}

theorem numJson_of_den {a b : ℕ} (h : q.den = 2 ^ a * 5 ^ b) :
    ∃ n scale, numJson q = .number (decimalText (decide (q.num < 0)) n scale) ∧
      fromJson (numJson q) = some (.num (mkRat q.num (2 ^ (b % 2 ^ 32) * 5 ^ (a % 2 ^ 32)))) := by
  obtain ⟨n, scale, htext, hparse⟩ := finiteDecimalString_of_den h
  have hnum : numJson q = .number (decimalText (decide (q.num < 0)) n scale) := by
    rw [numJson, htext]
  refine ⟨n, scale, hnum, ?_⟩
  rw [hnum, fromJson, hparse]

theorem numJson_of_not_finite (h : ∀ a b, q.den ≠ 2 ^ a * 5 ^ b) :
    numJson q = tagged "num" [("$value".toList, .string (canonicalString q))] := by
  rw [numJson, finiteDecimalString_eq_none h]

theorem fromJson_num {t : Text} : fromJson (tagged "num" [("$value".toList, .string t)]) =
    (parseCanonical t).toOption.map .num := rfl

theorem fromJson_numJson_iff (q : ExactNum) : fromJson (numJson q) = some (.num q) ↔ Exact q := by
  by_cases hden : ∃ a b, q.den = 2 ^ a * 5 ^ b
  · obtain ⟨a, b, hab⟩ := hden
    obtain ⟨n, scale, -, hread⟩ := numJson_of_den hab
    rw [hread, Option.some_inj, num.injEq]
    exact mkRat_exchanged_iff hab
  · have hnone : ∀ a b, q.den ≠ 2 ^ a * 5 ^ b := fun a b hab => hden ⟨a, b, hab⟩
    have hexact : Exact q := fun a b hab => absurd hab (hnone a b)
    rw [numJson_of_not_finite hnone, fromJson_num,
      (parseCanonical_canonicalString_iff q).mpr hexact]
    exact iff_of_true rfl hexact

theorem numJson_inj {q' : ExactNum} (h : Exact q) (h' : Exact q')
    (heq : numJson q = numJson q') : q = q' := by
  have hread := (fromJson_numJson_iff q).mpr h
  rw [heq, (fromJson_numJson_iff q').mpr h'] at hread
  exact (num.inj (Option.some.inj hread)).symm

theorem decimalText_ne_nil (neg : Bool) (n scale : ℕ) : decimalText neg n scale ≠ [] := by
  obtain ⟨int, frac, htext, hne, -⟩ := decimalText_eq neg n scale
  rw [htext, pointText]
  simp [hne]

theorem rendering_numJson : Rendering numJson where
  canon q := by
    by_cases hden : ∃ a b, q.den = 2 ^ a * 5 ^ b
    · obtain ⟨a, b, hab⟩ := hden
      obtain ⟨n, scale, hnum, -⟩ := numJson_of_den hab
      rw [hnum]
      refine .number (decimalText_ne_nil _ _ _) fun c hc => ?_
      rcases mem_decimalText hc with rfl | hdec
      · rfl
      · rw [isNumberChar, hdec, Bool.or_true]
    · rw [numJson_of_not_finite fun a b hab => hden ⟨a, b, hab⟩]
      exact canon_tagged (forall_mem_singleton.mpr (.string _))
  shape q := by
    by_cases hden : ∃ a b, q.den = 2 ^ a * 5 ^ b
    · obtain ⟨a, b, hab⟩ := hden
      obtain ⟨n, scale, hnum, -⟩ := numJson_of_den hab
      exact .inl ⟨_, hnum⟩
    · exact .inr ⟨_, numJson_of_not_finite fun a b hab => hden ⟨a, b, hab⟩⟩

/-- A plain value whose numbers are all exact. -/
def Value.Sound (v : Value) : Prop := v.Plain ∧ v.Nums Exact

theorem Value.Sound.part (h : v.Sound) (hw : w ∈ v.parts) : w.Sound :=
  ⟨h.1.part hw, h.2.part hw⟩

theorem eq_iff_toJson (hv : v.Sound) (hw : w.Sound) : v.eq w = true ↔ toJson v = toJson w :=
  eq_iff_render rendering_numJson (fun _ _ h h' => numJson_inj h h') hv.1 hv.2 w hw.1 hw.2

/-! ## Reading back -/

/-- A JSON value that reads as a sound value which is written the same way. -/
def Readable (j : Json) : Prop := ∃ v, fromJson j = some v ∧ v.Sound ∧ toJson v = j

theorem readable_items (h : ∀ j ∈ js, Readable j) :
    ∃ vs, fromItems js = some vs ∧ (∀ v ∈ vs, v.Sound) ∧ vs.map toJson = js := by
  induction js with
  | nil => exact ⟨[], rfl, forall_mem_nil _, rfl⟩
  | cons j js ih =>
    obtain ⟨⟨v, hread, hv, hwrite⟩, hrest⟩ := forall_mem_cons.mp h
    obtain ⟨vs, hreads, hvs, hwrites⟩ := ih hrest
    refine ⟨v :: vs, ?_, forall_mem_cons.mpr ⟨hv, hvs⟩, ?_⟩
    · rw [fromItems, hread, hreads]
      rfl
    · rw [map_cons, hwrite, hwrites]

theorem readable_entries (h : ∀ e ∈ es, Readable e.2) :
    ∃ fs, fromEntries es = some fs ∧ (∀ f ∈ fs, f.2.Sound) ∧ renderEntries numJson fs = es := by
  induction es with
  | nil => exact ⟨[], rfl, forall_mem_nil _, rfl⟩
  | cons e es ih =>
    obtain ⟨⟨v, hread, hv, hwrite⟩, hrest⟩ := forall_mem_cons.mp h
    obtain ⟨fs, hreads, hfs, hwrites⟩ := ih hrest
    refine ⟨(e.1, v) :: fs, ?_, forall_mem_cons.mpr ⟨hv, hfs⟩, ?_⟩
    · rw [fromEntries, hread, hreads]
      rfl
    · rw [renderEntries, hwrites]
      exact congrArg (fun j => (e.1, j) :: es) hwrite

/-- A pair whose two components can be read back. -/
def ReadablePair (j : Json) : Prop := ∃ a b, j = .array [a, b] ∧ Readable a ∧ Readable b

theorem readable_pairs (h : ∀ j ∈ js, ReadablePair j) :
    ∃ ps, fromPairs js = some ps ∧ (∀ p ∈ ps, p.1.Sound ∧ p.2.Sound) ∧
      renderPairs numJson ps = js := by
  induction js with
  | nil => exact ⟨[], rfl, forall_mem_nil _, rfl⟩
  | cons j js ih =>
    obtain ⟨⟨a, b, rfl, ⟨k, hk, hks, hkw⟩, ⟨v, hv, hvs, hvw⟩⟩, hrest⟩ :=
      forall_mem_cons.mp h
    obtain ⟨ps, hreads, hps, hwrites⟩ := ih hrest
    refine ⟨(k, v) :: ps, ?_, forall_mem_cons.mpr ⟨⟨hks, hvs⟩, hps⟩, ?_⟩
    · rw [fromPairs, hk, hv, hreads]
      rfl
    · rw [renderPairs, hwrites]
      exact congrArg₂ (fun a b => Json.array [a, b] :: js) hkw hvw

theorem sound_of_parts (hfn : v.NoFn) (hsep : v.Separate) (hnum : ∀ q, v ≠ .num q)
    (hparts : ∀ p ∈ v.parts, p.Sound) : v.Sound :=
  ⟨⟨⟨hfn, hsep⟩, fun p hp => (hparts p hp).1⟩,
    ⟨fun q hq => absurd hq (hnum q), fun p hp => (hparts p hp).2⟩⟩

theorem fromJson_set : fromJson (tagged "set" [("$items".toList, .array js)]) =
    (fromItems js).map .set := rfl

theorem fromJson_bag : fromJson (tagged "bag" [("$items".toList, .array js)]) =
    (fromItems js).map .bag := rfl

theorem fromJson_bagKV : fromJson (tagged "bagkv" [("$items".toList, .array js)]) =
    (fromPairs js).map .bagKV := rfl

theorem fromJson_prod :
    fromJson (tagged "prod" [("$fields".toList, .object es)]) = (fromEntries es).map .prod := rfl

theorem fromJson_bind {j' : Json} :
    fromJson (tagged "bind" [("$key".toList, j), ("$val".toList, j')]) =
      (fromJson j).bind fun k => (fromJson j').map fun v => .bind k v := rfl

theorem fromJson_some : fromJson (tagged "some" [("$value".toList, j)]) =
    (fromJson j).map .some_ := rfl

theorem fromJson_ok : fromJson (tagged "ok" [("$value".toList, j)]) =
    (fromJson j).map .ok_ := rfl

theorem fromJson_mapJson (h : (es.map Prod.fst).Nodup) :
    fromJson (mapJson es) = (fromEntries (collect es)).map .map := by
  rw [mapJson_eq h]
  split_ifs with hw
  · rfl
  unfold shouldWrapMap at hw
  cases htext : textAt "$type".toList (collect es) with
  | none => rw [fromJson, htext]
  | some ty =>
    rw [htext, Option.any_some, Bool.not_eq_true] at hw
    simp only [reservedJsonTag, any_cons, any_nil, Bool.or_eq_false_iff,
      beq_eq_false_iff_ne, ne_eq] at hw
    simp only [fromJson, htext, hw, if_false]

section Collections

variable {items : List Value} {es : List (Text × Value)}

theorem readable_sorted (h : ∀ v ∈ items, Readable (toJson v)) :
    ∀ j ∈ sortRendered (items.map toJson), Readable j := by
  intro j hj
  obtain ⟨v, hv, rfl⟩ := mem_map.mp ((sortRendered_perm _).mem_iff.mp hj)
  exact h v hv

theorem readable_bag (h : ∀ v ∈ items, Readable (toJson v)) : Readable (toJson (.bag items)) := by
  obtain ⟨vs, hread, hvs, hwrite⟩ := readable_items (readable_sorted h)
  have hjson : ∀ items, toJson (.bag items) =
      tagged "bag" [("$items".toList, .array (sortRendered (items.map toJson)))] := by
    intro items
    rw [toJson, render, renderItems_eq]
    rfl
  refine ⟨.bag vs, ?_, sound_of_parts trivial trivial (fun q hq => by cases hq) hvs, ?_⟩
  · rw [hjson, fromJson_bag, hread]
    rfl
  · rw [hjson, hjson, hwrite, sortRendered_sortRendered]

theorem toJson_set (h : (Value.set items).Separate) : toJson (.set items) =
    tagged "set" [("$items".toList, .array (sortRendered (items.map toJson)))] := by
  rw [toJson, render, renderItems_eq, canonicalizeSetItems_eq h]
  rfl

theorem readable_set (hv : (Value.set items).Sound) (h : ∀ v ∈ items, Readable (toJson v)) :
    Readable (toJson (.set items)) := by
  have hnodup : (items.map toJson).Nodup := by
    rw [List.Nodup, pairwise_map]
    refine hv.1.separate.imp_of_mem fun {a b} ha hb hab heq => ?_
    rw [(eq_iff_toJson (hv.part ha) (hv.part hb)).mpr heq] at hab
    cases hab
  obtain ⟨vs, hread, hvs, hwrite⟩ := readable_items (readable_sorted h)
  have hsep : (Value.set vs).Separate := by
    have hnodup' : (vs.map toJson).Nodup := by
      rw [hwrite]
      exact (sortRendered_perm _).nodup_iff.mpr hnodup
    rw [List.Nodup, pairwise_map] at hnodup'
    refine hnodup'.imp_of_mem fun {a b} ha hb hne => ?_
    rw [Bool.eq_false_iff, ne_eq, eq_iff_toJson (hvs a ha) (hvs b hb)]
    exact hne
  refine ⟨.set vs, ?_, sound_of_parts trivial hsep (fun q hq => by cases hq) hvs, ?_⟩
  · rw [toJson_set hv.1.separate, fromJson_set, hread]
    rfl
  · rw [toJson_set hv.1.separate, toJson_set hsep, hwrite, sortRendered_sortRendered]

theorem readable_bagKV {ps : List (Value × Value)}
    (h : ∀ p ∈ ps, Readable (toJson p.1) ∧ Readable (toJson p.2)) :
    Readable (toJson (.bagKV ps)) := by
  have hsorted : ∀ j ∈ sortRendered (renderPairs numJson ps), ReadablePair j := by
    intro j hj
    rw [(sortRendered_perm _).mem_iff, renderPairs_eq] at hj
    obtain ⟨p, hp, rfl⟩ := mem_map.mp hj
    exact ⟨toJson p.1, toJson p.2, rfl, h p hp⟩
  obtain ⟨ps', hread, hps', hwrite⟩ := readable_pairs hsorted
  have hsound : (bagKV ps').Sound := by
    refine sound_of_parts trivial trivial (fun q hq => by cases hq) fun v hv => ?_
    rcases mem_append.mp hv with hv | hv
    · obtain ⟨p, hp, rfl⟩ := mem_map.mp hv
      exact (hps' p hp).1
    · obtain ⟨p, hp, rfl⟩ := mem_map.mp hv
      exact (hps' p hp).2
  refine ⟨.bagKV ps', ?_, hsound, ?_⟩
  · rw [toJson, render, fromJson_bagKV, hread]
    rfl
  · rw [toJson, render, hwrite, sortRendered_sortRendered, toJson, render]

theorem readable_record (h : ∀ e ∈ es, Readable (toJson e.2)) :
    ∃ fs, fromEntries (collect (renderEntries numJson es)) = some fs ∧
      (fs.map Prod.fst).Nodup ∧ (∀ v ∈ fs.map Prod.snd, v.Sound) ∧
        renderEntries numJson fs = collect (renderEntries numJson es) := by
  have hreadable : ∀ e ∈ collect (renderEntries numJson es), Readable e.2 := by
    intro e he
    have hmem := mem_collect he
    rw [renderEntries_eq] at hmem
    obtain ⟨f, hf, rfl⟩ := mem_map.mp hmem
    exact h f hf
  obtain ⟨fs, hread, hfs, hwrite⟩ := readable_entries hreadable
  refine ⟨fs, hread, ?_, fun v hv => ?_, hwrite⟩
  · have hsorted := (sorted_collect (renderEntries numJson es)).nodup_keys
    rw [← hwrite, renderEntries_eq, map_map] at hsorted
    exact hsorted
  · obtain ⟨f, hf, rfl⟩ := mem_map.mp hv
    exact hfs f hf

theorem readable_map (hkeys : (es.map Prod.fst).Nodup)
    (h : ∀ e ∈ es, Readable (toJson e.2)) : Readable (toJson (.map es)) := by
  obtain ⟨fs, hread, hnodup, hfs, hwrite⟩ := readable_record h
  have hnames : ((renderEntries numJson es).map Prod.fst).Nodup := nodup_keys_renderEntries hkeys
  refine ⟨.map fs, ?_, sound_of_parts trivial hnodup (fun q hq => by cases hq) hfs, ?_⟩
  · rw [toJson, render, fromJson_mapJson hnames, hread]
    rfl
  · rw [toJson, toJson, render, render, mapJson_eq_iff (nodup_keys_renderEntries hnodup) hnames,
      hwrite]
    exact collect_perm hnames

theorem readable_prod (h : ∀ e ∈ es, Readable (toJson e.2)) : Readable (toJson (.prod es)) := by
  obtain ⟨fs, hread, hnodup, hfs, hwrite⟩ := readable_record h
  refine ⟨.prod fs, ?_, sound_of_parts trivial hnodup (fun q hq => by cases hq) hfs, ?_⟩
  · rw [toJson, render, Json.ofEntries, fromJson_prod, hread]
    rfl
  · rw [toJson, toJson, render, render, hwrite, Json.ofEntries, Json.ofEntries,
      collect_eq_self (sorted_collect _)]

end Collections

theorem readable_toJson (hv : v.Sound) : Readable (toJson v) := by
  induction v using ind with
  | step v ih =>
    have hleaf : ∀ {v : Value}, fromJson (toJson v) = some v → v.Sound → Readable (toJson v) :=
      fun {v} hread hv => ⟨v, hread, hv, rfl⟩
    have hparts : ∀ p ∈ v.parts, Readable (toJson p) := fun p hp => ih p hp (hv.part hp)
    cases v with
    | null | bool | str | none_ | fail_ => exact hleaf rfl hv
    | num q => exact hleaf ((fromJson_numJson_iff q).mpr (hv.2.here q rfl)) hv
    | bytes b =>
      refine hleaf ?_ hv
      change (decodeBase16 (encodeBase16 b)).toOption.map bytes = _
      rw [decodeBase16_encodeBase16]
      rfl
    | seq items =>
      have hitems : ∀ j ∈ items.map toJson, Readable j := by
        intro j hj
        obtain ⟨v, hv, rfl⟩ := mem_map.mp hj
        exact hparts v hv
      obtain ⟨vs, hread, hvs, hwrite⟩ := readable_items hitems
      have hjson : ∀ items, toJson (.seq items) = .array (items.map toJson) := by
        intro items
        rw [toJson, render, renderItems_eq]
        rfl
      refine ⟨.seq vs, ?_, sound_of_parts trivial trivial (fun q hq => by cases hq) hvs, ?_⟩
      · rw [hjson, fromJson, hread]
        rfl
      · rw [hjson, hjson, hwrite]
    | set items => exact readable_set hv hparts
    | bag items => exact readable_bag hparts
    | map es =>
      exact readable_map hv.1.separate fun e he => hparts e.2 (mem_map_of_mem he)
    | prod es =>
      exact readable_prod fun e he => hparts e.2 (mem_map_of_mem he)
    | bagKV ps =>
      exact readable_bagKV fun p hp =>
        ⟨hparts p.1 (mem_append_left _ (mem_map_of_mem hp)),
          hparts p.2 (mem_append_right _ (mem_map_of_mem hp))⟩
    | bind k x =>
      obtain ⟨k', hk, hks, hkw⟩ := hparts k mem_cons_self
      obtain ⟨x', hx, hxs, hxw⟩ := hparts x (mem_cons_of_mem k mem_cons_self)
      refine ⟨.bind k' x', ?_, sound_of_parts trivial trivial (fun q hq => by cases hq) ?_, ?_⟩
      · change fromJson (tagged "bind" [("$key".toList, toJson k), ("$val".toList, toJson x)]) = _
        rw [fromJson_bind, hk, hx]
        rfl
      · exact forall_mem_cons.mpr ⟨hks, forall_mem_singleton.mpr hxs⟩
      · exact congrArg₂ (fun a b => tagged "bind" [("$key".toList, a), ("$val".toList, b)]) hkw hxw
    | some_ x =>
      obtain ⟨x', hx, hxs, hxw⟩ := hparts x mem_cons_self
      refine ⟨.some_ x', ?_, sound_of_parts trivial trivial (fun q hq => by cases hq)
        (forall_mem_singleton.mpr hxs), ?_⟩
      · change fromJson (tagged "some" [("$value".toList, toJson x)]) = _
        rw [fromJson_some, hx]
        rfl
      · exact congrArg (fun a => tagged "some" [("$value".toList, a)]) hxw
    | ok_ x =>
      obtain ⟨x', hx, hxs, hxw⟩ := hparts x mem_cons_self
      refine ⟨.ok_ x', ?_, sound_of_parts trivial trivial (fun q hq => by cases hq)
        (forall_mem_singleton.mpr hxs), ?_⟩
      · change fromJson (tagged "ok" [("$value".toList, toJson x)]) = _
        rw [fromJson_ok, hx]
        rfl
      · exact congrArg (fun a => tagged "ok" [("$value".toList, a)]) hxw
    | lambda => exact absurd hv.1.noFn id

/-! ## The bridge -/

section Class

variable {S : Value → Prop}

theorem nums_of_class {N : ExactNum → Prop} (hparts : ∀ v, S v → ∀ p ∈ v.parts, S p)
    (h : ∀ q, S (.num q) → N q) (hv : S v) : v.Nums N := by
  induction v using ind with
  | step v ih =>
    refine ⟨fun q hq => h q (hq ▸ hv), fun p hp => ih p hp (hparts v hv p hp)⟩

theorem eq_of_eq_num (h : v.eq (.num q) = true) : v = .num q := by
  cases v with
  | num q' => rw [show q' = q by simpa [eq] using h]
  | _ => cases h

/-- **The bridge is lossless and canonical exactly for exact numbers**: in every class of plain
values that contains the parts of its members. -/
theorem json_bridge_iff (hplain : ∀ v, S v → v.Plain) (hparts : ∀ v, S v → ∀ p ∈ v.parts, S p) :
    ((∀ a, S a → ∃ v, fromJson (toJson a) = some v ∧ v.eq a = true) ∧
      ∀ a b, S a → S b → (toJson a = toJson b ↔ a.eq b = true)) ↔
        ∀ a, S a → a.Nums Exact := by
  constructor
  · rintro ⟨hread, -⟩ a ha
    refine nums_of_class hparts (fun q hq => ?_) ha
    obtain ⟨v, hv, heq⟩ := hread (.num q) hq
    exact (fromJson_numJson_iff q).mp (hv.trans (congrArg some (eq_of_eq_num heq)))
  · intro hexact
    have hsound : ∀ a, S a → a.Sound := fun a ha => ⟨hplain a ha, hexact a ha⟩
    refine ⟨fun a ha => ?_, fun a b ha hb => (eq_iff_toJson (hsound a ha) (hsound b hb)).symm⟩
    obtain ⟨v, hread, hv, hwrite⟩ := readable_toJson (hsound a ha)
    exact ⟨v, hread, (eq_iff_toJson hv (hsound a ha)).mpr hwrite⟩

end Class

/-- A map that looks like a tagged set, with a number that is written as it is. -/
def tagLike : Value := .map [("$type".toList, .str "set".toList), ("n".toList, .num (1 / 10))]

/-- The sound values are such a class; a map that looks like a tagged set is one of them. -/
theorem tagLike_reads_back : ∃ v, fromJson (toJson tagLike) = some v ∧ v.eq tagLike = true := by
  have hkeys : ["$type".toList, "n".toList].Nodup := by decide
  have htext : (str "set".toList).Sound :=
    sound_of_parts trivial trivial (fun q hq => by cases hq) (forall_mem_nil _)
  have htenth : (num (1 / 10)).Sound := by
    refine ⟨⟨⟨trivial, trivial⟩, forall_mem_nil _⟩, ⟨fun q hq => ?_, forall_mem_nil _⟩⟩
    obtain rfl := num.inj hq
    exact (exact_of_den (a := 1) (b := 1) (by decide +kernel)).mpr ⟨rfl, by decide⟩
  have hsound : tagLike.Sound := sound_of_parts trivial hkeys (fun q hq => by cases hq)
    (forall_mem_cons.mpr ⟨htext, forall_mem_singleton.mpr htenth⟩)
  exact ((json_bridge_iff (S := Value.Sound) (fun _ h => h.1) fun _ h _ => h.part).mpr
    fun _ h => h.2).1 tagLike hsound

/-- One half is written as 0.2 and reads back as one fifth. -/
theorem half_reads_as_fifth : toJson (.num (1 / 2)) = .number "0.2".toList ∧
    fromJson (toJson (.num (1 / 2))) = some (.num (1 / 5)) ∧
      (Value.num (1 / 5)).eq (.num (1 / 2)) = false := by
  have hwrite : toJson (.num (1 / 2)) = .number "0.2".toList := by
    have htext : finiteDecimalString (1 / 2) = some "0.2".toList := by decide +kernel
    rw [toJson, render, numJson, htext]
  refine ⟨hwrite, ?_, by decide +kernel⟩
  have hread : parseLiteral "0.2".toList = .ok (1 / 5) := by decide +kernel
  rw [hwrite, fromJson, hread]

end Residiuum.Sda
