import Residiuum.Sda.JsonText

/-!
# Renderings decide equality

For values without functions whose keys and members are distinct, two values are equal exactly when
they render the same. Everything the evaluator's equality must satisfy follows from this, whatever
way of writing numbers the rendering uses, as long as it tells the numbers apart.

* `Json.kind`, `kind_render`: the kind of a value can be read off its rendering; this is what the
  escape rule for maps with a reserved `$type` is for.
* **`eq_iff_render`**: equality of values is equality of renderings.
-/

namespace Residiuum.Sda

open DistinctLib Json List MatchLib SortedMapLib Value

/-- A way to write numbers that no other kind of value is confused with. -/
structure Rendering (num : ExactNum → Json) : Prop where
  canon : ∀ q, (num q).Canon
  shape : ∀ q, (∃ t, num q = .number t) ∨
    ∃ t, num q = tagged "num" [("$value".toList, .string t)]

section Lists

variable (num : ExactNum → Json)

theorem renderItems_eq (vs : List Value) : renderItems num vs = vs.map (render num) := by
  induction vs with
  | nil => rfl
  | cons v vs ih => rw [renderItems, ih, map_cons]

theorem renderEntries_eq (es : List (Text × Value)) :
    renderEntries num es = es.map fun e => (e.1, render num e.2) := by
  induction es with
  | nil => rfl
  | cons e es ih => rw [renderEntries, ih, map_cons]

def renderPair (p : Value × Value) : Json := .array [render num p.1, render num p.2]

theorem renderPairs_eq (ps : List (Value × Value)) :
    renderPairs num ps = ps.map (renderPair num) := by
  induction ps with
  | nil => rfl
  | cons p ps ih => rw [renderPairs, ih, map_cons, renderPair]

end Lists

/-! ## Tagged objects -/

section Tagged

variable (tag : String) (j j' : Json)

theorem tagged_items : tagged tag [("$items".toList, j)] =
    .object [("$items".toList, j), ("$type".toList, .string tag.toList)] := rfl

theorem tagged_base16 : tagged tag [("$base16".toList, j)] =
    .object [("$base16".toList, j), ("$type".toList, .string tag.toList)] := rfl

theorem tagged_entries : tagged tag [("$entries".toList, j)] =
    .object [("$entries".toList, j), ("$type".toList, .string tag.toList)] := rfl

theorem tagged_fields : tagged tag [("$fields".toList, j)] =
    .object [("$fields".toList, j), ("$type".toList, .string tag.toList)] := rfl

theorem tagged_value : tagged tag [("$value".toList, j)] =
    .object [("$type".toList, .string tag.toList), ("$value".toList, j)] := rfl

theorem tagged_key_val : tagged tag [("$key".toList, j), ("$val".toList, j')] =
    .object [("$key".toList, j), ("$type".toList, .string tag.toList), ("$val".toList, j')] := rfl

theorem tagged_code_msg : tagged tag [("$code".toList, j), ("$msg".toList, j')] =
    .object [("$code".toList, j), ("$msg".toList, j'), ("$type".toList, .string tag.toList)] := rfl

end Tagged

theorem mem_collect {κ ν : Type} [Ord κ] {es : List (κ × ν)} {e : κ × ν} (h : e ∈ collect es) :
    e ∈ es := by
  have hfold : ∀ (es m : List (κ × ν)), e ∈ es.foldl (fun m e => insertKey e.1 e.2 m) m →
      e ∈ es ∨ e ∈ m := by
    intro es
    induction es with
    | nil => exact fun m h => .inr h
    | cons x es ih =>
      intro m h
      rcases ih _ h with h | h
      · exact .inl (mem_cons_of_mem x h)
      · rcases mem_insertKey h with rfl | h
        · exact .inl mem_cons_self
        · exact .inr h
  exact (hfold es [] h).resolve_right nofun

variable {es : List (Text × Json)}

theorem canon_ofEntries (h : ∀ e ∈ es, e.2.Canon) : (ofEntries es).Canon :=
  .object (sorted_collect es) fun e he => h e (mem_collect he)

theorem canon_tagged {tag : String} {fields : List (Text × Json)} (h : ∀ e ∈ fields, e.2.Canon) :
    (tagged tag fields).Canon :=
  canon_ofEntries (forall_mem_cons.mpr ⟨.string _, h⟩)

theorem canonicalizeMapEntries_eq (h : (es.map Prod.fst).Nodup) :
    canonicalizeMapEntries es = collect es := by
  refine sortBy_eq_of_sorted (collect_perm h).symm ((sorted_collect es).imp fun {a b} hab => ?_)
    fun a ha b hb hab => ?_
  · rw [hab]
    rfl
  · exact inj_on_of_nodup_map h ha hb (Std.LawfulEqOrd.eq_of_compare hab)

theorem mapJson_eq (h : (es.map Prod.fst).Nodup) : mapJson es = if shouldWrapMap (collect es) then
      tagged "map" [("$entries".toList, .object (collect es))] else .object (collect es) := by
  simp only [mapJson, canonicalizeMapEntries_eq h, ofEntries,
    collect_eq_self (sorted_collect es)]

theorem mapJson_eq_iff {es es' : List (Text × Json)} (h : (es.map Prod.fst).Nodup)
    (h' : (es'.map Prod.fst).Nodup) : mapJson es = mapJson es' ↔ es.Perm es' := by
  rw [← collect_eq_iff h h', mapJson_eq h, mapJson_eq h']
  constructor
  · intro heq
    by_cases hw : shouldWrapMap (collect es) = true
    · by_cases hw' : shouldWrapMap (collect es') = true
      · rw [if_pos hw, if_pos hw', tagged_entries, tagged_entries] at heq
        simpa using heq
      · rw [if_pos hw, if_neg hw', tagged_entries] at heq
        refine absurd ?_ hw'
        rw [← object.inj heq]
        rfl
    · by_cases hw' : shouldWrapMap (collect es') = true
      · rw [if_neg hw, if_pos hw', tagged_entries] at heq
        refine absurd ?_ hw
        rw [object.inj heq]
        rfl
      · rw [if_neg hw, if_neg hw'] at heq
        exact object.inj heq
  · intro heq
    rw [heq]

/-! ## Kinds -/

/-- Kinds of values. -/
inductive Kind where
  | null
  | bool
  | num
  | str
  | bytes
  | seq
  | set
  | bag
  | map
  | prod
  | bagKV
  | bind
  | some_
  | none_
  | ok_
  | fail_
  | lambda
  deriving DecidableEq

def Value.kind : Value → Kind
  | .null => .null
  | .bool _ => .bool
  | .num _ => .num
  | .str _ => .str
  | .bytes _ => .bytes
  | .seq _ => .seq
  | .set _ => .set
  | .bag _ => .bag
  | .map _ => .map
  | .prod _ => .prod
  | .bagKV _ => .bagKV
  | .bind _ _ => .bind
  | .some_ _ => .some_
  | .none_ => .none_
  | .ok_ _ => .ok_
  | .fail_ _ _ => .fail_
  | .lambda _ _ _ => .lambda

/-- The kind that a `$type` names. -/
def tagKind (ty : Text) : Kind :=
  if ty = "num".toList then .num else if ty = "bytes".toList then .bytes
  else if ty = "set".toList then .set else if ty = "bag".toList then .bag
  else if ty = "prod".toList then .prod else if ty = "bagkv".toList then .bagKV
  else if ty = "bind".toList then .bind else if ty = "some".toList then .some_
  else if ty = "none".toList then .none_ else if ty = "ok".toList then .ok_
  else if ty = "fail".toList then .fail_ else if ty = "fn".toList then .lambda
  else .map

def Json.kind : Json → Kind
  | .null => .null
  | .bool _ => .bool
  | .number _ => .num
  | .string _ => .str
  | .array _ => .seq
  | .object es => ((textAt "$type".toList es).map tagKind).getD .map

theorem tagKind_of_not_reserved {ty : Text} (h : reservedJsonTag ty = false) :
    tagKind ty = .map := by
  simp only [reservedJsonTag, any_cons, any_nil, Bool.or_eq_false_iff, beq_eq_false_iff_ne,
    ne_eq] at h
  simp only [tagKind, h, if_false]

variable {num : ExactNum → Json} {items : List Value} {f : Value → Json} {v : Value}

theorem kind_render (hnum : Rendering num) (hv : v.Separate) : (render num v).kind = v.kind := by
  cases v with
  | num q =>
    rcases hnum.shape q with ⟨t, ht⟩ | ⟨t, ht⟩
    all_goals
      rw [render, ht]
      rfl
  | map es =>
    have hkeys : ((renderEntries num es).map Prod.fst).Nodup := by
      rw [renderEntries_eq, map_map]
      exact hv
    rw [render, mapJson_eq hkeys]
    split_ifs with hw
    · rfl
    · change ((textAt "$type".toList (collect (renderEntries num es))).map tagKind).getD .map = .map
      unfold shouldWrapMap at hw
      cases htext : textAt "$type".toList (collect (renderEntries num es)) with
      | none => rfl
      | some ty =>
        rw [htext] at hw
        exact tagKind_of_not_reserved (by simpa using hw)
  | _ => rfl

theorem eq_of_kind_ne {v w : Value} (h : v.kind ≠ w.kind) : v.eq w = false := by
  cases v <;> cases w <;> first | rfl | exact absurd rfl h

theorem foldl_pushUnique {l acc : List (Value × Json)}
    (h : (acc ++ l).Pairwise fun a b => a.1.eq b.1 = false) :
    l.foldl pushUnique acc = acc ++ l := by
  induction l generalizing acc with
  | nil => rw [append_nil, foldl_nil]
  | cons x l ih =>
    have hnew : (acc.any fun existing => existing.1.eq x.1) = false := by
      rw [any_eq_false]
      intro a ha
      rw [(pairwise_append.mp h).2.2 a ha x mem_cons_self]
      exact Bool.false_ne_true
    have happ : acc ++ [x] ++ l = acc ++ x :: l := by simp
    rw [foldl_cons, pushUnique, hnew, if_neg Bool.false_ne_true, ih (happ ▸ h), happ]

theorem zip_map_self {α β : Type} (f : α → β) (l : List α) :
    l.zip (l.map f) = l.map fun x => (x, f x) := by
  rw [← zip_map', map_id']

theorem canonicalizeSetItems_eq (h : items.Pairwise fun a b => a.eq b = false) :
    canonicalizeSetItems (items.zip (items.map f)) = sortRendered (items.map f) := by
  have hpair : (items.zip (items.map f)).Pairwise fun a b => a.1.eq b.1 = false := by
    rw [zip_map_self, pairwise_map]
    exact h
  rw [canonicalizeSetItems, foldl_pushUnique (by rwa [nil_append]), nil_append,
    zip_map_self, map_map]
  rfl

theorem mem_canonicalizeSetItems {j : Json}
    (h : j ∈ canonicalizeSetItems (items.zip (items.map f))) : ∃ v ∈ items, f v = j := by
  have hfold : ∀ (l acc : List (Value × Json)) (x : Value × Json), x ∈ l.foldl pushUnique acc →
      x ∈ acc ∨ x ∈ l := by
    intro l
    induction l with
    | nil => exact fun acc x h => .inl h
    | cons y l ih =>
      intro acc x h
      rcases ih _ x h with h | h
      · unfold pushUnique at h
        split_ifs at h
        · exact .inl h
        · rcases mem_append.mp h with h | h
          · exact .inl h
          · exact .inr (mem_singleton.mp h ▸ mem_cons_self)
      · exact .inr (mem_cons_of_mem y h)
  have hmem := (sortRendered_perm _).mem_iff.mp h
  obtain ⟨⟨v, j'⟩, hx, rfl⟩ := mem_map.mp hmem
  rcases hfold _ _ _ hx with hx | hx
  · cases hx
  · rw [zip_map_self, mem_map] at hx
    obtain ⟨a, ha, heq⟩ := hx
    obtain ⟨rfl, rfl⟩ := Prod.mk.inj heq
    exact ⟨a, ha, rfl⟩

theorem canon_render (hnum : Rendering num) (v : Value) : (render num v).Canon := by
  have hsorted : ∀ {l : List Json}, (∀ j ∈ l, j.Canon) → (array (sortRendered l)).Canon :=
    fun h => .array fun j hj => h j ((sortRendered_perm _).mem_iff.mp hj)
  induction v using ind with
  | step v ih =>
    have hentries : ∀ es : List (Text × Value), (∀ e ∈ es, e.2 ∈ v.parts) →
        ∀ e ∈ renderEntries num es, e.2.Canon := by
      intro es hes e he
      rw [renderEntries_eq, mem_map] at he
      obtain ⟨e, he, rfl⟩ := he
      exact ih e.2 (hes e he)
    cases v with
    | null => exact .null
    | bool b => exact .bool b
    | num q => exact hnum.canon q
    | str s => exact .string s
    | bytes b => exact canon_tagged (by simpa using Json.Canon.string _)
    | seq items =>
      rw [render, renderItems_eq]
      refine .array fun j hj => ?_
      obtain ⟨v, hv, rfl⟩ := mem_map.mp hj
      exact ih v hv
    | set items =>
      rw [render, renderItems_eq]
      refine canon_tagged (forall_mem_singleton.mpr (.array fun j hj => ?_))
      obtain ⟨v, hv, rfl⟩ := mem_canonicalizeSetItems hj
      exact ih v hv
    | bag items =>
      rw [render, renderItems_eq]
      refine canon_tagged (forall_mem_singleton.mpr (hsorted fun j hj => ?_))
      obtain ⟨v, hv, rfl⟩ := mem_map.mp hj
      exact ih v hv
    | map es =>
      have hmapped : ∀ e ∈ canonicalizeMapEntries (renderEntries num es), e.2.Canon := fun e he =>
        hentries es (fun e he => mem_map_of_mem he) e ((sortBy_perm _ _).mem_iff.mp he)
      rw [render, mapJson]
      split_ifs
      · exact canon_tagged (forall_mem_singleton.mpr (canon_ofEntries hmapped))
      · exact canon_ofEntries hmapped
    | prod es =>
      exact canon_tagged (forall_mem_singleton.mpr
        (canon_ofEntries (hentries es fun e he => mem_map_of_mem he)))
    | bagKV ps =>
      rw [render, renderPairs_eq]
      refine canon_tagged (forall_mem_singleton.mpr (hsorted fun j hj => ?_))
      obtain ⟨p, hp, rfl⟩ := mem_map.mp hj
      refine .array fun j hj => ?_
      simp only [mem_cons, not_mem_nil, or_false] at hj
      rcases hj with rfl | rfl
      · exact ih p.1 (mem_append_left _ (mem_map_of_mem hp))
      · exact ih p.2 (mem_append_right _ (mem_map_of_mem hp))
    | bind k w =>
      refine canon_tagged fun e he => ?_
      simp only [mem_cons, not_mem_nil, or_false] at he
      rcases he with rfl | rfl
      · exact ih k mem_cons_self
      · exact ih w (mem_cons_of_mem k mem_cons_self)
    | some_ w | ok_ w => exact canon_tagged (forall_mem_singleton.mpr (ih w mem_cons_self))
    | none_ | lambda => exact canon_tagged (by simp)
    | fail_ code msg =>
      refine canon_tagged fun e he => ?_
      simp only [mem_cons, not_mem_nil, or_false] at he
      rcases he with rfl | rfl <;> exact .string _

/-! ## Equality of renderings -/

/-- Every number in the value, at every depth, is in `N`. -/
def Value.Nums (N : ExactNum → Prop) (v : Value) : Prop :=
  Value.Every (fun w => ∀ q, w = .num q → N q) v

theorem encodeBase16_inj {b b' : List UInt8} (h : encodeBase16 b = encodeBase16 b') : b = b' := by
  have hread := congrArg decodeBase16 h
  rw [decodeBase16_encodeBase16, decodeBase16_encodeBase16] at hread
  exact Except.ok.inj hread

section Equality

variable {N : ExactNum → Prop}

/-- A value equals the values that render the same. -/
def Decides (num : ExactNum → Json) (N : ExactNum → Prop) (v : Value) : Prop :=
  ∀ w : Value, w.Plain → w.Nums N → (v.eq w = true ↔ render num v = render num w)

variable {items items' : List Value}

theorem decides_seq (hitems : ∀ v ∈ items, Decides num N v)
    (hitems' : ∀ w ∈ items', w.Plain ∧ w.Nums N) :
    (seq items).eq (.seq items') = true ↔
      render num (.seq items) = render num (.seq items') := by
  rw [eq, seqEqual_iff, render, render, array.injEq, renderItems_eq,
    renderItems_eq]
  induction items generalizing items' with
  | nil => cases items' <;> simp
  | cons v items ih =>
    cases items' with
    | nil => simp
    | cons w items' =>
      rw [forall_mem_cons] at hitems hitems'
      rw [List.forall₂_cons, map_cons, map_cons, List.cons.injEq,
        ih hitems.2 hitems'.2, hitems.1 w hitems'.1.1 hitems'.1.2]

theorem canon_map_render (hnum : Rendering num) : ∀ j ∈ items.map (render num), j.Canon := by
  intro j hj
  obtain ⟨v, -, rfl⟩ := mem_map.mp hj
  exact canon_render hnum v

theorem decides_bag (hnum : Rendering num) (hitems : ∀ v ∈ items, Decides num N v)
    (hitems' : ∀ w ∈ items', w.Plain ∧ w.Nums N) :
    (bag items).eq (.bag items') = true ↔
      render num (.bag items) = render num (.bag items') := by
  have hmatch := matchAll_iff_perm (r := eq) (f := render num) (g := render num)
    fun v hv w hw => hitems v hv w (hitems' w hw).1 (hitems' w hw).2
  rw [eq, Bool.and_eq_true, beq_iff_eq, multisetEqual_eq, hmatch, render, render,
    tagged_items, tagged_items, renderItems_eq, renderItems_eq,
    ← sortRendered_eq_iff (canon_map_render hnum)]
  simp

theorem decides_set (hnum : Rendering num) (hv : (Value.set items).Plain)
    (hw : (Value.set items').Plain) (hvn : (Value.set items).Nums N)
    (hwn : (Value.set items').Nums N) (hitems : ∀ v ∈ items, Decides num N v) :
    (Value.set items).eq (.set items') = true ↔
      render num (.set items) = render num (.set items') := by
  have hnodup : (items.map (render num)).Nodup := by
    rw [List.Nodup, pairwise_map]
    refine hv.separate.imp_of_mem fun {a b} ha hb hab heq => ?_
    rw [(hitems a ha b (hv.part hb) (hvn.part hb)).mpr heq] at hab
    cases hab
  have heq : ∀ v ∈ items, ∀ w ∈ items', v.eq w = true ↔ render num v = render num w :=
    fun v hm w hm' => hitems v hm w (hw.part hm') (hwn.part hm')
  have hmatch := all_any_iff_perm heq hnodup
  rw [Value.eq, Bool.and_eq_true, beq_iff_eq, Value.setEqual_eq, hmatch, render, render,
    tagged_items, tagged_items, renderItems_eq, renderItems_eq,
    canonicalizeSetItems_eq hv.separate, canonicalizeSetItems_eq hw.separate,
    ← sortRendered_eq_iff (canon_map_render hnum)]
  simp

theorem decides_entries {es es' : List (Text × Value)} (hes : ∀ e ∈ es, Decides num N e.2)
    (hes' : ∀ e ∈ es', e.2.Plain ∧ e.2.Nums N) (hkeys : (es.map Prod.fst).Nodup)
    (hkeys' : (es'.map Prod.fst).Nodup) :
    (es.length = es'.length ∧ kvExtensionalEqual es es' = true) ↔
      (renderEntries num es).Perm (renderEntries num es') := by
  rw [kvExtensionalEqual_eq, renderEntries_eq, renderEntries_eq]
  exact all_find_iff_perm (s := eq) (u := render num) (v := render num)
    (fun e he e' he' => hes e he e'.2 (hes' e' he').1 (hes' e' he').2) hkeys hkeys'

theorem nodup_keys_renderEntries {es : List (Text × Value)} (h : (es.map Prod.fst).Nodup) :
    ((renderEntries num es).map Prod.fst).Nodup := by
  rw [renderEntries_eq, map_map]
  exact h

theorem decides_bagKV (hnum : Rendering num) {ps ps' : List (Value × Value)}
    (hps : ∀ p ∈ ps, Decides num N p.1 ∧ Decides num N p.2)
    (hps' : ∀ p ∈ ps', (p.1.Plain ∧ p.1.Nums N) ∧ p.2.Plain ∧ p.2.Nums N) :
    (bagKV ps).eq (.bagKV ps') = true ↔
      render num (.bagKV ps) = render num (.bagKV ps') := by
  have hcanon : ∀ j ∈ renderPairs num ps, j.Canon := by
    intro j hj
    rw [renderPairs_eq] at hj
    obtain ⟨p, -, rfl⟩ := mem_map.mp hj
    refine .array fun j hj => ?_
    simp only [mem_cons, not_mem_nil, or_false] at hj
    rcases hj with rfl | rfl <;> exact canon_render hnum _
  have heq : ∀ p ∈ ps, ∀ p' ∈ ps', (p.1.eq p'.1 && p.2.eq p'.2) = true ↔
      renderPair num p = renderPair num p' := by
    intro p hp p' hp'
    rw [Bool.and_eq_true, (hps p hp).1 p'.1 (hps' p' hp').1.1 (hps' p' hp').1.2,
      (hps p hp).2 p'.2 (hps' p' hp').2.1 (hps' p' hp').2.2]
    simp [renderPair]
  have hmatch := matchAll_iff_perm (r := fun p p' : Value × Value => p.1.eq p'.1 && p.2.eq p'.2) heq
  rw [eq, Bool.and_eq_true, beq_iff_eq, bagkvEqual_eq, hmatch, ← renderPairs_eq,
    ← renderPairs_eq, render, render, tagged_items, tagged_items, ← sortRendered_eq_iff hcanon]
  simp

theorem eq_iff_render (hnum : Rendering num)
    (hinj : ∀ q q', N q → N q' → num q = num q' → q = q') (hv : v.Plain)
    (hvn : v.Nums N) : Decides num N v := by
  induction v using ind with
  | step v ih =>
    intro w hw hwn
    have hother : v.kind ≠ w.kind → (v.eq w = true ↔ render num v = render num w) := by
      intro hkind
      rw [eq_of_kind_ne hkind]
      refine iff_of_false Bool.false_ne_true fun heq => hkind ?_
      rw [← kind_render hnum hv.separate, heq, kind_render hnum hw.separate]
    have hparts : ∀ p ∈ v.parts, Decides num N p := fun p hp => ih p hp (hv.part hp) (hvn.part hp)
    have hparts' : ∀ p ∈ w.parts, p.Plain ∧ p.Nums N := fun p hp => ⟨hw.part hp, hwn.part hp⟩
    cases v <;> cases w
    all_goals try (refine hother fun h => ?_; cases h; done)
    case null.null | none_.none_ => exact iff_of_true rfl rfl
    case bool.bool | str.str => simp [eq, render]
    case num.num q q' =>
      rw [eq, beq_iff_eq, render, render]
      exact ⟨fun h => by rw [h], hinj q q' (hvn.here q rfl) (hwn.here q' rfl)⟩
    case bytes.bytes =>
      rw [eq, beq_iff_eq, render, render, tagged_base16, tagged_base16]
      exact ⟨fun h => by rw [h], fun h => encodeBase16_inj (by simpa using h)⟩
    case seq.seq => exact decides_seq hparts hparts'
    case set.set => exact decides_set hnum hv hw hvn hwn hparts
    case bag.bag => exact decides_bag hnum hparts hparts'
    case map.map =>
      rw [eq, Bool.and_eq_true, beq_iff_eq, decides_entries
        (fun e he => hparts e.2 (mem_map_of_mem he))
        (fun e he => hparts' e.2 (mem_map_of_mem he)) hv.separate hw.separate, render, render,
        mapJson_eq_iff (nodup_keys_renderEntries hv.separate)
          (nodup_keys_renderEntries hw.separate)]
    case prod.prod =>
      rw [eq, Bool.and_eq_true, beq_iff_eq, decides_entries
        (fun e he => hparts e.2 (mem_map_of_mem he))
        (fun e he => hparts' e.2 (mem_map_of_mem he)) hv.separate hw.separate, render, render,
        tagged_fields, tagged_fields, ← collect_eq_iff (nodup_keys_renderEntries hv.separate)
          (nodup_keys_renderEntries hw.separate)]
      simp [ofEntries]
    case bagKV.bagKV =>
      refine decides_bagKV hnum (fun p hp => ⟨hparts p.1 ?_, hparts p.2 ?_⟩)
        fun p hp => ⟨hparts' p.1 ?_, hparts' p.2 ?_⟩
      all_goals first
        | exact mem_append_left _ (mem_map_of_mem hp)
        | exact mem_append_right _ (mem_map_of_mem hp)
    case bind.bind k x k' x' =>
      obtain ⟨hk, hx⟩ := forall_mem_cons.mp hparts
      obtain ⟨hk', hx'⟩ := forall_mem_cons.mp hparts'
      obtain ⟨hx', hxn'⟩ := forall_mem_singleton.mp hx'
      rw [eq, Bool.and_eq_true, hk k' hk'.1 hk'.2, forall_mem_singleton.mp hx x' hx' hxn', render,
        render, tagged_key_val, tagged_key_val]
      simp
    case some_.some_ x x' | ok_.ok_ x x' =>
      obtain ⟨hx, hxn⟩ := forall_mem_singleton.mp hparts'
      rw [eq, forall_mem_singleton.mp hparts x' hx hxn, render, render, tagged_value, tagged_value]
      simp
    case fail_.fail_ =>
      rw [eq, Bool.and_eq_true, beq_iff_eq, beq_iff_eq, render, render, tagged_code_msg,
        tagged_code_msg]
      simp
    case lambda.lambda => exact absurd hv.noFn id

end Equality

end Residiuum.Sda
