import Mathlib.Data.List.Pairwise
import Residiuum.Sda.Render

/-!
# When equality is an equivalence

`PartialEq for Value` compares sets, maps and products by looking every left member up on the right,
and relies on the lengths for the other direction. That is an equivalence as long as no set repeats
a member and no map or product repeats a key, which neither `from_json` nor the evaluation of a
literal makes sure of.

* **`value_eq_equivalence_iff`**: in a class of values that contains the plain ones and the parts of
  its members, equality is an equivalence exactly when all members are plain.
-/

namespace Residiuum.Sda

open Bool List MatchLib Value

/-! ## The laws on plain values -/

/-- A number as a fraction, which loses nothing. -/
def fractionJson (q : ExactNum) : Json :=
  tagged "num" [("$value".toList, .string (intText q.num ++ '/' :: Nat.toDigits 10 q.den))]

theorem rendering_fractionJson : Rendering fractionJson where
  canon _ := canon_tagged (forall_mem_singleton.mpr (.string _))
  shape _ := .inr ⟨_, rfl⟩

theorem fractionJson_inj {q q' : ExactNum} (h : fractionJson q = fractionJson q') : q = q' := by
  have htext : intText q.num ++ '/' :: Nat.toDigits 10 q.den =
      intText q'.num ++ '/' :: Nat.toDigits 10 q'.den := by
    rw [fractionJson, fractionJson, tagged_value, tagged_value] at h
    simpa using h
  have hslash : ∀ q : ExactNum, splitOnce (· == '/')
      (intText q.num ++ '/' :: Nat.toDigits 10 q.den) =
        some (intText q.num, Nat.toDigits 10 q.den) := by
    intro q
    refine splitOnce_append (fun c hc => ?_) (by decide)
    rcases mem_intText hc with rfl | hdigit
    · decide
    · exact beq_eq_false_iff_ne.mpr (ne_of_isDigit hdigit (by decide))
  have hsplit := congrArg (splitOnce (· == '/')) htext
  rw [hslash, hslash] at hsplit
  obtain ⟨hnum, hden⟩ := Prod.mk.inj (Option.some.inj hsplit)
  have hnum' := congrArg parseBigInt hnum
  have hden' := congrArg parseBigUint hden
  rw [parseBigInt_intText, parseBigInt_intText] at hnum'
  rw [parseBigUint_toDigits, parseBigUint_toDigits] at hden'
  exact Rat.ext (Option.some.inj hnum') (Option.some.inj hden')

theorem nums_true (v : Value) : v.Nums fun _ => True := by
  induction v using ind with
  | step v ih => exact ⟨fun _ _ => trivial, ih⟩

section Laws

variable {u v w : Value}

theorem plain_eq_iff (hv : v.Plain) (hw : w.Plain) :
    v.eq w = true ↔ render fractionJson v = render fractionJson w :=
  eq_iff_render rendering_fractionJson (fun _ _ _ _ => fractionJson_inj) hv (nums_true v) w hw
    (nums_true w)

theorem eq_refl (hv : v.Plain) : v.eq v = true := (plain_eq_iff hv hv).mpr rfl

theorem eq_symm (hv : v.Plain) (hw : w.Plain) (h : v.eq w = true) : w.eq v = true :=
  (plain_eq_iff hw hv).mpr ((plain_eq_iff hv hw).mp h).symm

theorem eq_trans (hu : u.Plain) (hv : v.Plain) (hw : w.Plain) (huv : u.eq v = true)
    (hvw : v.eq w = true) : u.eq w = true :=
  (plain_eq_iff hu hw).mpr (((plain_eq_iff hu hv).mp huv).trans ((plain_eq_iff hv hw).mp hvw))

end Laws

/-! ## Padding with fresh names -/

def freshText (used : List Text) (k : ℕ) : Text :=
  List.replicate ((used.map List.length).sum + 1 + k) 'x'

theorem freshText_not_mem (used : List Text) (k : ℕ) : freshText used k ∉ used := by
  intro h
  have hle : (freshText used k).length ≤ (used.map List.length).sum :=
    single_le_sum (fun n _ => Nat.zero_le n) _ (mem_map_of_mem h)
  rw [freshText, length_replicate] at hle
  omega

variable {used : List Text} {t : Text}

theorem freshText_inj {k k' : ℕ} (h : freshText used k = freshText used k') : k = k' := by
  have hlen := congrArg List.length h
  simp only [freshText, length_replicate] at hlen
  omega

def freshTexts (used : List Text) (n : ℕ) : List Text := (List.range n).map (freshText used)

theorem nodup_freshTexts (used : List Text) (n : ℕ) : (freshTexts used n).Nodup :=
  (nodup_range).map fun _ _ => freshText_inj

theorem not_mem_of_mem_freshTexts {n : ℕ} (h : t ∈ freshTexts used n) : t ∉ used := by
  obtain ⟨k, -, rfl⟩ := mem_map.mp h
  exact freshText_not_mem used k

/-! ## Repetitions break a law -/

open Classical in
theorem exists_representatives {α κ : Type} (f : α → κ) (l : List α) :
    ∃ u : List α, u.Sublist l ∧ (u.map f).Nodup ∧ (∀ x ∈ l, ∃ y ∈ u, f x = f y) ∧
      (¬ (l.map f).Nodup → u.length < l.length) := by
  refine ⟨l.pwFilter fun a b => f a ≠ f b, pwFilter_sublist l, ?_, fun x hx => ?_,
    fun hdup => ?_⟩
  · rw [List.Nodup, pairwise_map]
    exact pairwise_pwFilter l
  · by_contra hnone
    have hall : ∀ b ∈ l.pwFilter fun a b => f a ≠ f b, f x ≠ f b := fun b hb heq =>
      hnone ⟨b, hb, heq⟩
    have := (forall_mem_pwFilter (fun {x y z} hxz => by
      by_cases hxy : f x = f y
      · exact .inr fun hyz => hxz (hxy.trans hyz)
      · exact .inl hxy) x l).mp hall x hx
    exact this rfl
  · have hsub := pwFilter_sublist (R := fun a b => f a ≠ f b) l
    refine lt_of_le_of_ne hsub.length_le fun hlen => hdup ?_
    rw [List.Nodup, pairwise_map, ← pwFilter_eq_self]
    exact hsub.eq_of_length hlen

variable {v : Value}

theorem plain_of_leaf (hparts : v.parts = []) (hfn : v.NoFn) (hsep : v.Separate) : v.Plain := by
  refine ⟨⟨hfn, hsep⟩, fun w hw => ?_⟩
  rw [hparts] at hw
  cases hw

theorem eq_of_eq_str (h : v.eq (.str t) = true) : v = .str t := by
  cases v with
  | str s => rw [show s = t by simpa [eq] using h]
  | _ => cases h

def memberTexts (items : List Value) : List Text :=
  items.filterMap fun
    | .str s => some s
    | _ => none

/-- **A set that repeats a member equals a plain set that does not equal it.** -/
theorem exists_unequal_set {items : List Value} (hitems : ∀ v ∈ items, v.Plain)
    (hdup : ¬ (Value.set items).Separate) :
    ∃ w : Value, w.Plain ∧ (Value.set items).eq w = true ∧ w.eq (.set items) = false := by
  obtain ⟨u, hsub, hnodup, hrep, hless⟩ := exists_representatives (render fractionJson) items
  have hshort : u.length < items.length := by
    refine hless fun hn => hdup ?_
    rw [List.Nodup, pairwise_map] at hn
    refine hn.imp_of_mem fun {a b} ha hb hne => ?_
    rw [eq_false_iff, ne_eq, plain_eq_iff (hitems a ha) (hitems b hb)]
    exact hne
  set pad := freshTexts (memberTexts items) (items.length - u.length) with hpad
  have hfresh : ∀ t ∈ pad, ∀ v ∈ items, v.eq (.str t) = false := by
    intro t ht v hv
    rw [eq_false_iff]
    intro heq
    refine not_mem_of_mem_freshTexts ht (mem_filterMap.mpr ⟨v, hv, ?_⟩)
    rw [eq_of_eq_str heq]
  have hlen : pad.length = items.length - u.length := by simp [hpad, freshTexts]
  refine ⟨.set (u ++ pad.map .str), ⟨⟨trivial, ?_⟩, ?_⟩, ?_, ?_⟩
  · refine pairwise_append.mpr ⟨?_, ?_, ?_⟩
    · rw [List.Nodup, pairwise_map] at hnodup
      refine hnodup.imp_of_mem fun {a b} ha hb hne => ?_
      rw [eq_false_iff, ne_eq,
        plain_eq_iff (hitems a (hsub.subset ha)) (hitems b (hsub.subset hb))]
      exact hne
    · rw [pairwise_map]
      exact (nodup_freshTexts _ _).imp fun {a b} hne => by simpa [eq] using hne
    · intro a ha b hb
      obtain ⟨t, ht, rfl⟩ := mem_map.mp hb
      exact hfresh t ht a (hsub.subset ha)
  · intro v hv
    rcases mem_append.mp hv with hv | hv
    · exact hitems v (hsub.subset hv)
    · obtain ⟨t, -, rfl⟩ := mem_map.mp hv
      exact plain_of_leaf rfl trivial trivial
  · rw [Value.eq, and_eq_true, beq_iff_eq, Value.setEqual_eq, all_eq_true]
    refine ⟨by simp only [length_append, length_map]; omega, fun v hv => ?_⟩
    obtain ⟨y, hy, heq⟩ := hrep v hv
    rw [any_eq_true]
    exact ⟨y, mem_append_left _ hy,
      (plain_eq_iff (hitems v hv) (hitems y (hsub.subset hy))).mpr heq⟩
  · obtain ⟨t, ts, ht⟩ : ∃ t ts, pad = t :: ts :=
      exists_cons_of_ne_nil (ne_nil_of_length_pos (by omega))
    rw [eq, and_eq_false_iff, setEqual_eq]
    refine .inr ?_
    rw [all_eq_false]
    refine ⟨.str t, mem_append_right _ (by simp [ht]), ?_⟩
    rw [not_eq_true, any_eq_false]
    intro v hv heq
    have hstr : (str t).Plain := plain_of_leaf rfl trivial trivial
    have hv' := hfresh t (by simp [ht]) v hv
    rw [eq_symm hstr (hitems v hv) heq] at hv'
    cases hv'

/-- **A record that repeats a key** is not equal to itself, or equals a plain record that does not
equal it. -/
theorem exists_unequal_entries {es : List (Text × Value)} (hes : ∀ e ∈ es, e.2.Plain)
    (hdup : ¬ (es.map Prod.fst).Nodup) : kvExtensionalEqual es es = false ∨
      ∃ es' : List (Text × Value), (es'.map Prod.fst).Nodup ∧ (∀ e ∈ es', e.2.Plain) ∧
        es.length = es'.length ∧ kvExtensionalEqual es es' = true ∧
          kvExtensionalEqual es' es = false := by
  by_cases hself : kvExtensionalEqual es es = true
  · refine .inr ?_
    obtain ⟨u, hsub, hnodup, hrep, hless⟩ := exists_representatives Prod.fst es
    have hshort := hless hdup
    set pad := freshTexts (es.map Prod.fst) (es.length - u.length) with hpad
    have hlen : pad.length = es.length - u.length := by simp [hpad, freshTexts]
    have hfirst : ∀ e ∈ es, ∃ x, x ∈ es ∧ es.find? (fun y => y.1 == e.1) = some x ∧
        e.2.eq x.2 = true := by
      intro e he
      rw [kvExtensionalEqual_eq, all_eq_true] at hself
      have hany := hself e he
      cases hx : es.find? fun y => y.1 == e.1 with
      | none =>
        rw [hx] at hany
        cases hany
      | some x =>
        rw [hx] at hany
        exact ⟨x, mem_of_find?_eq_some hx, rfl, hany⟩
    have hkeys : ((u ++ pad.map fun t => (t, null)).map Prod.fst).Nodup := by
      have hnames : (pad.map fun t => (t, null)).map Prod.fst = pad := by
        rw [map_map]
        exact map_id pad
      rw [map_append, hnames]
      refine nodup_append.mpr ⟨hnodup, nodup_freshTexts _ _, ?_⟩
      rintro a ha _ ht rfl
      obtain ⟨e, he, rfl⟩ := mem_map.mp ha
      exact not_mem_of_mem_freshTexts ht (mem_map_of_mem (hsub.subset he))
    refine ⟨u ++ pad.map fun t => (t, null), hkeys, ?_, ?_, ?_, ?_⟩
    · intro e he
      rcases mem_append.mp he with he | he
      · exact hes e (hsub.subset he)
      · obtain ⟨t, -, rfl⟩ := mem_map.mp he
        exact plain_of_leaf rfl trivial trivial
    · simp only [length_append, length_map]
      omega
    · rw [kvExtensionalEqual_eq, all_eq_true]
      intro e he
      obtain ⟨y, hy, hkey⟩ := hrep e he
      have hfound := find?_key hkeys (mem_append_left _ hy)
      rw [hkey, hfound, Option.any_some]
      -- Both values equal the one the lookup in `es` itself finds.
      obtain ⟨x, hx, hfind, hex⟩ := hfirst e he
      obtain ⟨x', hx', hfind', hyx⟩ := hfirst y (hsub.subset hy)
      rw [← hkey, hfind] at hfind'
      cases hfind'
      exact eq_trans (hes e he) (hes x hx) (hes y (hsub.subset hy)) hex
        (eq_symm (hes y (hsub.subset hy)) (hes x hx) hyx)
    · obtain ⟨t, ts, ht⟩ : ∃ t ts, pad = t :: ts :=
        exists_cons_of_ne_nil (ne_nil_of_length_pos (by omega))
      have hnone : es.find? (fun y => y.1 == t) = none := by
        rw [find?_eq_none]
        intro e he heq
        exact not_mem_of_mem_freshTexts (show t ∈ pad by simp [ht])
          (beq_iff_eq.mp heq ▸ mem_map_of_mem he)
      rw [kvExtensionalEqual_eq, all_eq_false]
      refine ⟨(t, .null), mem_append_right _ (by simp [ht]), ?_⟩
      rw [hnone]
      exact Bool.false_ne_true
  · exact .inl (eq_false_iff.mpr hself)

/-- **A value that is not plain only because of its own members breaks a law.** -/
theorem exists_broken (hfn : v.NoFn) (hparts : ∀ p ∈ v.parts, p.Plain) (hsep : ¬ v.Separate) :
    v.eq v = false ∨ ∃ w : Value, w.Plain ∧ v.eq w = true ∧ w.eq v = false := by
  cases v with
  | set items => exact .inr (exists_unequal_set hparts hsep)
  | map es =>
    rcases exists_unequal_entries (fun e he => hparts e.2 (mem_map_of_mem he)) hsep with
      hself | ⟨es', hkeys, hes', hlen, heq, hne⟩
    · exact .inl (by simp [eq, hself])
    · refine .inr ⟨.map es', ⟨⟨trivial, hkeys⟩, fun p hp => ?_⟩, by simp [eq, hlen, heq],
        by simp [eq, hne]⟩
      obtain ⟨e, he, rfl⟩ := mem_map.mp hp
      exact hes' e he
  | prod es =>
    rcases exists_unequal_entries (fun e he => hparts e.2 (mem_map_of_mem he)) hsep with
      hself | ⟨es', hkeys, hes', hlen, heq, hne⟩
    · exact .inl (by simp [eq, hself])
    · refine .inr ⟨.prod es', ⟨⟨trivial, hkeys⟩, fun p hp => ?_⟩, by simp [eq, hlen, heq],
        by simp [eq, hne]⟩
      obtain ⟨e, he, rfl⟩ := mem_map.mp hp
      exact hes' e he
  | _ => exact absurd trivial hsep

section Class

variable {S : Value → Prop}

/-- In a class closed under parts, a value that is not plain has a part that is not plain only
because of its own members. -/
theorem exists_minimal (hfn : ∀ v, S v → v.NoFn) (hparts : ∀ v, S v → ∀ p ∈ v.parts, S p)
    (hv : S v) (hplain : ¬ v.Plain) : ∃ w, S w ∧ (∀ p ∈ w.parts, p.Plain) ∧ ¬ w.Separate := by
  induction v using ind with
  | step v ih =>
    by_cases hall : ∀ p ∈ v.parts, p.Plain
    · exact ⟨v, hv, hall, fun hsep => hplain ⟨⟨hfn v hv, hsep⟩, hall⟩⟩
    · simp only [not_forall] at hall
      obtain ⟨p, hp, hpn⟩ := hall
      exact ih p hp (hparts v hv p hp) hpn

/-- **Equality is an equivalence exactly on plain values**: in every class of values without
functions that contains the plain ones and the parts of its members. -/
theorem value_eq_equivalence_iff (hfn : ∀ v, S v → v.NoFn)
    (hparts : ∀ v, S v → ∀ p ∈ v.parts, S p) (hplain : ∀ v : Value, v.Plain → S v) :
    ((∀ v, S v → v.eq v = true) ∧ (∀ v w, S v → S w → v.eq w = true → w.eq v = true) ∧
      ∀ u v w, S u → S v → S w → u.eq v = true → v.eq w = true → u.eq w = true) ↔
        ∀ v, S v → v.Plain := by
  constructor
  · rintro ⟨hrefl, hsymm, -⟩ v hv
    by_contra hnot
    obtain ⟨w, hw, hwparts, hsep⟩ := exists_minimal hfn hparts hv hnot
    rcases exists_broken (hfn w hw) hwparts hsep with hself | ⟨x, hx, hwx, hxw⟩
    · rw [hrefl w hw] at hself
      cases hself
    · rw [hsymm w x hw (hplain x hx) hwx] at hxw
      cases hxw
  · intro hall
    exact ⟨fun v hv => eq_refl (hall v hv), fun v w hv hw => eq_symm (hall v hv) (hall w hw),
      fun u v w hu hv hw => eq_trans (hall u hu) (hall v hv) (hall w hw)⟩

end Class

/-- The plain values are such a class, and there the laws hold. -/
theorem plain_values_laws : (∀ v : Value, v.Plain → v.eq v = true) ∧
    (∀ v w : Value, v.Plain → w.Plain → v.eq w = true → w.eq v = true) ∧
      ∀ u v w : Value, u.Plain → v.Plain → w.Plain → u.eq v = true → v.eq w = true →
        u.eq w = true :=
  (value_eq_equivalence_iff (fun _ h => h.noFn) (fun _ h _ => h.part) fun _ h => h).mpr
    fun _ h => h

/-- A set read from JSON that repeats a member: equal one way only. And a map with a repeated key,
as a map literal evaluates to, is not equal to itself. -/
theorem repeated_members_unequal : ∃ v w : Value,
    fromJson (tagged "set" [("$items".toList, .array [.number ['1'], .number ['1']])]) = some v ∧
    fromJson (tagged "set" [("$items".toList, .array [.number ['1'], .number ['2']])]) = some w ∧
      v.eq w = true ∧ w.eq v = false ∧
        (Value.map [("a".toList, .num 1), ("a".toList, .num 2)]).eq
          (.map [("a".toList, .num 1), ("a".toList, .num 2)]) = false :=
  ⟨.set [.num 1, .num 1], .set [.num 1, .num 2], rfl, rfl, by decide +kernel, by decide +kernel,
    by decide +kernel⟩

end Residiuum.Sda
