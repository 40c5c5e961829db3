import Residiuum.Sda.ValueEq

/-!
# Bags and sets

The collection operators of `eval_binop` and the library function `count`. They compare members
with `PartialEq for Value`, which a product with a repeated field breaks: a product literal keeps
both fields, and the comparison only ever finds the first.

* **`collection_laws_iff`**: the multiset and set laws hold exactly when no product repeats a field.
-/

namespace Residiuum.Sda

open Bool List Value

/-! ## The operators -/

def wrongShape : Value := .fail_ "t_sda_wrong_shape".toList "wrong shape".toList

/-- Whether `ensure_comparable` passes: there is no function at any depth. -/
def ensureComparable : Value → Bool
  | .lambda _ _ _ => false
  | v => v.parts.attach.all fun p => ensureComparable p.1
termination_by v => sizeOf v
decreasing_by exact sizeOf_part p.2

/-- One turn of the loop of `union`. -/
def insertNew (a : List Value) (item : Value) : List Value :=
  if a.any (·.eq item) then a else a ++ [item]

def evalUnion : Value → Value → Value
  | .set a, .set b => .set (b.foldl insertNew a)
  | _, _ => wrongShape

def evalInter : Value → Value → Value
  | .set a, .set b => .set (a.filter fun x => b.any (x.eq ·))
  | _, _ => wrongShape

def evalDiff : Value → Value → Value
  | .set a, .set b => .set (a.filter fun x => !b.any (x.eq ·))
  | _, _ => wrongShape

def evalBUnion : Value → Value → Value
  | .bag a, .bag b => .bag (a ++ b)
  | _, _ => wrongShape

/-- The filter of `bdiff`, which uses up what it matches. -/
def bagDiff : List Value → List Value → List Value
  | [], _ => []
  | x :: a, remaining =>
    if remaining.any (x.eq ·) then bagDiff a (remaining.eraseP (x.eq ·))
    else x :: bagDiff a remaining

def evalBDiff : Value → Value → Value
  | .bag a, .bag b => .bag (bagDiff a b)
  | _, _ => wrongShape

def evalIn (lhs : Value) : Value → Value
  | .seq items | .set items | .bag items =>
    if ensureComparable lhs && items.all ensureComparable then .bool (items.any (·.eq lhs))
    else wrongShape
  | .map entries | .prod entries =>
    match lhs with
    | .str key => .bool (entries.any fun e => e.1 == key)
    | _ => wrongShape
  | _ => wrongShape

/-- The wrong number of arguments. -/
structure ArityMismatch where
  expected : ℕ
  got : ℕ

def stdlibCount : List Value → Except ArityMismatch Value
  | [needle, haystack] =>
    .ok (match haystack with
      | .bag items =>
        if ensureComparable needle && items.all ensureComparable then
          .num (items.countP (·.eq needle))
        else wrongShape
      | _ => wrongShape)
  | args => .error ⟨2, args.length⟩

/-! ## The laws -/

/-- The counts of `x` in two bags, their sum and their difference. -/
def BagLaws (x a b : Value) : Prop :=
  ∃ m n : ℕ, stdlibCount [x, a] = .ok (.num m) ∧ stdlibCount [x, b] = .ok (.num n) ∧
    stdlibCount [x, evalBUnion a b] = .ok (.num ↑(m + n)) ∧
      stdlibCount [x, evalBDiff a b] = .ok (.num ↑(m - n))

/-- The memberships of `x` in two sets and what is made of them. -/
def SetLaws (x a b : Value) : Prop :=
  ∃ p q : Bool, evalIn x a = .bool p ∧ evalIn x b = .bool q ∧
    evalIn x (evalUnion a b) = .bool (p || q) ∧ evalIn x (evalInter a b) = .bool (p && q) ∧
      evalIn x (evalDiff a b) = .bool (p && !q) ∧
        (evalUnion a b).Separate ∧ (evalInter a b).Separate ∧ (evalDiff a b).Separate

/-- No function, distinct set members and map keys; a product repeats a field only as `repeats`
allows. -/
def Shaped (repeats : List Text → Prop) : Value → Prop
  | .lambda _ _ _ => False
  | .prod fields => (fields.map Prod.fst).Nodup ∨ repeats (fields.map Prod.fst)
  | v => v.Separate

variable {v : Value}

theorem Value.Every.imp {p q : Value → Prop} (hpq : ∀ v, p v → q v) (h : v.Every p) :
    v.Every q := by
  induction v using ind with
  | step v ih => exact ⟨hpq v h.here, fun w hw => ih w hw (h.part hw)⟩

theorem comparable_of_shaped {repeats : List Text → Prop}
    (h : v.Every (Shaped repeats)) : ensureComparable v = true := by
  induction v using ind with
  | step v ih =>
    rw [ensureComparable]
    · exact all_eq_true.mpr fun p _ => ih p.1 p.2 (h.part p.2)
    · rintro param body env rfl
      exact h.here

section Plain

variable {x y n : Value} {a b : List Value}

theorem stdlibCount_bag (hx : ensureComparable x = true) (ha : ∀ v ∈ a, ensureComparable v = true) :
    stdlibCount [x, .bag a] = .ok (.num (a.countP (·.eq x))) := by
  simp [stdlibCount, hx, all_eq_true.mpr ha]

theorem evalIn_set (hx : ensureComparable x = true) (ha : ∀ v ∈ a, ensureComparable v = true) :
    evalIn x (.set a) = .bool (a.any (·.eq x)) := by
  simp [evalIn, hx, all_eq_true.mpr ha]

/-- Equal plain values are equal to the same values. -/
theorem eq_congr (hx : x.Plain) (hy : y.Plain) (hn : n.Plain) (h : x.eq y = true) :
    x.eq n = y.eq n := by
  rw [Bool.eq_iff_iff, plain_eq_iff hx hn, plain_eq_iff hy hn, (plain_eq_iff hx hy).mp h]

theorem any_eq_congr (hx : x.Plain) (hn : n.Plain) (hb : ∀ v ∈ b, v.Plain) (h : x.eq n = true) :
    b.any (x.eq ·) = b.any (·.eq n) := by
  rw [Bool.eq_iff_iff, any_eq_true, any_eq_true]
  refine exists_congr fun y => and_congr_right fun hy => ?_
  rw [eq_congr hx hn (hb y hy) h]
  exact ⟨eq_symm hn (hb y hy), eq_symm (hb y hy) hn⟩

theorem countP_eraseP (hx : x.Plain) (hn : n.Plain) (hb : ∀ v ∈ b, v.Plain)
    (hany : b.any (x.eq ·) = true) :
    b.countP (·.eq n) = (b.eraseP (x.eq ·)).countP (·.eq n) + if x.eq n then 1 else 0 := by
  obtain ⟨y, hy, hxy⟩ := any_eq_true.mp hany
  obtain ⟨y, l, r, -, hxy, rfl, herase⟩ := exists_of_eraseP hy hxy
  rw [herase, countP_append, countP_append, countP_cons,
    eq_congr hx (hb y (by simp)) hn hxy, Nat.add_assoc]

theorem countP_bagDiff (hn : n.Plain) (ha : ∀ v ∈ a, v.Plain) (hb : ∀ v ∈ b, v.Plain) :
    (bagDiff a b).countP (·.eq n) = a.countP (·.eq n) - b.countP (·.eq n) := by
  induction a generalizing b with
  | nil => simp [bagDiff]
  | cons x a ih =>
    obtain ⟨hx, ha⟩ := forall_mem_cons.mp ha
    rw [bagDiff, countP_cons]
    by_cases hany : b.any (x.eq ·) = true
    · rw [if_pos hany, ih ha fun v hv => hb v (mem_of_mem_eraseP hv), countP_eraseP hx hn hb hany]
      omega
    · rw [if_neg hany, countP_cons, ih ha hb]
      split_ifs with hxn
      · rw [any_eq_congr hx hn hb hxn] at hany
        have hnone : b.countP (·.eq n) = 0 := countP_eq_zero.mpr (by simpa using hany)
        omega
      · rfl

theorem mem_of_mem_bagDiff (h : x ∈ bagDiff a b) : x ∈ a := by
  induction a generalizing b with
  | nil => cases h
  | cons y a ih =>
    rw [bagDiff] at h
    split_ifs at h
    · exact mem_cons_of_mem y (ih h)
    · rcases mem_cons.mp h with rfl | h
      · exact mem_cons_self
      · exact mem_cons_of_mem y (ih h)

/-- What `union` makes of a set without repetitions. -/
structure Merged (a b c : List Value) : Prop where
  plain : ∀ v ∈ c, v.Plain
  any : ∀ n : Value, n.Plain → c.any (·.eq n) = (a.any (·.eq n) || b.any (·.eq n))
  distinct : c.Pairwise fun v w => v.eq w = false

theorem merged_insertNew (ha : ∀ v ∈ a, v.Plain) (hdistinct : a.Pairwise fun v w => v.eq w = false)
    (hy : y.Plain) : Merged a [y] (insertNew a y) := by
  rw [insertNew]
  split_ifs with hany
  · refine ⟨ha, fun n hn => ?_, hdistinct⟩
    obtain ⟨e, he, hey⟩ := any_eq_true.mp hany
    cases hyn : y.eq n with
    | false => simp [hyn]
    | true =>
      rw [any_eq_true.mpr ⟨e, he, (eq_congr (ha e he) hy hn hey).trans hyn⟩]
      rfl
  · refine ⟨?_, fun n _ => any_append, pairwise_append.mpr ⟨hdistinct, pairwise_singleton .., ?_⟩⟩
    · simpa [or_imp, forall_and] using ⟨ha, hy⟩
    · simpa using hany

theorem merged_foldl (ha : ∀ v ∈ a, v.Plain) (hdistinct : a.Pairwise fun v w => v.eq w = false)
    (hb : ∀ v ∈ b, v.Plain) : Merged a b (b.foldl insertNew a) := by
  induction b generalizing a with
  | nil => exact ⟨ha, by simp, hdistinct⟩
  | cons y b ih =>
    obtain ⟨hy, hb⟩ := forall_mem_cons.mp hb
    have hone := merged_insertNew ha hdistinct hy
    have hrest := ih hone.plain hone.distinct hb
    refine ⟨hrest.plain, fun n hn => ?_, hrest.distinct⟩
    rw [foldl_cons, hrest.any n hn, hone.any n hn]
    simp [Bool.or_assoc]

theorem any_filter_eq {g : Value → Bool} {q : Bool} (h : ∀ x ∈ a, x.eq n = true → g x = q) :
    (a.filter g).any (·.eq n) = (a.any (·.eq n) && q) := by
  induction a with
  | nil => rfl
  | cons x a ih =>
    obtain ⟨hx, ha⟩ := forall_mem_cons.mp h
    rw [filter_cons, any_cons, Bool.and_or_distrib_right, ← ih ha]
    cases hxn : x.eq n with
    | false => split_ifs <;> simp [hxn]
    | true =>
      rw [hx hxn]
      cases q <;> simp [hxn]

end Plain

/-! ## When the laws hold -/

variable {repeats : List Text → Prop}

theorem plain_of_shaped (hnodup : ∀ names, repeats names → names.Nodup)
    (h : v.Every (Shaped repeats)) : v.Plain := by
  refine h.imp fun w hw => ?_
  cases w with
  | lambda => exact hw.elim
  | prod fields => exact ⟨trivial, hw.elim id (hnodup _)⟩
  | _ => exact ⟨trivial, hw⟩

theorem shaped_of_plain (h : v.Plain) : v.Every (Shaped repeats) := by
  refine Every.imp (fun w hw => ?_) h
  cases w with
  | lambda => exact hw.1.elim
  | prod fields => exact .inl hw.2
  | _ => exact hw.2

/-- Fields without values: equal to itself even when a field is repeated. -/
theorem blank_equal (names : List Text) : kvExtensionalEqual
    (names.map fun k => (k, .null)) (names.map fun k => (k, .null)) = true := by
  rw [kvExtensionalEqual_eq, all_eq_true]
  intro e he
  cases hfind : (names.map fun k => (k, null)).find? fun y => y.1 == e.1 with
  | none => exact absurd (beq_self_eq_true e.1) (find?_eq_none.mp hfind e he)
  | some y =>
    obtain ⟨k, -, rfl⟩ := mem_map.mp (mem_of_find?_eq_some hfind)
    obtain ⟨k, -, rfl⟩ := mem_map.mp he
    rfl

theorem comparable_of_plain (h : v.Plain) : ensureComparable v = true :=
  comparable_of_shaped (shaped_of_plain h : v.Every (Shaped fun _ => False))

section Hold

variable {x : Value} {a b : List Value}

theorem bagLaws_of_plain (hx : x.Plain) (ha : ∀ v ∈ a, v.Plain) (hb : ∀ v ∈ b, v.Plain) :
    BagLaws x (.bag a) (.bag b) := by
  have hcount : ∀ c : List Value, (∀ v ∈ c, v.Plain) →
      stdlibCount [x, .bag c] = .ok (.num (c.countP (·.eq x))) := fun c hc =>
    stdlibCount_bag (comparable_of_plain hx) fun v hv => comparable_of_plain (hc v hv)
  refine ⟨_, _, hcount a ha, hcount b hb, ?_, ?_⟩
  · rw [evalBUnion, hcount _ (forall_mem_append.mpr ⟨ha, hb⟩), countP_append]
  · rw [evalBDiff, hcount _ fun v hv => ha v (mem_of_mem_bagDiff hv), countP_bagDiff hx ha hb]

theorem setLaws_of_plain (hx : x.Plain) (ha : (Value.set a).Plain) (hb : (Value.set b).Plain) :
    SetLaws x (.set a) (.set b) := by
  have hin : ∀ c : List Value, (∀ v ∈ c, v.Plain) →
      evalIn x (.set c) = .bool (c.any (·.eq x)) := fun c hc =>
    evalIn_set (comparable_of_plain hx) fun v hv => comparable_of_plain (hc v hv)
  have hpa : ∀ v ∈ a, v.Plain := fun _ => ha.part
  have hpb : ∀ v ∈ b, v.Plain := fun _ => hb.part
  have hunion := merged_foldl hpa ha.separate hpb
  have hkept : ∀ g : Value → Bool, ∀ v ∈ a.filter g, v.Plain := fun _ v hv =>
    hpa v (mem_of_mem_filter hv)
  refine ⟨_, _, hin a hpa, hin b hpb, ?_, ?_, ?_, hunion.distinct, ha.separate.filter _,
    ha.separate.filter _⟩
  · rw [evalUnion, hin _ hunion.plain, hunion.any x hx]
  · rw [evalInter, hin _ (hkept _),
      any_filter_eq fun y hy hyx => any_eq_congr (hpa y hy) hx hpb hyx]
  · rw [evalDiff, hin _ (hkept _), any_filter_eq fun y hy hyx =>
      congrArg Bool.not (any_eq_congr (hpa y hy) hx hpb hyx)]

end Hold

theorem every_prod {es : List (Text × Value)}
    (hkeys : (es.map Prod.fst).Nodup ∨ repeats (es.map Prod.fst)) (hes : ∀ e ∈ es, e.2.Plain) :
    (prod es).Every (Shaped repeats) := by
  refine ⟨hkeys, fun w hw => ?_⟩
  obtain ⟨e, he, rfl⟩ := mem_map.mp hw
  exact shaped_of_plain (hes e he)

/-- A product `v` that repeats a field equals a product `w` that does not equal it, so `bdiff`
removes `v` for a `w` that `count` does not count. -/
theorem exists_bag_law_broken {names : List Text} (hrep : repeats names) (hdup : ¬ names.Nodup) :
    ∃ v w : Value, v.Every (Shaped repeats) ∧ w.Every (Shaped repeats) ∧
      ¬ BagLaws v (.bag [v]) (.bag [w]) := by
  set es := names.map fun k => (k, null) with hes
  have hnames : es.map Prod.fst = names := by simp [hes, Function.comp_def]
  have hnull : ∀ e ∈ es, e.2.Plain := by
    intro e he
    obtain ⟨k, -, rfl⟩ := mem_map.mp he
    exact plain_of_leaf rfl trivial trivial
  rcases exists_unequal_entries hnull (by rwa [hnames]) with
    hself | ⟨es', hnodup, hplain, hlen, heq, hne⟩
  · rw [blank_equal] at hself
    cases hself
  · have hv : (prod es).Every (Shaped repeats) := every_prod (.inr (by rwa [hnames])) hnull
    have hw : (prod es').Every (Shaped repeats) := every_prod (.inl hnodup) hplain
    refine ⟨_, _, hv, hw, ?_⟩
    rintro ⟨m, n, hm, hn, -, hdiff⟩
    have hvv : (prod es).eq (.prod es) = true := by simp [eq, hes, blank_equal]
    have hvw : (prod es).eq (.prod es') = true := by simp [eq, hlen, heq]
    have hwv : (prod es').eq (.prod es) = false := by simp [eq, hne]
    have hcv := comparable_of_shaped hv
    have hcw := comparable_of_shaped hw
    have hm : (1 : ℚ) = m := by simpa [stdlibCount, hcv, hvv] using hm
    have hn : (0 : ℚ) = n := by simpa [stdlibCount, hcv, hcw, hwv] using hn
    have hdiff : (0 : ℚ) = ↑(m - n) := by
      simpa [stdlibCount, evalBDiff, bagDiff, hcv, hvw] using hdiff
    norm_cast at hm hn hdiff
    omega

/-- **The multiset and set laws** hold of all bags and sets of values that `Shaped repeats` allows
exactly when no product may repeat a field. -/
theorem collection_laws_iff :
    ((∀ (x : Value) (a b : List Value), x.Every (Shaped repeats) →
        (Value.bag a).Every (Shaped repeats) → (Value.bag b).Every (Shaped repeats) →
          BagLaws x (.bag a) (.bag b)) ∧
      ∀ (x : Value) (a b : List Value), x.Every (Shaped repeats) →
        (Value.set a).Every (Shaped repeats) → (Value.set b).Every (Shaped repeats) →
          SetLaws x (.set a) (.set b)) ↔ ∀ names, repeats names → names.Nodup := by
  constructor
  · rintro ⟨hbag, -⟩ names hrep
    by_contra hdup
    obtain ⟨v, w, hv, hw, hnot⟩ := exists_bag_law_broken hrep hdup
    exact hnot (hbag v [v] [w] hv ⟨trivial, forall_mem_singleton.mpr hv⟩
      ⟨trivial, forall_mem_singleton.mpr hw⟩)
  · intro hnodup
    have hplain : ∀ {v : Value}, v.Every (Shaped repeats) → v.Plain := plain_of_shaped hnodup
    exact ⟨fun x a b hx ha hb => bagLaws_of_plain (hplain hx) (fun _ => (hplain ha).part)
      fun _ => (hplain hb).part, fun x a b hx ha hb => setLaws_of_plain (hplain hx) (hplain ha)
        (hplain hb)⟩

/-- The bag of `Prod` with the fields `a: 1, a: 1`, without that of `a: 1, a: 2`: empty, though the
second value does not count as the first. -/
theorem repeated_field_count : ∃ v w : Value, v = .prod [(['a'], .num 1), (['a'], .num 1)] ∧
    w = .prod [(['a'], .num 1), (['a'], .num 2)] ∧ v.Every (Shaped fun _ => True) ∧
      w.Every (Shaped fun _ => True) ∧ stdlibCount [v, .bag [v]] = .ok (.num 1) ∧
        stdlibCount [v, .bag [w]] = .ok (.num 0) ∧
          stdlibCount [v, evalBDiff (.bag [v]) (.bag [w])] = .ok (.num 0) := by
  have hnum : ∀ q : ℚ, (num q).Plain := fun _ => plain_of_leaf rfl trivial trivial
  have hshaped : ∀ q : ℚ, (prod [(['a'], .num 1), (['a'], .num q)]).Every
      (Shaped fun _ => True) := fun q => every_prod (.inr trivial) (by simp [hnum])
  have hone := comparable_of_shaped (hshaped 1)
  have htwo := comparable_of_shaped (hshaped 2)
  refine ⟨_, _, rfl, rfl, hshaped 1, hshaped 2, ?_, ?_, ?_⟩
  all_goals simp [stdlibCount, evalBDiff, bagDiff, hone, htwo, eq, kvExtensionalEqual_eq]

end Residiuum.Sda
