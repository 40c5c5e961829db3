import Mathlib.Data.List.Forall2
import Mathlib.Data.List.Induction
import Mathlib.Data.List.ReduceOption
import Mathlib.Tactic.Common

/-!
# Grouping by key in an ordered map

* `IsGrouping key l m`: `m` stores under each key the elements of `l` with that key, in the order
  of `l`, and nothing under the other keys; `IsGrouping.push` is one step of a grouping loop,
  **`isGrouping_foldl`** its run.
* `insertNew`: insert a key that must be new; **`exists_foldlM_insertNew`**: a loop of insertions
  succeeds exactly on distinct keys, and the map then has these keys.
-/

namespace GroupLib

open Except List Std

section Subtype

variable {α : Type} [Ord α] {p : α → Prop}

theorem compare_subtype (a b : {x // p x}) : compare a b = compare a.1 b.1 := rfl

instance transOrdSubtype [TransOrd α] : TransOrd {x // p x} :=
  inferInstanceAs (TransCmp (compareOn (Subtype.val : {x // p x} → α)))

instance lawfulEqOrdSubtype [LawfulEqOrd α] : LawfulEqOrd {x // p x} where
  compare_self {a} := (compare_subtype a a).trans ReflCmp.compare_self
  eq_of_compare {a b} h := Subtype.ext (LawfulEqCmp.eq_of_compare (compare_subtype a b ▸ h))

end Subtype

section Grouping

variable {κ β : Type} [Ord κ]

def pushEntry (m : TreeMap κ (List β)) (k : κ) (x : β) : TreeMap κ (List β) :=
  m.alter k fun vs => some (vs.getD [] ++ [x])

variable [DecidableEq κ]

/-- `m` stores the elements of `l` under their keys. -/
def IsGrouping (key : β → κ) (l : List β) (m : TreeMap κ (List β)) : Prop :=
  ∀ k vs, m[k]? = some vs ↔ vs ≠ [] ∧ l.filter (fun x => key x = k) = vs

variable {key : β → κ} {l : List β} {m : TreeMap κ (List β)}

theorem IsGrouping.getD (h : IsGrouping key l m) (k : κ) :
    m[k]?.getD [] = l.filter fun x => key x = k := by
  cases hk : m[k]? with
  | some vs => rw [Option.getD_some, ((h k vs).mp hk).2]
  | none =>
    by_contra hne
    have := (h k _).mpr ⟨Ne.symm hne, rfl⟩
    rw [hk] at this
    cases this

theorem IsGrouping.mem_group (h : IsGrouping key l m) {k : κ} {vs : List β} (hk : m[k]? = some vs)
    {x : β} : x ∈ vs ↔ x ∈ l ∧ key x = k := by
  rw [← ((h k vs).mp hk).2, mem_filter, decide_eq_true_eq]

theorem IsGrouping.head? (h : IsGrouping key l m) (k : κ) :
    (m[k]?.getD []).head? = l.find? fun x => key x = k := by
  rw [h.getD, head?_filter]

variable [TransOrd κ] [LawfulEqOrd κ]

omit [LawfulEqOrd κ] in
theorem isGrouping_empty : IsGrouping key [] (∅ : TreeMap κ (List β)) := by
  intro k vs
  rw [TreeMap.getElem?_emptyc, filter_nil]
  constructor
  · intro h
    cases h
  · rintro ⟨hne, rfl⟩
    exact absurd rfl hne

theorem IsGrouping.push (h : IsGrouping key l m) (x : β) :
    IsGrouping key (l ++ [x]) (pushEntry m (key x) x) := by
  intro k vs
  rw [pushEntry, TreeMap.getElem?_alter, filter_append]
  by_cases hk : key x = k
  · subst hk
    rw [if_pos ReflCmp.compare_self, h.getD, Option.some.injEq,
      filter_singleton, decide_eq_true rfl, cond_true]
    constructor
    · rintro rfl
      exact ⟨append_ne_nil_of_right_ne_nil _ (cons_ne_nil _ _), rfl⟩
    · exact fun hvs => hvs.2
  · rw [if_neg fun hc => hk (LawfulEqCmp.eq_of_compare hc), filter_singleton,
      decide_eq_false hk, cond_false, append_nil]
    exact h k vs

theorem isGrouping_foldl (key : β → κ) (l : List β) :
    IsGrouping key l (l.foldl (fun m x => pushEntry m (key x) x) ∅) := by
  induction l using List.reverseRecOn with
  | nil => exact isGrouping_empty
  | append_singleton l x ih =>
    rw [foldl_append, foldl_cons, foldl_nil]
    exact ih.push x

omit [DecidableEq κ] in
theorem mem_pushEntry {k k' : κ} {x y : β} :
    y ∈ (pushEntry m k x)[k']?.getD [] ↔ y ∈ m[k']?.getD [] ∨ k = k' ∧ y = x := by
  rw [pushEntry, TreeMap.getElem?_alter]
  split
  · rename_i heq
    obtain rfl := LawfulEqCmp.eq_of_compare heq
    rw [Option.getD_some, mem_append, mem_singleton]
    exact or_congr_right ⟨fun h => ⟨rfl, h⟩, fun h => h.2⟩
  · rename_i hne
    refine ⟨.inl, ?_⟩
    rintro (h | ⟨rfl, -⟩)
    · exact h
    · exact absurd ReflCmp.compare_self hne

end Grouping

/-! ## Loops that can fail -/

section Loop

variable {α β γ ε σ : Type} {f : α → Except ε γ} {l : List α} {r : List γ}

/-- **A loop that refuses elements** stops at the first of them. -/
theorem foldlM_guard {bad : β → Prop} [DecidablePred bad] {e : β → ε} {f : σ → β → σ} {l : List β}
    {s : σ} : l.foldlM (fun s x => if bad x then Except.error (e x) else .ok (f s x)) s =
      match l.find? fun x => bad x with
      | some x => .error (e x)
      | none => .ok (l.foldl f s) := by
  induction l generalizing s with
  | nil => rfl
  | cons x l ih =>
    rw [foldlM_cons, find?_cons]
    by_cases hx : bad x
    · simp [hx, bind, Except.bind]
    · simp [hx, bind, Except.bind, ih]

theorem forM_eq_ok {f : α → Except ε Unit} : l.forM f = .ok () ↔ ∀ x ∈ l, f x = .ok () := by
  induction l with
  | nil => exact ⟨fun _ x hx => absurd hx not_mem_nil, fun _ => rfl⟩
  | cons x l ih =>
    rw [forall_mem_cons, ← ih]
    change (f x >>= fun _ => l.forM f) = _ ↔ _
    cases f x with
    | error e => exact ⟨fun h => (by cases h), fun h => (by cases h.1)⟩
    | ok u => exact ⟨fun h => ⟨rfl, h⟩, fun h => h.2⟩

theorem mapM_eq_ok : l.mapM f = .ok r ↔ List.Forall₂ (fun x y => f x = .ok y) l r := by
  induction l generalizing r with
  | nil =>
    rw [mapM_nil, List.forall₂_nil_left_iff]
    exact ⟨fun h => (Except.ok.inj h).symm, fun h => congrArg Except.ok h.symm⟩
  | cons x l ih =>
    rw [mapM_cons, List.forall₂_cons_left_iff]
    cases hx : f x with
    | error e =>
      refine ⟨fun h => (by cases h), ?_⟩
      rintro ⟨y, l', hy, -⟩
      cases hy
    | ok y =>
      cases hl : l.mapM f with
      | error e =>
        refine ⟨fun h => (by cases h), ?_⟩
        rintro ⟨y', l', -, hl', -⟩
        rw [ih.mpr hl'] at hl
        cases hl
      | ok r' =>
        refine ⟨fun h => ⟨y, r', rfl, ih.mp hl, (ok.inj h).symm⟩, ?_⟩
        rintro ⟨y', l', hy, hl', rfl⟩
        rw [ih.mpr hl'] at hl
        cases hy
        cases hl
        rfl

theorem mapM_eq_ok_map {g : α → γ} {P : α → Prop} (h : ∀ x ∈ l, ∀ y, f x = .ok y ↔ P x ∧ y = g x) :
    l.mapM f = .ok r ↔ (∀ x ∈ l, P x) ∧ r = l.map g := by
  rw [mapM_eq_ok]
  induction l generalizing r with
  | nil => simp
  | cons x l ih =>
    rw [forall_mem_cons] at h
    rw [List.forall₂_cons_left_iff, forall_mem_cons, map_cons]
    constructor
    · rintro ⟨y, r', hy, hr', rfl⟩
      obtain ⟨hx, rfl⟩ := (h.1 y).mp hy
      obtain ⟨hl, rfl⟩ := (ih h.2).mp hr'
      exact ⟨⟨hx, hl⟩, rfl⟩
    · rintro ⟨⟨hx, hl⟩, rfl⟩
      exact ⟨g x, l.map g, (h.1 _).mpr ⟨hx, rfl⟩, (ih h.2).mpr ⟨hl, rfl⟩, rfl⟩

theorem mapM_eq_ok_inverse {g : γ → α} {P : γ → Prop}
    (h : ∀ x ∈ l, ∀ y, f x = .ok y ↔ P y ∧ x = g y) :
    l.mapM f = .ok r ↔ (∀ y ∈ r, P y) ∧ l = r.map g := by
  rw [mapM_eq_ok]
  induction l generalizing r with
  | nil =>
    rw [List.forall₂_nil_left_iff]
    refine ⟨fun hr => hr ▸ ⟨by simp, rfl⟩, fun hr => map_eq_nil_iff.mp hr.2.symm⟩
  | cons x l ih =>
    rw [forall_mem_cons] at h
    rw [List.forall₂_cons_left_iff]
    constructor
    · rintro ⟨y, r', hy, hr', rfl⟩
      obtain ⟨hPy, hxy⟩ := (h.1 y).mp hy
      obtain ⟨hr, hl⟩ := (ih h.2).mp hr'
      exact ⟨forall_mem_cons.mpr ⟨hPy, hr⟩, by rw [map_cons, ← hxy, ← hl]⟩
    · rintro ⟨hr, hl⟩
      cases r with
      | nil => cases hl
      | cons y r =>
        rw [map_cons, List.cons.injEq] at hl
        rw [forall_mem_cons] at hr
        exact ⟨y, r, (h.1 y).mpr ⟨hr.1, hl.1⟩, (ih h.2).mpr ⟨hr.2, hl.2⟩, rfl⟩

theorem exists_of_foldlM_error {f : σ → β → Except ε σ} {l : List β} {s : σ} {e : ε}
    (h : l.foldlM f s = .error e) : ∃ s', ∃ x ∈ l, f s' x = .error e := by
  induction l generalizing s with
  | nil => cases h
  | cons x l ih =>
    rw [foldlM_cons] at h
    cases hx : f s x with
    | error e' =>
      rw [hx] at h
      exact ⟨s, x, mem_cons_self, hx.trans h⟩
    | ok s' =>
      rw [hx] at h
      obtain ⟨s'', y, hy, hfy⟩ := ih h
      exact ⟨s'', y, mem_cons_of_mem _ hy, hfy⟩

theorem exists_of_mapM_error {e : ε} (h : l.mapM f = .error e) : ∃ x ∈ l, f x = .error e := by
  induction l with
  | nil => cases h
  | cons x l ih =>
    rw [mapM_cons] at h
    cases hx : f x with
    | error e' =>
      rw [hx] at h
      exact ⟨x, mem_cons_self, hx.trans (congrArg error (error.inj h))⟩
    | ok y =>
      cases hl : l.mapM f with
      | error e' =>
        rw [hx, hl] at h
        obtain ⟨z, hz, hfz⟩ := ih (hl.trans (congrArg error (error.inj h)))
        exact ⟨z, mem_cons_of_mem _ hz, hfz⟩
      | ok r =>
        rw [hx, hl] at h
        cases h

theorem mem_mapM_ok (h : l.mapM f = .ok r) {y : γ} : y ∈ r ↔ ∃ x ∈ l, f x = .ok y := by
  replace h := mapM_eq_ok.mp h
  induction h with
  | nil => simp
  | cons hxy _ ih =>
    rw [mem_cons, exists_mem_cons_iff]
    refine or_congr ⟨fun hy => hy ▸ hxy, fun hy => ?_⟩ ih
    exact (Except.ok.inj (hxy.symm.trans hy)).symm

theorem exists_mapM_ok : (∃ r, l.mapM f = .ok r) ↔ ∀ x ∈ l, ∃ y, f x = .ok y := by
  constructor
  · rintro ⟨r, hr⟩ x hx
    obtain ⟨i, hi, rfl⟩ := getElem_of_mem hx
    have h₂ := mapM_eq_ok.mp hr
    exact ⟨r.get ⟨i, h₂.length_eq ▸ hi⟩, h₂.get hi (h₂.length_eq ▸ hi)⟩
  · intro h
    cases hl : l.mapM f with
    | ok r => exact ⟨r, rfl⟩
    | error e =>
      obtain ⟨x, hx, hfx⟩ := exists_of_mapM_error hl
      obtain ⟨y, hy⟩ := h x hx
      cases hfx.symm.trans hy

theorem foldlM_collect (f : α → Except ε (Option γ)) (step : σ → α → Option γ → σ)
    (out : σ → List γ) (hout : ∀ s x y, out (step s x y) = out s ++ y.toList) (l : List α) (s : σ) :
    (l.foldlM (fun s x => step s x <$> f x) s).map out =
      (l.mapM f).map fun r => out s ++ r.reduceOption := by
  induction l generalizing s with
  | nil => simp [pure, Except.pure, Except.map]
  | cons x l ih =>
    rw [foldlM_cons, mapM_cons]
    cases f x with
    | error e => rfl
    | ok y =>
      refine (ih (step s x y)).trans ?_
      cases l.mapM f with
      | error e => rfl
      | ok r =>
        show ok _ = ok _
        cases y <;> simp [hout]

theorem exists_map_eq_map_some {f : α → Option γ} :
    (∃ r : List γ, l.map f = r.map some) ↔ ∀ x ∈ l, (f x).isSome := by
  induction l with
  | nil => simp
  | cons x l ih =>
    rw [forall_mem_cons, ← ih, map_cons]
    constructor
    · rintro ⟨r, h⟩
      obtain ⟨y, r, rfl, hy, hr⟩ := map_eq_cons_iff.mp h.symm
      exact ⟨by rw [← hy]; rfl, r, hr.symm⟩
    · rintro ⟨hx, r, hr⟩
      obtain ⟨y, hy⟩ := Option.isSome_iff_exists.mp hx
      exact ⟨y :: r, by rw [hy, hr, map_cons]⟩

theorem filterMap_eq_of_map {f : α → Option γ} (h : l.map f = r.map some) : l.filterMap f = r := by
  have hid := congrArg (List.filterMap id) h
  rwa [filterMap_map, filterMap_map, Function.id_comp, Function.id_comp,
    filterMap_some] at hid

variable {κ ν : Type} [Ord κ]

/-- Insert a key that must be new; `e` is the error for a key that is not. -/
def insertNew (key : β → κ) (val : β → ν) (e : β → ε) (m : TreeMap κ ν) (x : β) :
    Except ε (TreeMap κ ν) :=
  if m.contains (key x) then .error (e x) else .ok (m.insert (key x) (val x))

variable [TransOrd κ] [LawfulEqOrd κ] {key : β → κ} {val : β → ν} {e : β → ε} {l : List β}

theorem contains_foldlM_insertNew {m m' : TreeMap κ ν}
    (h : l.foldlM (insertNew key val e) m = .ok m') (k : κ) :
    m'.contains k ↔ m.contains k ∨ k ∈ l.map key := by
  induction l generalizing m with
  | nil =>
    cases h
    simp
  | cons x l ih =>
    rw [foldlM_cons, insertNew] at h
    split_ifs at h with hx
    · cases h
    · rw [ih h, TreeMap.contains_insert, map_cons, mem_cons, Bool.or_eq_true, beq_iff_eq,
        LawfulEqCmp.compare_eq_iff_eq, or_comm (a := key x = k), or_assoc, eq_comm (a := k)]

theorem exists_foldlM_insertNew {m : TreeMap κ ν} :
    (∃ m', l.foldlM (insertNew key val e) m = .ok m') ↔
      (l.map key).Nodup ∧ ∀ x ∈ l, ¬m.contains (key x) := by
  induction l generalizing m with
  | nil => simp [pure, Except.pure]
  | cons x l ih =>
    rw [foldlM_cons, insertNew]
    by_cases hx : m.contains (key x)
    · rw [if_pos hx]
      refine ⟨fun h => ?_, fun h => absurd hx (h.2 x mem_cons_self)⟩
      obtain ⟨m', h⟩ := h
      cases h
    · rw [if_neg hx]
      refine (ih (m := m.insert (key x) (val x))).trans ?_
      simp only [TreeMap.contains_insert, Bool.or_eq_true, beq_iff_eq,
        LawfulEqCmp.compare_eq_iff_eq, not_or, map_cons, nodup_cons,
        forall_mem_cons, mem_map, not_exists, not_and]
      exact ⟨fun h => ⟨⟨fun y hy heq => (h.2 y hy).1 heq.symm, h.1⟩, hx, fun y hy => (h.2 y hy).2⟩,
        fun h => ⟨h.1.2, fun y hy => ⟨fun heq => h.1.1 y hy heq.symm, h.2.2 y hy⟩⟩⟩

end Loop

end GroupLib
