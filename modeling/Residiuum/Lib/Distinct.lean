import Mathlib.Data.List.Perm.Subperm
import Mathlib.Data.List.Sort
import Mathlib.Data.Set.List
import Mathlib.Tactic.Common

/-!
# First occurrences, and what depends on membership only

Loops of the form "push unless already there" keep the first occurrences of a list. Two lists with
the same members have the same first occurrences up to order, and the same sorted list when the
order separates their elements.

* `dedupBy`: keep one element per key and refuse two elements of one key;
  **`dedupBy_eq`**: it succeeds exactly when the key determines the element.
* `collectNew`: the identities of a list, refused when one repeats.
* **`sortBy_eq_of_perm`**: sorting forgets the order of arrival.
-/

namespace DistinctLib

open Except List

variable {α κ ε : Type} [DecidableEq α] {l l' out : List α} {x y : α}

/-! ## First occurrences -/

def pushNew (out : List α) (x : α) : List α := if x ∈ out then out else out ++ [x]

/-- The first occurrences, in order. -/
def distinct (l : List α) : List α := l.foldl pushNew []

theorem mem_pushNew : y ∈ pushNew out x ↔ y ∈ out ∨ y = x := by
  unfold pushNew
  split_ifs with h
  · refine ⟨Or.inl, fun hy => hy.elim id ?_⟩
    rintro rfl
    exact h
  · rw [mem_append, mem_singleton]

theorem nodup_pushNew (h : out.Nodup) (x : α) : (pushNew out x).Nodup := by
  unfold pushNew
  split_ifs with hx
  · exact h
  · exact nodup_append.mpr ⟨h, nodup_singleton x, fun a ha b hb hab =>
      hx (mem_singleton.mp hb ▸ hab ▸ ha)⟩

theorem mem_foldl_pushNew : x ∈ l.foldl pushNew out ↔ x ∈ out ∨ x ∈ l := by
  induction l generalizing out with
  | nil => simp
  | cons y l ih => rw [foldl_cons, ih, mem_pushNew, mem_cons, or_assoc]

theorem nodup_foldl_pushNew (h : out.Nodup) : (l.foldl pushNew out).Nodup := by
  induction l generalizing out with
  | nil => exact h
  | cons y l ih => exact ih (nodup_pushNew h y)

@[simp] theorem mem_distinct : x ∈ distinct l ↔ x ∈ l := by
  rw [distinct, mem_foldl_pushNew]
  simp

theorem nodup_distinct (l : List α) : (distinct l).Nodup := nodup_foldl_pushNew nodup_nil

theorem distinct_perm (h : ∀ x, x ∈ l ↔ x ∈ l') : (distinct l).Perm (distinct l') :=
  (perm_ext_iff_of_nodup (nodup_distinct l) (nodup_distinct l')).mpr fun x => by
    rw [mem_distinct, mem_distinct, h]

theorem length_distinct_le (h : ∀ x ∈ l, x ∈ l') : (distinct l).length ≤ (distinct l').length :=
  (subperm_of_subset (nodup_distinct l) fun _ hx =>
    mem_distinct.mpr (h _ (mem_distinct.mp hx))).length_le

theorem mem_of_length_distinct (h : ∀ x ∈ l, x ∈ l')
    (hlen : (distinct l).length = (distinct l').length) (hx : x ∈ l') : x ∈ l := by
  have hsub : (distinct l).Subperm (distinct l') :=
    subperm_of_subset (nodup_distinct l) fun _ hy => mem_distinct.mpr (h _ (mem_distinct.mp hy))
  exact mem_distinct.mp ((hsub.perm_of_length_le hlen.ge).mem_iff.mpr (mem_distinct.mpr hx))

/-! ## One element per key -/

section Keyed

variable [DecidableEq κ] (key : α → κ) (e : ε)

/-- Push `x` unless its key is there; a different element of the same key is refused. -/
def pushKeyed (out : List α) (x : α) : Except ε (List α) :=
  match out.find? fun y => key y = key x with
  | some y => if y ≠ x then throw e else return out
  | none => return out ++ [x]

/-- One element per key, first come. -/
def dedupBy (l : List α) : Except ε (List α) := l.foldlM (pushKeyed key e) []

variable {key e}

theorem pushKeyed_of_injOn (h : ∀ y ∈ out, key y = key x → y = x) :
    pushKeyed key e out x = .ok (pushNew out x) := by
  unfold pushKeyed pushNew
  cases hfind : out.find? fun y => key y = key x with
  | some y =>
    have hy := mem_of_find?_eq_some hfind
    obtain rfl := h y hy (by simpa using find?_some hfind)
    rw [if_pos hy]
    simp [pure, Except.pure]
  | none =>
    have hx : x ∉ out := fun hx => by simpa using find?_eq_none.mp hfind x hx
    rw [if_neg hx]
    rfl

theorem pushKeyed_of_clash (hy : y ∈ out) (hkey : key y = key x)
    (hne : y ≠ x) (h : ∀ z ∈ out, key z = key y → z = y) : pushKeyed key e out x = .error e := by
  unfold pushKeyed
  cases hfind : out.find? fun y => key y = key x with
  | some z =>
    have hz : key z = key x := by simpa using find?_some hfind
    have hzx : z ≠ x := by
      rw [h z (mem_of_find?_eq_some hfind) (hz.trans hkey.symm)]
      exact hne
    exact if_pos hzx
  | none => exact absurd (decide_eq_true hkey) (find?_eq_none.mp hfind y hy)

theorem foldlM_pushKeyed (hout : ∀ y ∈ out, ∀ z ∈ out, key y = key z → y = z) :
    l.foldlM (pushKeyed key e) out =
      if ∀ y ∈ out ++ l, ∀ z ∈ out ++ l, key y = key z → y = z then .ok (l.foldl pushNew out)
      else .error e := by
  induction l generalizing out with
  | nil =>
    rw [if_pos (by simpa using hout)]
    rfl
  | cons x l ih =>
    rw [foldlM_cons, foldl_cons]
    by_cases hx : ∀ y ∈ out, key y = key x → y = x
    · have hnew : ∀ y ∈ pushNew out x, ∀ z ∈ pushNew out x, key y = key z → y = z := by
        intro y hy z hz hyz
        rcases mem_pushNew.mp hy with hyo | hyx <;> rcases mem_pushNew.mp hz with hzo | hzx
        · exact hout y hyo z hzo hyz
        · exact (hx y hyo (hzx ▸ hyz)).trans hzx.symm
        · exact hyx.trans (hx z hzo (hyx ▸ hyz.symm)).symm
        · exact hyx.trans hzx.symm
      rw [pushKeyed_of_injOn hx]
      refine (ih hnew).trans (if_congr ?_ rfl rfl)
      have hmem : ∀ y, y ∈ pushNew out x ++ l ↔ y ∈ out ++ x :: l := fun y => by
        rw [mem_append, mem_pushNew, mem_append, mem_cons, or_assoc]
      simp [hmem]
    · push Not at hx
      obtain ⟨y, hy, hkey, hne⟩ := hx
      rw [pushKeyed_of_clash hy hkey hne fun z hz hzy => hout z hz y hy hzy, if_neg]
      · rfl
      · exact fun h => hne (h y (mem_append_left _ hy) x (by simp) hkey)

theorem dedupBy_eq (l : List α) : dedupBy key e l =
      if ∀ y ∈ l, ∀ z ∈ l, key y = key z → y = z then .ok (distinct l) else .error e :=
  foldlM_pushKeyed (by simp)

end Keyed

section Identities

variable {β : Type} [DecidableEq κ] (ident : β → Except ε κ) (e : ε)

/-- Push the identity of `x`; a failure is passed on and a repetition refused. -/
def pushIdent (seen : List κ) (x : β) : Except ε (List κ) := do
  let id ← ident x
  if id ∈ seen then throw e else return seen ++ [id]

def collectNew (l : List β) : Except ε (List κ) := l.foldlM (pushIdent ident e) []

variable {ident e} {seen r : List κ} {l : List β}

theorem pushIdent_eq_ok {x : β} :
    pushIdent ident e seen x = .ok r ↔ ∃ id, ident x = .ok id ∧ id ∉ seen ∧ r = seen ++ [id] := by
  unfold pushIdent
  cases ident x with
  | error e' =>
    refine ⟨fun h => (by cases h), ?_⟩
    rintro ⟨id, hid, -⟩
    cases hid
  | ok id =>
    change (if id ∈ seen then throw e else pure (seen ++ [id]) : Except ε (List κ)) = _ ↔ _
    split_ifs with hid
    · refine ⟨fun h => (by cases h), ?_⟩
      rintro ⟨id', hid', hnew, -⟩
      cases hid'
      exact absurd hid hnew
    · refine ⟨fun h => ⟨id, rfl, hid, (ok.inj h).symm⟩, ?_⟩
      rintro ⟨id', hid', -, rfl⟩
      cases hid'
      rfl

theorem foldlM_pushIdent_eq_ok : l.foldlM (pushIdent ident e) seen = .ok r ↔
      ∃ ids, l.map ident = ids.map .ok ∧ ids.Nodup ∧ (∀ id ∈ ids, id ∉ seen) ∧ r = seen ++ ids := by
  induction l generalizing seen with
  | nil =>
    refine ⟨fun h => ⟨[], rfl, nodup_nil, by simp, ?_⟩, ?_⟩
    · rw [append_nil]
      exact (ok.inj h).symm
    · rintro ⟨ids, hids, -, -, rfl⟩
      obtain rfl : ids = [] := map_eq_nil_iff.mp hids.symm
      rw [append_nil]
      rfl
  | cons x l ih =>
    rw [foldlM_cons]
    constructor
    · intro h
      cases hx : pushIdent ident e seen x with
      | error e' =>
        rw [hx] at h
        cases h
      | ok seen' =>
        rw [hx] at h
        obtain ⟨id, hid, hnew, rfl⟩ := pushIdent_eq_ok.mp hx
        obtain ⟨ids, hids, hnodup, hfresh, rfl⟩ := ih.mp h
        have hnot : id ∉ ids := fun hmem => hfresh id hmem (by simp)
        refine ⟨id :: ids, by rw [map_cons, hid, hids, map_cons],
          nodup_cons.mpr ⟨hnot, hnodup⟩, ?_, by simp⟩
        intro y hy hseen
        obtain rfl | hy := mem_cons.mp hy
        · exact hnew hseen
        · exact hfresh y hy (mem_append_left _ hseen)
    · rintro ⟨ids, hids, hnodup, hfresh, rfl⟩
      cases ids with
      | nil => cases hids
      | cons id ids =>
        rw [map_cons, map_cons, List.cons.injEq] at hids
        obtain ⟨hnot, hnodup⟩ := nodup_cons.mp hnodup
        rw [pushIdent_eq_ok.mpr ⟨id, hids.1, hfresh id mem_cons_self, rfl⟩]
        refine ih.mpr ⟨ids, hids.2, hnodup, fun y hy hseen => ?_, by simp⟩
        obtain hseen | hy' := mem_append.mp hseen
        · exact hfresh y (mem_cons_of_mem id hy) hseen
        · exact hnot (mem_singleton.mp hy' ▸ hy)

theorem exists_collectNew_eq_ok : (∃ r, collectNew ident e l = .ok r) ↔
      (∀ x ∈ l, ∃ id, ident x = .ok id) ∧ (l.map ident).Nodup := by
  have hinj : Function.Injective (Except.ok : κ → Except ε κ) := fun _ _ h => ok.inj h
  constructor
  · rintro ⟨r, h⟩
    obtain ⟨ids, hids, hnodup, -⟩ := foldlM_pushIdent_eq_ok.mp h
    refine ⟨fun x hx => ?_, by rw [hids]; exact hnodup.map hinj⟩
    have hmem : ident x ∈ ids.map Except.ok := hids ▸ mem_map_of_mem hx
    obtain ⟨id, -, hid⟩ := mem_map.mp hmem
    exact ⟨id, hid.symm⟩
  · rintro ⟨hall, hnodup⟩
    have hrange : l.map ident ∈ Set.range (List.map (Except.ok : κ → Except ε κ)) := by
      rw [Set.range_list_map]
      intro y hy
      obtain ⟨x, hx, rfl⟩ := mem_map.mp hy
      obtain ⟨id, hid⟩ := hall x hx
      exact ⟨id, hid.symm⟩
    obtain ⟨ids, hids⟩ := hrange
    have hnew : ids.Nodup := (nodup_map_iff hinj).mp (hids ▸ hnodup)
    exact ⟨_, foldlM_pushIdent_eq_ok.mpr ⟨ids, hids.symm, hnew, by simp, rfl⟩⟩

end Identities

/-! ## Sorting -/

section Sorting

variable (cmp : α → α → Ordering)

def sortBy (l : List α) : List α := l.insertionSort fun a b => (cmp a b).isLE = true

omit [DecidableEq α] in
theorem sortBy_perm (l : List α) : (sortBy cmp l).Perm l := perm_insertionSort _ l

variable {cmp} [Std.TransCmp cmp]

omit [DecidableEq α] in
theorem total_isLE : Std.Total fun a b => (cmp a b).isLE = true := ⟨fun a b => by
  have hswap : cmp b a = (cmp a b).swap := Std.OrientedCmp.eq_swap
  rw [hswap]
  cases cmp a b <;> simp⟩

omit [DecidableEq α] in
theorem sortBy_pairwise (l : List α) :
    (sortBy cmp l).Pairwise fun a b => (cmp a b).isLE = true := by
  have htotal : Std.Total fun a b => (cmp a b).isLE = true := total_isLE
  have htrans : IsTrans α fun a b => (cmp a b).isLE = true := ⟨fun _ _ _ => Std.TransCmp.isLE_trans⟩
  exact pairwise_insertionSort _ l

omit [DecidableEq α] in
theorem sortBy_eq_of_sorted (hperm : l.Perm l')
    (hsorted : l'.Pairwise fun a b => (cmp a b).isLE = true)
    (hsep : ∀ a ∈ l, ∀ b ∈ l, cmp a b = .eq → a = b) : sortBy cmp l = l' := by
  refine List.Perm.eq_of_pairwise ?_ (sortBy_pairwise l) hsorted ((sortBy_perm cmp l).trans hperm)
  intro a b ha hb hab hba
  have ha' := (sortBy_perm cmp l).mem_iff.mp ha
  exact hsep a ha' b (hperm.mem_iff.mpr hb) (Std.OrientedCmp.isLE_antisymm hab hba)

omit [DecidableEq α] in
theorem sortBy_eq_of_perm (hperm : l.Perm l')
    (hsep : ∀ a ∈ l, ∀ b ∈ l, cmp a b = .eq → a = b) : sortBy cmp l = sortBy cmp l' :=
  sortBy_eq_of_sorted (hperm.trans (sortBy_perm cmp l').symm) (sortBy_pairwise l') hsep

omit [DecidableEq α] in
theorem sortBy_eq_self : sortBy cmp l = l ↔ l.Pairwise fun a b => (cmp a b).isLE = true :=
  ⟨fun h => h ▸ sortBy_pairwise l, fun h => h.insertionSort_eq⟩

theorem nodup_iff_of_sorted [Std.LawfulEqCmp cmp]
    (hsorted : l.Pairwise fun a b => (cmp a b).isLE = true) :
    l.Nodup ↔ ¬ (l.zip l.tail).any fun pair => pair.1 = pair.2 := by
  induction l with
  | nil => simp
  | cons x l ih =>
    cases l with
    | nil => simp
    | cons y l =>
      obtain ⟨hx, hl⟩ := pairwise_cons.mp hsorted
      rw [nodup_cons, ih hl]
      simp only [tail_cons, zip_cons_cons, any_cons, Bool.or_eq_true,
        decide_eq_true_eq, not_or]
      refine and_congr_left fun _ => ⟨fun h heq => h (heq ▸ mem_cons_self), fun h hmem => ?_⟩
      obtain heq | hmem := mem_cons.mp hmem
      · exact h heq
      · have hyx : (cmp y x).isLE = true := (pairwise_cons.mp hl).1 x hmem
        have hxy : (cmp x y).isLE = true := hx y mem_cons_self
        exact h (Std.LawfulEqCmp.eq_of_compare (Std.OrientedCmp.isLE_antisymm hxy hyx))

omit [DecidableEq α] in
theorem sortBy_filter (p : α → Bool) (hsep : ∀ a ∈ l, ∀ b ∈ l, cmp a b = .eq → a = b) :
    sortBy cmp (l.filter p) = (sortBy cmp l).filter p :=
  sortBy_eq_of_sorted ((sortBy_perm cmp l).filter p).symm ((sortBy_pairwise l).filter p)
    fun a ha b hb => hsep a (mem_of_mem_filter ha) b (mem_of_mem_filter hb)

end Sorting

end DistinctLib
