import Mathlib.Data.List.Nodup
import Mathlib.Data.List.Perm.Basic
import Mathlib.Tactic.Common
import Std.Data.TreeMap

/-!
# Association lists in key order

A map that keeps its entries in the order of their keys, one entry a key: insertion replaces.

* **`collect_eq_iff`**: for entries with distinct keys a map keeps the entries and forgets their
  order; `collect_eq_self`: a map collected again is itself.
-/

namespace SortedMapLib

open List Prod Std

variable {κ ν : Type} [Ord κ] {m : List (κ × ν)} {x : ν} {k : κ}

/-- Insert an entry, replacing the one of the same key. -/
def insertKey (k : κ) (x : ν) : List (κ × ν) → List (κ × ν)
  | [] => [(k, x)]
  | e :: es =>
    match compare k e.1 with
    | .lt => (k, x) :: e :: es
    | .eq => (k, x) :: es
    | .gt => e :: insertKey k x es

/-- The map of a list of entries; later entries win. -/
def collect (es : List (κ × ν)) : List (κ × ν) := es.foldl (fun m e => insertKey e.1 e.2 m) []

/-- Keys increase along the list. -/
def Sorted (m : List (κ × ν)) : Prop := m.Pairwise fun a b => compare a.1 b.1 = .lt

theorem mem_insertKey {e : κ × ν} (h : e ∈ insertKey k x m) : e = (k, x) ∨ e ∈ m := by
  induction m with
  | nil => exact .inl (mem_singleton.mp h)
  | cons f m ih =>
    unfold insertKey at h
    cases hc : compare k f.1 <;> rw [hc] at h
    · exact mem_cons.mp h
    · exact (mem_cons.mp h).imp_right (mem_cons_of_mem f)
    · rcases mem_cons.mp h with rfl | h
      · exact .inr mem_cons_self
      · exact (ih h).imp_right (mem_cons_of_mem f)

variable [TransOrd κ] [LawfulEqOrd κ] {es : List (κ × ν)}

theorem sorted_insertKey (h : Sorted m) : Sorted (insertKey k x m) := by
  induction m with
  | nil => exact pairwise_singleton _ _
  | cons f m ih =>
    obtain ⟨hf, hm⟩ := pairwise_cons.mp h
    unfold insertKey
    cases hc : compare k f.1 with
    | lt =>
      refine pairwise_cons.mpr ⟨fun e he => ?_, h⟩
      rcases mem_cons.mp he with rfl | he
      · exact hc
      · exact TransCmp.lt_trans hc (hf e he)
    | eq =>
      obtain rfl := LawfulEqOrd.eq_of_compare hc
      exact pairwise_cons.mpr ⟨hf, hm⟩
    | gt =>
      refine pairwise_cons.mpr ⟨fun e he => ?_, ih hm⟩
      rcases mem_insertKey he with rfl | he
      · exact OrientedCmp.lt_of_gt hc
      · exact hf e he

omit [TransOrd κ] in
theorem insertKey_perm (h : k ∉ m.map fst) : (insertKey k x m).Perm ((k, x) :: m) := by
  induction m with
  | nil => exact .refl _
  | cons f m ih =>
    simp only [map_cons, mem_cons, not_or] at h
    unfold insertKey
    cases hc : compare k f.1 with
    | lt => exact .refl _
    | eq => exact absurd (LawfulEqOrd.eq_of_compare hc) h.1
    | gt => exact ((ih h.2).cons f).trans (.swap (k, x) f m)

theorem sorted_foldl (h : Sorted m) : Sorted (es.foldl (fun m e => insertKey e.1 e.2 m) m) := by
  induction es generalizing m with
  | nil => exact h
  | cons e es ih => exact ih (sorted_insertKey h)

theorem sorted_collect (es : List (κ × ν)) : Sorted (collect es) := sorted_foldl .nil

omit [TransOrd κ] in
theorem foldl_perm (h : ((es ++ m).map fst).Nodup) :
    (es.foldl (fun m e => insertKey e.1 e.2 m) m).Perm (es ++ m) := by
  induction es generalizing m with
  | nil => exact .refl _
  | cons e es ih =>
    rw [cons_append, map_cons, nodup_cons, map_append, mem_append,
      not_or] at h
    have hins := insertKey_perm (x := e.2) h.1.2
    have hnodup : ((es ++ insertKey e.1 e.2 m).map fst).Nodup := by
      have hperm := ((hins.append_left es).trans perm_middle).map fst
      rw [hperm.nodup_iff, map_cons, nodup_cons, map_append, mem_append,
        not_or]
      exact ⟨h.1, h.2⟩
    exact (ih hnodup).trans ((hins.append_left es).trans perm_middle)

omit [TransOrd κ] in
theorem collect_perm (h : (es.map fst).Nodup) : (collect es).Perm es := by
  have hfold : (collect es).Perm (es ++ []) := foldl_perm (by rwa [append_nil])
  rwa [append_nil] at hfold

omit [LawfulEqOrd κ] in
theorem Sorted.eq_of_perm {m m' : List (κ × ν)} (h : Sorted m) (h' : Sorted m')
    (hperm : m.Perm m') : m = m' := by
  refine hperm.eq_of_pairwise (fun a b _ _ hab hba => ?_) h h'
  rw [OrientedCmp.gt_of_lt hab] at hba
  cases hba

omit [LawfulEqOrd κ] in
theorem Sorted.nodup_keys (h : Sorted m) : (m.map fst).Nodup := by
  rw [List.Nodup, pairwise_map]
  refine h.imp fun {a b} hab heq => ?_
  have hself : compare b.1 b.1 = .eq := ReflCmp.compare_self
  rw [heq, hself] at hab
  cases hab

theorem collect_eq_self (h : Sorted m) : collect m = m :=
  (sorted_collect m).eq_of_perm h (collect_perm h.nodup_keys)

theorem collect_eq_iff {es' : List (κ × ν)} (h : (es.map fst).Nodup)
    (h' : (es'.map fst).Nodup) : collect es = collect es' ↔ es.Perm es' := by
  constructor
  · intro heq
    exact (collect_perm h).symm.trans (heq ▸ collect_perm h')
  · intro hperm
    exact (sorted_collect es).eq_of_perm (sorted_collect es')
      ((collect_perm h).trans (hperm.trans (collect_perm h').symm))

end SortedMapLib
