import Residiuum.Lib.Bytes

/-!
# Searching a pattern in a list

* **`position_windows_eq_some`**, **`rposition_windows_eq_some`**: searching the windows for a
  pattern finds its first and its last occurrence.
-/

namespace ByteLib

open List

variable {α : Type} {m l : List α} {p : α → Bool} {i k w : ℕ}

/-- The contiguous windows of width `w`, left to right. -/
def windows (w : ℕ) (l : List α) : List (List α) :=
  (List.range (l.length + 1 - w)).map fun i => slice l i (i + w)

/-- The first index whose element passes the test. -/
def position (p : α → Bool) (l : List α) : Option ℕ := l.findIdx? p

/-- The last index whose element passes the test. -/
def rposition (p : α → Bool) : List α → Option ℕ
  | [] => none
  | a :: l =>
    match rposition p l with
    | some i => some (i + 1)
    | none => if p a then some 0 else none

/-- The pattern `m` stands in `l` at index `i`. -/
def OccursAt (m l : List α) (i : ℕ) : Prop := slice l i (i + m.length) = m

instance [DecidableEq α] (m l : List α) (i : ℕ) : Decidable (OccursAt m l i) :=
  inferInstanceAs (Decidable (_ = _))

theorem OccursAt.le (h : OccursAt m l i) (hm : m ≠ []) : i + m.length ≤ l.length := by
  have hlen := congrArg List.length h
  have hpos := length_pos_iff.mpr hm
  rw [slice, length_take, length_drop] at hlen
  omega

theorem occursAt_drop : OccursAt m (l.drop k) i ↔ OccursAt m l (k + i) := by
  rw [OccursAt, OccursAt, slice, slice, drop_drop]
  simp

theorem occursAt_take (h : i + m.length ≤ k) : OccursAt m (l.take k) i ↔ OccursAt m l i := by
  rw [OccursAt, OccursAt, slice_take l i h]

theorem OccursAt.getElem? {j : ℕ} (h : OccursAt m l i) (hj : j < m.length) : l[i + j]? = m[j]? := by
  have hm : m[j]? = (slice l i (i + m.length))[j]? := by rw [h]
  rw [hm, slice, Nat.add_sub_cancel_left, getElem?_take_of_lt hj, getElem?_drop]

theorem getElem?_windows :
    (windows w l)[i]? = if i + w ≤ l.length then some (slice l i (i + w)) else none := by
  rw [windows, getElem?_map]
  split_ifs with h
  · rw [getElem?_range (by omega), Option.map_some]
  · rw [getElem?_eq_none (by rw [length_range]; omega), Option.map_none]

theorem mem_windows {l x : List α} :
    x ∈ windows w l ↔ ∃ i, i + w ≤ l.length ∧ slice l i (i + w) = x := by
  simp only [windows, mem_map, mem_range]
  constructor
  all_goals
    rintro ⟨i, hi, hx⟩
    exact ⟨i, by omega, hx⟩

theorem rposition_eq_none : rposition p l = none ↔ ∀ a ∈ l, p a = false := by
  induction l with
  | nil => simp [rposition]
  | cons a l ih =>
    rw [rposition, forall_mem_cons, ← ih]
    cases hr : rposition p l with
    | none => simp
    | some i => simp

theorem rposition_eq_some (h : rposition p l = some i) :
    (∃ a, l[i]? = some a ∧ p a = true) ∧ ∀ j a, i < j → l[j]? = some a → p a = false := by
  induction l generalizing i with
  | nil => cases h
  | cons b l ih =>
    rw [rposition] at h
    cases hr : rposition p l with
    | some k =>
      rw [hr] at h
      cases h
      obtain ⟨hk, hafter⟩ := ih hr
      refine ⟨by rw [getElem?_cons_succ]; exact hk, fun j a hj ha => ?_⟩
      obtain ⟨j, rfl⟩ : ∃ j', j = j' + 1 := ⟨j - 1, by omega⟩
      exact hafter j a (by omega) (by rwa [getElem?_cons_succ] at ha)
    | none =>
      rw [hr] at h
      simp only [Option.ite_none_right_eq_some, Option.some_inj] at h
      obtain ⟨hb, rfl⟩ := h
      refine ⟨⟨b, rfl, hb⟩, fun j a hj ha => ?_⟩
      obtain ⟨j, rfl⟩ : ∃ j', j = j' + 1 := ⟨j - 1, by omega⟩
      rw [getElem?_cons_succ] at ha
      exact rposition_eq_none.mp hr a (mem_of_getElem? ha)

section Pattern

variable [BEq α] [LawfulBEq α]

theorem position_windows_eq_some (h : position (· == m) (windows m.length l) = some i) :
    OccursAt m l i ∧ ∀ j < i, ¬ OccursAt m l j := by
  obtain ⟨hi, hp, hbefore⟩ := findIdx?_eq_some_iff_getElem.mp h
  have hwin : ∀ j (hj : j < (windows m.length l).length),
      (windows m.length l)[j] = slice l j (j + m.length) := fun j hj => by
    simp [windows]
  refine ⟨?_, fun j hj hocc => hbefore j hj ?_⟩
  · rw [hwin i hi, beq_iff_eq] at hp
    exact hp
  · rw [hwin j (hj.trans hi), beq_iff_eq]
    exact hocc

theorem position_windows_eq_none (hm : m ≠ [])
    (h : position (· == m) (windows m.length l) = none) (j : ℕ) : ¬ OccursAt m l j := by
  intro hocc
  have hall := findIdx?_eq_none_iff.mp h _ (mem_windows.mpr ⟨j, hocc.le hm, hocc⟩)
  simp at hall

theorem rposition_windows_eq_some (hm : m ≠ [])
    (h : rposition (· == m) (windows m.length l) = some i) :
    OccursAt m l i ∧ ∀ j, i < j → ¬ OccursAt m l j := by
  obtain ⟨⟨a, ha, hp⟩, hafter⟩ := rposition_eq_some h
  have hwin : ∀ j, OccursAt m l j → (windows m.length l)[j]? = some m := fun j hj => by
    rw [getElem?_windows, if_pos (hj.le hm), hj]
  refine ⟨?_, fun j hj hocc => ?_⟩
  · rw [getElem?_windows, Option.ite_none_right_eq_some] at ha
    rw [beq_iff_eq] at hp
    rw [OccursAt, Option.some.inj ha.2, hp]
  · have := hafter j m hj (hwin j hocc)
    simp at this

theorem rposition_windows_eq_none (hm : m ≠ [])
    (h : rposition (· == m) (windows m.length l) = none) (j : ℕ) : ¬ OccursAt m l j := by
  intro hocc
  have hall := rposition_eq_none.mp h _ (mem_windows.mpr ⟨j, hocc.le hm, hocc⟩)
  simp at hall

end Pattern

end ByteLib
