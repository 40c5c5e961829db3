import Mathlib.Data.List.Basic
import Mathlib.Tactic.Common

/-!
# Tilings of an interval

`lo` and `hi` give the ends of a region. `Tiles lo hi a b rs` says that the regions `rs` follow each
other without a gap from `a` to `b`, none of them empty.

* `Tiles.pairwise`, **`Tiles.countP_eq`**: the regions are in order and cover every point of the
  interval exactly once.
-/

namespace TileLib

open List

variable {α : Type} (lo hi : α → ℕ)

/-- The regions follow each other without a gap from `a` to `b`. -/
def Tiles : ℕ → ℕ → List α → Prop
  | a, b, [] => a = b
  | a, b, r :: rs => lo r = a ∧ a < hi r ∧ Tiles (hi r) b rs

/-- Nonempty regions in order between `a` and `b`, possibly with gaps. -/
structure Ordered (a b : ℕ) (rs : List α) : Prop where
  pairwise : rs.Pairwise fun r s => hi r ≤ lo s
  bounds : ∀ r ∈ rs, a ≤ lo r ∧ lo r < hi r ∧ hi r ≤ b

/-- The point `x` lies in the region `r`. -/
def Covers (x : ℕ) (r : α) : Prop := lo r ≤ x ∧ x < hi r

instance (x : ℕ) (r : α) : Decidable (Covers lo hi x r) := inferInstanceAs (Decidable (_ ∧ _))

variable {lo hi} {a b c : ℕ} {rs : List α} {r : α} {ss : List α}

theorem tiles_append (hr : Tiles lo hi a b rs) (hs : Tiles lo hi b c ss) :
    Tiles lo hi a c (rs ++ ss) := by
  induction rs generalizing a with
  | nil => rw [Tiles] at hr; rw [hr]; exact hs
  | cons r rs ih => exact ⟨hr.1, hr.2.1, ih hr.2.2⟩

theorem tiles_append_singleton (hr : Tiles lo hi a (lo r) rs) (h : lo r < hi r) :
    Tiles lo hi a (hi r) (rs ++ [r]) :=
  tiles_append hr ⟨rfl, h, rfl⟩

theorem tiles_snoc (h : Tiles lo hi a b (rs ++ [r])) :
    Tiles lo hi a (lo r) rs ∧ lo r < hi r ∧ hi r = b := by
  induction rs generalizing a with
  | nil =>
    obtain ⟨h1, h2, h3⟩ := h
    exact ⟨h1.symm, h1 ▸ h2, h3⟩
  | cons s rs ih =>
    obtain ⟨h1, h2, h3⟩ := h
    exact ⟨⟨h1, h2, (ih h3).1⟩, (ih h3).2⟩

section

variable (h : Tiles lo hi a b rs)

include h

theorem Tiles.le : a ≤ b := by
  induction rs generalizing a with
  | nil => exact Nat.le_of_eq h
  | cons r rs ih => exact Nat.le_trans (Nat.le_of_lt h.2.1) (ih h.2.2)

theorem Tiles.bounds (hr : r ∈ rs) : a ≤ lo r ∧ lo r < hi r ∧ hi r ≤ b := by
  induction rs generalizing a with
  | nil => exact absurd hr not_mem_nil
  | cons s rs ih =>
    obtain ⟨h1, h2, h3⟩ := h
    rcases mem_cons.mp hr with rfl | hr
    · exact ⟨Nat.le_of_eq h1.symm, h1 ▸ h2, h3.le⟩
    · exact ⟨Nat.le_trans (Nat.le_of_lt h2) (ih h3 hr).1, (ih h3 hr).2⟩

theorem Tiles.pairwise : rs.Pairwise fun r s => hi r ≤ lo s := by
  induction rs generalizing a with
  | nil => exact List.Pairwise.nil
  | cons r rs ih => exact pairwise_cons.mpr ⟨fun s hs => (h.2.2.bounds hs).1, ih h.2.2⟩

theorem Tiles.ordered : Ordered lo hi a b rs :=
  ⟨h.pairwise, fun _ => h.bounds⟩

end

theorem Ordered.append (hr : Ordered lo hi a b rs) (hs : Ordered lo hi b c ss)
    (hab : a ≤ b) (hbc : b ≤ c) : Ordered lo hi a c (rs ++ ss) where
  pairwise := pairwise_append.mpr ⟨hr.pairwise, hs.pairwise, fun r hr' s hs' =>
    Nat.le_trans (hr.bounds r hr').2.2 (hs.bounds s hs').1⟩
  bounds r h := by
    rcases mem_append.mp h with h | h
    · obtain ⟨h1, h2, h3⟩ := hr.bounds r h
      exact ⟨h1, h2, Nat.le_trans h3 hbc⟩
    · obtain ⟨h1, h2, h3⟩ := hs.bounds r h
      exact ⟨Nat.le_trans hab h1, h2, h3⟩

theorem Tiles.countP_eq (h : Tiles lo hi a b rs) (x : ℕ) :
    rs.countP (fun r => decide (Covers lo hi x r)) = if a ≤ x ∧ x < b then 1 else 0 := by
  induction rs generalizing a with
  | nil =>
    rw [Tiles] at h
    rw [countP_nil, if_neg (by omega)]
  | cons r rs ih =>
    obtain ⟨rfl, h2, h3⟩ := h
    have hle := h3.le
    rw [countP_cons, ih h3]
    by_cases hcov : Covers lo hi x r
    · obtain ⟨h4, h5⟩ := hcov
      rw [if_neg (by omega), if_pos (decide_eq_true ⟨h4, h5⟩), if_pos (by omega)]
    · rw [decide_eq_false hcov, if_neg Bool.false_ne_true, Nat.add_zero]
      rw [Covers] at hcov
      split_ifs <;> omega

theorem Tiles.exists_covers (h : Tiles lo hi a b rs) {x : ℕ} (ha : a ≤ x) (hb : x < b) :
    ∃ r ∈ rs, Covers lo hi x r := by
  have hcount := h.countP_eq x
  rw [if_pos ⟨ha, hb⟩] at hcount
  obtain ⟨r, hr, hc⟩ := countP_pos_iff.mp (hcount ▸ Nat.one_pos)
  exact ⟨r, hr, of_decide_eq_true hc⟩

end TileLib
