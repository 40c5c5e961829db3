import Mathlib.Data.List.Pairwise
import Mathlib.Data.List.Sort

/-!
# Blocks between gaps

A buffer `g₀ ++ b₁ ++ g₁ ++ … ++ bₖ ++ gₖ` is a list of pieces, each a gap and the block behind it,
and a tail. Each block carries a value (what it decodes to).

* **`placed_pairwise`**: blocks do not overlap.
-/

namespace TileLib

open List

variable {α β : Type} {base : ℕ} {γ : Type}

/-- A gap, and a block with its value. -/
structure Piece (α β : Type) where
  gap : List α
  block : List α
  value : β

/-- The buffer made of the pieces and a tail. -/
def layout : List (Piece α β) → List α → List α
  | [], tail => tail
  | p :: ps, tail => p.gap ++ (p.block ++ layout ps tail)

/-- The values and the offsets of their blocks, for a buffer that starts at `base`. -/
def placed : ℕ → List (Piece α β) → List (ℕ × β)
  | _, [] => []
  | base, p :: ps =>
    (base + p.gap.length, p.value) :: placed (base + p.gap.length + p.block.length) ps

def Piece.map {γ : Type} (g : β → γ) (p : Piece α β) : Piece α γ := ⟨p.gap, p.block, g p.value⟩

theorem layout_map (g : β → γ) (ps : List (Piece α β)) (tail : List α) :
    layout (ps.map (Piece.map g)) tail = layout ps tail := by
  induction ps with
  | nil => rfl
  | cons p ps ih => rw [map_cons, layout, ih]; rfl

theorem placed_map (g : β → γ) (base : ℕ) (ps : List (Piece α β)) :
    placed base (ps.map (Piece.map g)) = (placed base ps).map fun x => (x.1, g x.2) := by
  induction ps generalizing base with
  | nil => rfl
  | cons p ps ih => rw [map_cons, placed, ih]; rfl

theorem placed_drop {ps : List (Piece α β)} (tail : List α) {before : List α} {o : ℕ} {v : β}
    (h : (o, v) ∈ placed before.length ps) :
    ∃ p ∈ ps, p.value = v ∧ ∃ rest, (before ++ layout ps tail).drop o = p.block ++ rest := by
  induction ps generalizing before with
  | nil => exact absurd h not_mem_nil
  | cons p ps ih =>
    rcases mem_cons.mp h with heq | h
    · cases heq
      refine ⟨p, mem_cons_self, rfl, layout ps tail, ?_⟩
      rw [layout, ← append_assoc, ← length_append, drop_left]
    have hlen : before.length + p.gap.length + p.block.length =
        (before ++ p.gap ++ p.block).length := by
      simp only [length_append]
    rw [hlen] at h
    obtain ⟨p', hp', hv, rest, hdrop⟩ := ih h
    refine ⟨p', mem_cons_of_mem _ hp', hv, rest, ?_⟩
    rw [← hdrop, layout]
    simp

theorem placed_ge {ps : List (Piece α β)} {x : ℕ × β} (h : x ∈ placed base ps) : base ≤ x.1 := by
  induction ps generalizing base with
  | nil => exact absurd h not_mem_nil
  | cons p ps ih =>
    rcases mem_cons.mp h with rfl | h
    · exact Nat.le_add_right _ _
    · have := ih h
      omega

theorem placed_pairwise (size : β → ℕ) {ps : List (Piece α β)}
    (hsize : ∀ p ∈ ps, p.block.length = size p.value) :
    (placed base ps).Pairwise fun x y => x.1 + size x.2 ≤ y.1 := by
  induction ps generalizing base with
  | nil => exact List.Pairwise.nil
  | cons p ps ih =>
    obtain ⟨hp, hps⟩ := forall_mem_cons.mp hsize
    refine pairwise_cons.mpr ⟨fun y hy => ?_, ih hps⟩
    have := placed_ge hy
    rw [hp] at this
    exact this

theorem apart_of_lt (size : β → ℕ) {l : List (ℕ × β)}
    (hl : l.Pairwise fun x y => x.1 + size x.2 ≤ y.1) {x y : ℕ × β} (hx : x ∈ l) (hy : y ∈ l)
    (hlt : x.1 < y.1) : x.1 + size x.2 ≤ y.1 := by
  let r : ℕ × β → ℕ × β → Prop := fun x y => x.1 + size x.2 ≤ y.1 ∨ y.1 + size y.2 ≤ x.1
  have : Std.Symm r := ⟨fun _ _ => Or.symm⟩
  have hr : l.Pairwise r := hl.imp Or.inl
  have hne : x ≠ y := fun h => absurd (congrArg Prod.fst h) (Nat.ne_of_lt hlt)
  rcases hr.forall hx hy hne with h | h
  · exact h
  · exact absurd (Nat.le_trans (Nat.le_add_right _ _) h) (Nat.not_le_of_lt hlt)

theorem eq_of_ascending {l l' : List (ℕ × β)} (hl : l.Pairwise fun x y => x.1 < y.1)
    (hl' : l'.Pairwise fun x y => x.1 < y.1) (h : ∀ x, x ∈ l ↔ x ∈ l') : l = l' := by
  have : Std.Antisymm fun x y : ℕ × β => x.1 < y.1 := ⟨fun _ _ h1 h2 => absurd h1 h2.asymm⟩
  have : Std.Irrefl fun x y : ℕ × β => x.1 < y.1 := ⟨fun _ => Nat.lt_irrefl _⟩
  exact hl.eq_of_mem_iff hl' h

end TileLib
