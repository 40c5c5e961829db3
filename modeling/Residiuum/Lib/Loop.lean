import Mathlib.Data.Nat.Init
import Mathlib.Tactic.Common

/-!
# Loops with early exit

A loop body takes a state and either goes on with a new state or leaves with a result. A loop whose
body decreases a measure always leaves.

* **`exists_exit`**: the result is that of the last state reached.
-/

namespace LoopLib

variable {σ ρ : Type}

/-- Whenever the body goes on, `μ` gets smaller. -/
def Decreases (body : σ → σ ⊕ ρ) (μ : σ → ℕ) : Prop := ∀ s s', body s = .inl s' → μ s' < μ s

/-- Iterate the body until it leaves. -/
def loop (body : σ → σ ⊕ ρ) (μ : σ → ℕ) (h : Decreases body μ) (s : σ) : ρ :=
  match hs : body s with
  | .inl s' =>
    have := h s s' hs
    loop body μ h s'
  | .inr r => r
termination_by μ s

section Loop

variable {body : σ → σ ⊕ ρ} {μ : σ → ℕ} (h : Decreases body μ) {s t : σ}

theorem loop_next {s' : σ} (hs : body s = .inl s') : loop body μ h s = loop body μ h s' := by
  rw [loop]
  split
  · next t ht =>
    cases ht.symm.trans hs
    rfl
  · next r hr => cases hr.symm.trans hs

theorem loop_done {r : ρ} (hs : body s = .inr r) : loop body μ h s = r := by
  rw [loop]
  split
  · next t ht => cases ht.symm.trans hs
  · next r' hr => exact Sum.inr.inj (hr.symm.trans hs)

variable (body) in
/-- The loop started in `s` passes through `t`. -/
inductive Reaches (s : σ) : σ → Prop
  | refl : Reaches s s
  | tail {t t' : σ} : Reaches s t → body t = .inl t' → Reaches s t'

theorem Reaches.invariant {I : σ → Prop} (hI : ∀ t t', I t → body t = .inl t' → I t')
    (hst : Reaches body s t) (hs : I s) : I t := by
  induction hst with
  | refl => exact hs
  | tail _ ht ih => exact hI _ _ ih ht

theorem Reaches.head {s' : σ} (hs : body s = .inl s') (h : Reaches body s' t) :
    Reaches body s t := by
  induction h with
  | refl => exact .tail .refl hs
  | tail _ ht ih => exact .tail ih ht

theorem Reaches.loop_eq (hst : Reaches body s t) : loop body μ h s = loop body μ h t := by
  induction hst with
  | refl => rfl
  | tail _ ht ih => rw [ih, loop_next h ht]

theorem exists_exit (s : σ) : ∃ t, Reaches body s t ∧ body t = .inr (loop body μ h s) := by
  induction hk : μ s using Nat.strongRecOn generalizing s with
  | _ k ih =>
    cases hs : body s with
    | inl s' =>
      obtain ⟨t, hst, ht⟩ := ih (μ s') (hk ▸ h s s' hs) s' rfl
      exact ⟨t, hst.head hs, by rw [loop_next h hs]; exact ht⟩
    | inr r => exact ⟨s, .refl, by rw [loop_done h hs, hs]⟩

theorem loop_invariant {I : σ → Prop} {Q : ρ → Prop} (hI : ∀ t t', I t → body t = .inl t' → I t')
    (hQ : ∀ t r, I t → body t = .inr r → Q r) (hs : I s) : Q (loop body μ h s) := by
  obtain ⟨t, hst, ht⟩ := exists_exit h s
  exact hQ t _ (hst.invariant hI hs) ht

end Loop

end LoopLib
