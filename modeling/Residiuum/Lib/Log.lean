import Mathlib.Data.List.Forall2
import Mathlib.Data.List.Infix

/-!
# Append-only logs

A log is a list of entries; each entry has a block of symbols and remembers the offset at which the
block was put. The image of a log is its blocks end to end, `es.flatMap block`.

* **`take_eq_of_rollback`**: when the saved log is the beginning of the present one, cutting the
  retained part of the image to its saved length restores it.
-/

namespace LogLib

open List

variable {α β : Type} (block : β → List α) (offset : β → ℕ)

/-- Each entry remembers where its block starts, in an image that starts at `base`. -/
def Starts : ℕ → List β → Prop
  | _, [] => True
  | base, e :: es => offset e = base ∧ Starts (base + (block e).length) es

variable {block offset} {base : ℕ} {es fs : List β} {e : β}

theorem starts_append : Starts block offset base (es ++ fs) ↔ Starts block offset base es ∧
      Starts block offset (base + (es.flatMap block).length) fs := by
  induction es generalizing base with
  | nil => simp [Starts]
  | cons e es ih =>
    rw [cons_append, Starts, Starts, ih, flatMap_cons, length_append, and_assoc,
      Nat.add_assoc]

theorem starts_append_singleton : Starts block offset base (es ++ [e]) ↔
      Starts block offset base es ∧ offset e = base + (es.flatMap block).length := by
  rw [starts_append, Starts, Starts, and_true]

theorem starts_iff : Starts block offset base es ↔ ∀ before e after, es = before ++ e :: after →
      offset e = base + (before.flatMap block).length := by
  induction es generalizing base with
  | nil => simp [Starts]
  | cons e es ih =>
    rw [Starts, ih]
    constructor
    · rintro ⟨he, hes⟩ before f after heq
      cases before with
      | nil =>
        cases heq
        exact he
      | cons b before =>
        obtain ⟨rfl, htail⟩ := List.cons.inj heq
        rw [hes before f after htail, flatMap_cons, length_append, Nat.add_assoc]
    · intro h
      refine ⟨h [] e es rfl, fun before f after htail => ?_⟩
      rw [h (e :: before) f after (by rw [htail]; rfl), flatMap_cons, length_append,
        Nat.add_assoc]

/-- **Rollback.** The image of a log is `file ++ bytes`; with `saved` as the bytes of a log that is
the beginning of the present one, cutting to the saved length gives the saved bytes. -/
theorem take_eq_of_rollback {file bytes saved : List α}
    (hfs : file ++ bytes = fs.flatMap block) (hes : file ++ saved = es.flatMap block)
    (hle : es <+: fs) : saved.length ≤ bytes.length ∧ bytes.take saved.length = saved := by
  have himage : file ++ saved <+: file ++ bytes := by
    rw [hfs, hes]
    exact hle.flatMap block
  have hpre : saved <+: bytes := (prefix_append_right_inj file).mp himage
  exact ⟨hpre.length_le, (prefix_iff_eq_take.mp hpre).symm⟩

theorem exists_partner {γ : Type} {r : β → γ → Prop} {fs : List γ}
    (h : List.Forall₂ r es fs) (he : e ∈ es) : ∃ f ∈ fs, r e f := by
  induction h with
  | nil => exact absurd he not_mem_nil
  | cons hef _ ih =>
    rcases mem_cons.mp he with rfl | he
    · exact ⟨_, mem_cons_self, hef⟩
    · obtain ⟨f, hf, hr⟩ := ih he
      exact ⟨f, mem_cons_of_mem _ hf, hr⟩

end LogLib
