import Mathlib.Tactic.Common

/-!
# Outcomes of fallible steps

A step of a recursive descent returns a result with the input that is left, or fails. `Post E Q`
says that a failure is one of `E` and a result one of `Q`; it composes along `bind`.
-/

namespace DescentLib

variable {ε α β : Type}

theorem ok_bind (a : α) (f : α → Except ε β) : (Except.ok a >>= f) = f a := rfl

/-- A failure is one of `E`, a result one of `Q`. -/
inductive Post (E : ε → Prop) (Q : α → Prop) : Except ε α → Prop
  | ok {a : α} : Q a → Post E Q (.ok a)
  | error {e : ε} : E e → Post E Q (.error e)

section Post

variable {E : ε → Prop} {Q Q' : α → Prop} {R : β → Prop} {x : Except ε α}

theorem Post.of_ok {a : α} (h : Post E Q (.ok a)) : Q a := by
  cases h with
  | ok h => exact h

theorem Post.mono (h : Post E Q x) (hQ : ∀ a, Q a → Q' a) : Post E Q' x := by
  cases h with
  | ok h => exact .ok (hQ _ h)
  | error h => exact .error h

theorem Post.bind (h : Post E Q x) {f : α → Except ε β} (hf : ∀ a, Q a → Post E R (f a)) :
    Post E R (x >>= f) := by
  cases h with
  | ok h => exact hf _ h
  | error h => exact .error h

end Post

end DescentLib
