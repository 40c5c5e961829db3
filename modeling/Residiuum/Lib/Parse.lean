import Mathlib.Data.List.Basic
import Mathlib.Tactic.Common

/-!
# Step parsers and the strings they read

A step parser consumes a prefix of its input and returns a value with the rest. It is specified by
a grammar `G : α → List β → Prop`, the strings that spell a value.

* `ParsesBelow n p G`: on inputs shorter than `n`, `p` returns `x` and the rest `r` **iff** the
  input is `b ++ r` for a string `b` of `x`. The bound lets recursive parsers be specified by
  induction on the input length.
* `ParsesBelow.bind`, `ParsesBelow.pure`, `ParsesBelow.times`: sequencing and counted repetition.
-/

namespace ByteLib

open List StateT

variable {β ε α γ : Type} {cur : List β} {x : Except ε α} {z : α × List β} {c : γ}

/-- A step parser over symbols `β` with errors `ε`. -/
abbrev Step (β ε α : Type) : Type := StateT (List β) (Except ε) α

theorem bind_eq_ok {f : α → Except ε γ} : (x >>= f) = .ok c ↔ ∃ a, x = .ok a ∧ f a = .ok c := by
  cases x with
  | error e | ok a => simp [bind, Except.bind]

theorem map_eq_ok {f : α → γ} : x.map f = .ok c ↔ ∃ a, x = .ok a ∧ f a = c := by
  cases x with
  | error e => simp [Except.map]
  | ok a => simp [Except.map]

theorem check_bind_eq_ok {x : Except ε Unit} {f : Unit → Except ε γ} :
    (x >>= f) = .ok c ↔ x = .ok () ∧ f () = .ok c := by
  rw [bind_eq_ok]
  exact ⟨fun ⟨_, hx, hf⟩ => ⟨hx, hf⟩, fun ⟨hx, hf⟩ => ⟨(), hx, hf⟩⟩

theorem ite_throw_eq_ok {c : Prop} [Decidable c] {e : ε} {a : α} :
    (if c then throw e else x) = .ok a ↔ ¬ c ∧ x = .ok a := by
  split_ifs with h
  · exact ⟨nofun, fun h' => absurd h h'.1⟩
  · exact ⟨fun hx => ⟨h, hx⟩, fun h' => h'.2⟩

theorem run_bind_eq_ok {p : Step β ε α} {f : α → Step β ε γ} {z : γ × List β} :
    (p >>= f).run cur = .ok z ↔ ∃ x r, p.run cur = .ok (x, r) ∧ (f x).run r = .ok z := by
  rw [run_bind, bind_eq_ok]
  constructor
  · rintro ⟨⟨x, r⟩, h1, h2⟩
    exact ⟨x, r, h1, h2⟩
  · rintro ⟨x, r, h1, h2⟩
    exact ⟨(x, r), h1, h2⟩

theorem run_pure_eq_ok {x : α} : (pure x : Step β ε α).run cur = .ok z ↔ z = (x, cur) := by
  rw [run_pure]
  exact ⟨fun h => (Except.ok.inj h).symm, fun h => by rw [h]; rfl⟩

theorem run_throw_eq_ok {e : ε} : (throw e : Step β ε α).run cur = .ok z ↔ False := by
  rw [iff_false]
  exact nofun

theorem run_get_eq_ok {x cur r : List β} :
    (get : Step β ε (List β)).run cur = .ok (x, r) ↔ x = cur ∧ r = cur := by
  rw [run_get]
  refine ⟨fun h => ?_, fun h => by rw [h.1, h.2]; rfl⟩
  cases h
  exact ⟨rfl, rfl⟩

theorem run_ite {c : Prop} [Decidable c] {p q : Step β ε α} :
    (if c then p else q).run cur = if c then p.run cur else q.run cur := by
  split_ifs <;> rfl

/-- `p` reads exactly the strings of `G` on inputs shorter than `n`. -/
def ParsesBelow (n : ℕ) (p : Step β ε α) (G : α → List β → Prop) : Prop :=
  ∀ cur, cur.length < n → ∀ x r, p.run cur = .ok (x, r) ↔ ∃ b, G x b ∧ cur = b ++ r

theorem ParsesBelow.pure (n : ℕ) (x : α) :
    ParsesBelow n (pure x : Step β ε α) (fun y b => y = x ∧ b = []) := by
  intro cur _ y r
  rw [run_pure_eq_ok, Prod.mk.injEq]
  constructor
  · rintro ⟨rfl, rfl⟩
    exact ⟨[], ⟨rfl, rfl⟩, rfl⟩
  · rintro ⟨b, ⟨rfl, rfl⟩, rfl⟩
    exact ⟨rfl, rfl⟩

variable {n : ℕ} {G : α → List β → Prop}

theorem ParsesBelow.bind {p : Step β ε α} {f : α → Step β ε γ}
    {H : α → γ → List β → Prop} (hp : ParsesBelow n p G) (hf : ∀ x, ParsesBelow n (f x) (H x)) :
    ParsesBelow n (p >>= f) fun z b => ∃ x b1 b2, G x b1 ∧ H x z b2 ∧ b = b1 ++ b2 := by
  intro cur hcur z r
  rw [run_bind_eq_ok]
  constructor
  · rintro ⟨x, r1, h1, h2⟩
    obtain ⟨b1, hG, rfl⟩ := (hp cur hcur x r1).mp h1
    have hr1 : r1.length < n := by
      rw [length_append] at hcur
      omega
    obtain ⟨b2, hH, rfl⟩ := (hf x r1 hr1 z r).mp h2
    exact ⟨b1 ++ b2, ⟨x, b1, b2, hG, hH, rfl⟩, (append_assoc ..).symm⟩
  · rintro ⟨_, ⟨x, b1, b2, hG, hH, rfl⟩, rfl⟩
    rw [append_assoc] at hcur ⊢
    have hr1 : (b2 ++ r).length < n := by
      rw [length_append] at hcur
      omega
    exact ⟨x, b2 ++ r, (hp _ hcur x _).mpr ⟨b1, hG, rfl⟩, (hf x _ hr1 z r).mpr ⟨b2, hH, rfl⟩⟩

theorem ParsesBelow.congr {p : Step β ε α} {G H : α → List β → Prop}
    (hp : ParsesBelow n p G) (h : ∀ x b, G x b ↔ H x b) : ParsesBelow n p H := by
  intro cur hcur x r
  rw [hp cur hcur x r]
  simp [h]

/-! ## Counted repetition -/

def times (p : Step β ε α) : ℕ → Step β ε (List α)
  | 0 => pure []
  | k + 1 => do
    let x ← p
    let xs ← times p k
    pure (x :: xs)

/-- The strings of a list: one string per element, in order. -/
def Many (G : α → List β → Prop) : List α → List β → Prop
  | [], b => b = []
  | x :: xs, b => ∃ b1 b2, G x b1 ∧ Many G xs b2 ∧ b = b1 ++ b2

theorem ParsesBelow.times {p : Step β ε α} (hp : ParsesBelow n p G) (k : ℕ) :
    ParsesBelow n (times p k) fun xs b => xs.length = k ∧ Many G xs b := by
  induction k with
  | zero =>
    refine (ParsesBelow.pure n []).congr fun xs b => ?_
    cases xs with
    | nil => simp [Many]
    | cons x xs => simp
  | succ k ih =>
    refine (hp.bind fun x => ih.bind fun xs => ParsesBelow.pure n (x :: xs)).congr fun ys b => ?_
    constructor
    · rintro ⟨x, b1, _, hG, ⟨xs, b2, _, ⟨hk, hM⟩, ⟨rfl, rfl⟩, rfl⟩, rfl⟩
      exact ⟨by simp [hk], b1, b2, hG, hM, by simp⟩
    · rintro ⟨hk, hM⟩
      cases ys with
      | nil => simp at hk
      | cons x xs =>
        obtain ⟨b1, b2, hG, hM, rfl⟩ := hM
        exact ⟨x, b1, b2, hG, ⟨xs, b2, [], ⟨by simpa using hk, hM⟩, ⟨rfl, rfl⟩, by simp⟩, rfl⟩

theorem many_iff_flatMap {P : α → Prop} {enc : α → List β} {xs : List α} {b : List β} :
    Many (fun x b => P x ∧ b = enc x) xs b ↔ (∀ x ∈ xs, P x) ∧ b = xs.flatMap enc := by
  induction xs generalizing b with
  | nil => simp [Many]
  | cons x xs ih =>
    simp only [Many, ih, forall_mem_cons, flatMap_cons]
    constructor
    · rintro ⟨b1, b2, ⟨hx, rfl⟩, ⟨hxs, rfl⟩, rfl⟩
      exact ⟨⟨hx, hxs⟩, rfl⟩
    · rintro ⟨⟨hx, hxs⟩, rfl⟩
      exact ⟨_, _, ⟨hx, rfl⟩, ⟨hxs, rfl⟩, rfl⟩

theorem exists_string {P : Prop} {w cur r : List β} :
    (∃ b, (P ∧ b = w) ∧ cur = b ++ r) ↔ P ∧ cur = w ++ r := by
  constructor
  · rintro ⟨b, ⟨h, rfl⟩, e⟩
    exact ⟨h, e⟩
  · rintro ⟨h, e⟩
    exact ⟨_, ⟨h, rfl⟩, e⟩

theorem ParsesBelow.times_eq_ok {p : Step β ε α} {P : α → Prop} {enc : α → List β}
    (hp : ParsesBelow n p fun x b => P x ∧ b = enc x) (k : ℕ) (hcur : cur.length < n)
    {xs : List α} {r : List β} : (ByteLib.times p k).run cur = .ok (xs, r) ↔
      xs.length = k ∧ (∀ x ∈ xs, P x) ∧ cur = xs.flatMap enc ++ r := by
  rw [hp.times k cur hcur xs r, ← and_assoc, ← exists_string]
  simp only [many_iff_flatMap, and_assoc]

end ByteLib
