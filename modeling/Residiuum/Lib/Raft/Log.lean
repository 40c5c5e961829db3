import Mathlib.Data.List.Infix
import Mathlib.Tactic.Linarith

/-!
# Replicated logs

Logs whose entries carry the term of the leader that created them. A log is *grounded* in a history
when each of its non-empty prefixes is a prefix of what the leader of the last term had. Grounded
logs satisfy log matching, and a log that is at least as up to date as another one contains every
prefix that the later leaders contain.

* **`prefix_of_upToDate`**: a committed prefix passes to a log that is more up to date.
-/

namespace RaftLib

open List

/-! ## Majorities -/

section Majority

variable {N : Type} {voters : List N} {S S' : N → Prop}

/-- More than half of the positions of `voters` satisfy `S`. -/
def Majority (voters : List N) (S : N → Prop) : Prop :=
  ∃ l : List N, l.Sublist voters ∧ voters.length < 2 * l.length ∧ ∀ v ∈ l, S v

theorem Majority.mono (h : Majority voters S) (himp : ∀ v ∈ voters, S v → S' v) :
    Majority voters S' := by
  obtain ⟨l, hsub, hlen, hl⟩ := h
  exact ⟨l, hsub, hlen, fun v hv => himp v (hsub.subset hv) (hl v hv)⟩

theorem exists_common_of_sublist {l l' : List N} (h : l.Sublist voters) (h' : l'.Sublist voters)
    (hlen : voters.length < l.length + l'.length) : ∃ v, v ∈ l ∧ v ∈ l' := by
  induction voters generalizing l l' with
  | nil =>
    rw [sublist_nil] at h h'
    subst h h'
    exact absurd hlen (lt_irrefl 0)
  | cons a voters ih =>
    rw [length_cons] at hlen
    have hle := h.length_le
    have hle' := h'.length_le
    rw [length_cons] at hle hle'
    cases h with
    | cons _ h =>
      cases h' with
      | cons _ h' => exact ih h h' (by omega)
      | cons_cons _ h' =>
        rw [length_cons] at hlen
        obtain ⟨v, hv, hv'⟩ := ih h h' (by omega)
        exact ⟨v, hv, mem_cons_of_mem _ hv'⟩
    | cons_cons _ h =>
      rw [length_cons] at hlen
      cases h' with
      | cons _ h' =>
        obtain ⟨v, hv, hv'⟩ := ih h h' (by omega)
        exact ⟨v, mem_cons_of_mem _ hv, hv'⟩
      | cons_cons _ _ => exact ⟨a, mem_cons_self, mem_cons_self⟩

theorem Majority.meet (h : Majority voters S) (h' : Majority voters S') :
    ∃ v ∈ voters, S v ∧ S' v := by
  obtain ⟨l, hsub, hlen, hl⟩ := h
  obtain ⟨l', hsub', hlen', hl'⟩ := h'
  obtain ⟨v, hv, hv'⟩ := exists_common_of_sublist hsub hsub' (by omega)
  exact ⟨v, hsub.subset hv, hl v hv, hl' v hv'⟩

end Majority

/-! ## Grounded logs -/

section Grounded

variable {E : Type} (τ : E → ℕ)

/-- Each non-empty prefix is a prefix of the history of the term of its last entry. -/
def Grounded (H : ℕ → List E) (l : List E) : Prop :=
  ∀ p e, p ++ [e] <+: l → p ++ [e] <+: H (τ e)

def lastTerm (l : List E) : ℕ := (l.getLast?.map τ).getD 0

/-- `b` is at least as up to date as `l`. -/
def UpToDate (b l : List E) : Prop :=
  lastTerm τ l < lastTerm τ b ∨ lastTerm τ l = lastTerm τ b ∧ l.length ≤ b.length

variable {τ} {H H' : ℕ → List E} {b l l' p : List E} {e e' : E} {i : ℕ}

theorem UpToDate.refl (l : List E) : UpToDate τ l l := .inr ⟨rfl, le_rfl⟩

@[simp] theorem lastTerm_nil : lastTerm τ [] = 0 := rfl

@[simp] theorem lastTerm_append_singleton : lastTerm τ (l ++ [e]) = τ e := by
  simp [lastTerm]

@[simp] theorem Grounded.nil : Grounded τ H [] := fun p e h => by simp at h

theorem Grounded.initial (h : Grounded τ H l) (hp : p <+: l) : Grounded τ H p :=
  fun _ _ hq => h _ _ (hq.trans hp)

theorem Grounded.mono (h : Grounded τ H l) (hH : ∀ t, H t <+: H' t) : Grounded τ H' l :=
  fun q x hq => (h q x hq).trans (hH (τ x))

theorem Grounded.concat (h : Grounded τ H l) (he : l ++ [e] <+: H (τ e)) :
    Grounded τ H (l ++ [e]) := by
  intro q x hq
  obtain hq | hq := prefix_concat_iff.mp hq
  · obtain ⟨rfl, hx⟩ := append_inj' hq rfl
    obtain rfl := singleton_injective hx
    exact he
  · exact h q x hq

theorem take_of_initial (h : p <+: l) (hi : i ≤ p.length) : l.take i = p.take i := by
  obtain ⟨t, rfl⟩ := h
  exact take_append_of_le_length hi

theorem prefix_of_not_covered (hp : p <+: l) (hb : b <+: l) {q : List E} (hpq : p <+: q)
    (hbq : ¬ b <+: q) : p <+: b := by
  have hcases := prefix_or_prefix_of_prefix hp hb
  exact hcases.resolve_right fun h => hbq (h.trans hpq)

theorem Grounded.of_mem (h : Grounded τ H l) (he : e ∈ l) : ∃ p, p ++ [e] <+: H (τ e) := by
  obtain ⟨s, t, rfl⟩ := append_of_mem he
  refine ⟨s, h s e ⟨t, ?_⟩⟩
  simp

theorem Grounded.matching (h : Grounded τ H l) (h' : Grounded τ H l')
    (he : l[i]? = some e) (he' : l'[i]? = some e') (hterm : τ e = τ e') :
    l.take (i + 1) = l'.take (i + 1) := by
  have key : ∀ {l : List E} {e : E}, Grounded τ H l → l[i]? = some e →
      l.take (i + 1) = (H (τ e)).take (i + 1) := by
    intro l e h he
    have htake : l.take i ++ [e] = l.take (i + 1) := by rw [take_add_one, he]; rfl
    have hlt : i < l.length := (List.getElem?_eq_some_iff.mp he).1
    have hp : l.take i ++ [e] <+: H (τ e) := h _ _ (htake ▸ take_prefix _ _)
    rw [htake, prefix_iff_eq_take, length_take, min_eq_left hlt] at hp
    exact hp
  rw [key h he, key h' he', hterm]

theorem Grounded.le (hH : ∀ t, ∀ x ∈ H t, τ x ≤ t) (h : Grounded τ H (p ++ [e])) :
    ∀ x ∈ p ++ [e], τ x ≤ τ e :=
  fun x hx => hH _ x ((h p e (prefix_refl _)).subset hx)

theorem Grounded.le_lastTerm (hH : ∀ t, ∀ x ∈ H t, τ x ≤ t) (h : Grounded τ H l) :
    ∀ x ∈ l, τ x ≤ lastTerm τ l := by
  obtain rfl | ⟨p, e, rfl⟩ := eq_nil_or_concat' l
  · simp
  · rw [lastTerm_append_singleton]
    exact h.le hH

theorem prefix_of_upToDate (hH : ∀ t, ∀ x ∈ H t, τ x ≤ t) (hb : Grounded τ H b)
    (hl : Grounded τ H l) (hup : UpToDate τ b l) (hp : p ++ [e] <+: l)
    (hlater : ∀ q x, b = q ++ [x] → τ e < τ x → p ++ [e] <+: H (τ x)) : p ++ [e] <+: b := by
  have hle : τ e ≤ lastTerm τ l := hl.le_lastTerm hH e (hp.subset (by simp))
  obtain rfl | ⟨q, x, rfl⟩ := eq_nil_or_concat' b
  · -- an empty log is at least as up to date as an empty log only
    obtain hlt | ⟨-, hlen⟩ := hup
    · simp at hlt
    · have := hp.length_le
      simp only [length_append, length_nil, length_singleton] at this hlen
      omega
  have hx : q ++ [x] <+: H (τ x) := hb q x (prefix_refl _)
  obtain hlt | ⟨heq, hlen⟩ := hup
  · -- the last entry was created by a leader that contains the prefix
    rw [lastTerm_append_singleton] at hlt
    have hcases := prefix_or_prefix_of_prefix (hlater q x rfl (by omega)) hx
    refine hcases.resolve_right fun hqp => ?_
    have : τ x ≤ τ e := (hl.initial hp).le hH x (hqp.subset (by simp))
    omega
  · -- both logs are what one leader had, and the shorter one contains the prefix
    obtain rfl | ⟨q', x', rfl⟩ := eq_nil_or_concat' l
    · simp at hp
    rw [lastTerm_append_singleton, lastTerm_append_singleton] at heq
    have hx' : q' ++ [x'] <+: H (τ x) := heq ▸ hl q' x' (prefix_refl _)
    exact hp.trans (prefix_of_prefix_length_le hx' hx hlen)

end Grounded

end RaftLib
