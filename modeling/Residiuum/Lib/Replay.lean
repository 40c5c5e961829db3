import Mathlib.Data.List.Induction
import Mathlib.Tactic.Common

/-!
# Replaying a keyed log

A log of events with keys is replayed into a map: the last event of a key decides its entry.

* **`lookup_foldl_elim`**, `lookup_foldl`: what a replayed map holds under a key.
* **`lastFor_eq_some`**: in a log sorted by a relation, the last event of a key is the one that no
  other event of the key follows.
-/

namespace ReplayLib

open List

variable {ε κ β M : Type} [DecidableEq κ] {key : ε → κ} {k : κ} {e : ε} {es fs : List ε}
  {r : ε → ε → Prop} {step : M → ε → M} (lookup : M → κ → Option β)

/-- The last event of the key `k`. -/
def lastFor (key : ε → κ) (k : κ) (es : List ε) : Option ε :=
  (es.filter fun e => key e = k).getLast?

theorem lastFor_append : lastFor key k (es ++ fs) = (lastFor key k fs).or (lastFor key k es) := by
  rw [lastFor, filter_append, getLast?_append]
  rfl

theorem lastFor_singleton : lastFor key k [e] = if key e = k then some e else none := by
  by_cases h : key e = k <;> simp [lastFor, h]

theorem lastFor_concat :
    lastFor key k (es ++ [e]) = if key e = k then some e else lastFor key k es := by
  rw [lastFor_append, lastFor_singleton]
  split <;> rfl

theorem mem_of_lastFor (h : lastFor key k es = some e) : e ∈ es ∧ key e = k := by
  have hmem := mem_of_getLast? h
  rw [mem_filter] at hmem
  exact ⟨hmem.1, of_decide_eq_true hmem.2⟩

theorem lastFor_eq_none : lastFor key k es = none ↔ ∀ e ∈ es, key e ≠ k := by
  rw [lastFor, getLast?_eq_none_iff, filter_eq_nil_iff]
  simp

theorem exists_lastFor (he : e ∈ es) (hk : key e = k) : ∃ e', lastFor key k es = some e' := by
  cases h : lastFor key k es with
  | none => exact absurd hk (lastFor_eq_none.mp h e he)
  | some e' => exact ⟨e', rfl⟩

theorem related_lastFor (hr : es.Pairwise r) (h : lastFor key k es = some e)
    {e' : ε} (he' : e' ∈ es) (hk' : key e' = k) : e' = e ∨ r e' e := by
  obtain ⟨before, hsplit⟩ := getLast?_eq_some_iff.mp h
  have hmem : e' ∈ es.filter fun e => key e = k :=
    mem_filter.mpr ⟨he', decide_eq_true hk'⟩
  have hpairs : (es.filter fun e => key e = k).Pairwise r := hr.filter _
  rw [hsplit] at hmem hpairs
  rcases mem_append.mp hmem with hbefore | hlast
  · exact .inr ((pairwise_append.mp hpairs).2.2 e' hbefore e mem_cons_self)
  · exact .inl (mem_singleton.mp hlast)

theorem lastFor_eq_some (hr : es.Pairwise r) (he : e ∈ es) (hk : key e = k)
    (hlast : ∀ e' ∈ es, key e' = k → e' = e ∨ ¬r e e') : lastFor key k es = some e := by
  obtain ⟨e', h⟩ := exists_lastFor he hk
  obtain ⟨he', hk'⟩ := mem_of_lastFor h
  rcases hlast e' he' hk' with rfl | hnot
  · exact h
  · rcases related_lastFor hr h he hk with rfl | hrel
    · exact h
    · exact absurd hrel hnot

theorem lookup_foldl_elim {val : ε → Option β}
    (hstep : ∀ m e k, lookup (step m e) k = if key e = k then val e else lookup m k)
    (es : List ε) (m : M) (k : κ) :
    lookup (es.foldl step m) k = (lastFor key k es).elim (lookup m k) val := by
  induction es using List.reverseRecOn with
  | nil => rfl
  | append_singleton es e ih =>
    rw [foldl_append, foldl_cons, foldl_nil, hstep, ih, lastFor_concat]
    split <;> rfl

theorem lookup_foldl {val : ε → β}
    (hstep : ∀ m e k, lookup (step m e) k = if key e = k then some (val e) else lookup m k)
    (es : List ε) (m : M) (k : κ) :
    lookup (es.foldl step m) k = ((lastFor key k es).map val).or (lookup m k) := by
  rw [lookup_foldl_elim lookup hstep]
  cases lastFor key k es <;> rfl

end ReplayLib
