import Mathlib.Data.List.Perm.Subperm
import Mathlib.Data.List.Nodup
import Mathlib.Tactic.Common

/-!
# Matching lists element by element

Three ways to compare two lists up to order, each a loop of membership tests, and what they decide
when the tested relation is equality of keys, `r b a ↔ f b = g a`.

* `matchAll`: match greedily, each right element at most once; **`matchAll_iff_perm`**: the keys
  are the same with multiplicity.
* **`all_any_iff_perm`**: each left element occurs on the right; for lists of one length without
  repeated keys on the left this is again the same.
* **`all_find_iff_perm`**: the same for entries looked up by name.
-/

namespace MatchLib

open Bool List

variable {α β κ : Type} {r : β → α → Bool} {f : β → κ} {g : α → κ} {bs : List β} {p : α → Bool}
  {as : List α} {l : List (Bool × α)}

/-! ## Greedy matching -/

/-- Mark the first unmarked element that `p` accepts. -/
def markFirst (p : α → Bool) : List (Bool × α) → Option (List (Bool × α))
  | [] => none
  | (marked, x) :: xs =>
    if !marked && p x then some ((true, x) :: xs)
    else (markFirst p xs).map ((marked, x) :: ·)

/-- Match every left element with an unmarked right one. -/
def matchAll (r : β → α → Bool) : List β → List (Bool × α) → Bool
  | [], _ => true
  | b :: bs, right =>
    match markFirst (r b) right with
    | some right => matchAll r bs right
    | none => false

def unmarked (right : List (Bool × α)) : List α := (right.filter fun x => !x.1).map Prod.snd

@[simp] theorem unmarked_fresh (l : List α) : unmarked (l.map fun x => (false, x)) = l := by
  induction l with
  | nil => rfl
  | cons x l ih => simpa [unmarked] using ih

theorem markFirst_eq_some {l' : List (Bool × α)} (h : markFirst p l = some l') :
    ∃ x, p x = true ∧ (unmarked l).Perm (x :: unmarked l') := by
  induction l generalizing l' with
  | nil => cases h
  | cons e l ih =>
    obtain ⟨marked, x⟩ := e
    unfold markFirst at h
    split_ifs at h with hx
    · cases h
      simp only [and_eq_true, not_eq_true'] at hx
      exact ⟨x, hx.2, by rw [hx.1]; exact .refl _⟩
    · obtain ⟨l₁, hl₁, rfl⟩ := Option.map_eq_some_iff.mp h
      obtain ⟨y, hy, hperm⟩ := ih hl₁
      refine ⟨y, hy, ?_⟩
      cases marked with
      | true => exact hperm
      | false => exact (hperm.cons x).trans (.swap y x _)

theorem markFirst_eq_none (h : markFirst p l = none) : ∀ x ∈ unmarked l, p x = false := by
  induction l with
  | nil => simp [unmarked]
  | cons e l ih =>
    obtain ⟨marked, x⟩ := e
    unfold markFirst at h
    split_ifs at h with hx
    have htail := ih (Option.map_eq_none_iff.mp h)
    cases marked with
    | true => exact htail
    | false => exact forall_mem_cons.mpr ⟨by simpa using hx, htail⟩

theorem matchAll_iff_subperm {right : List (Bool × α)}
    (hr : ∀ b ∈ bs, ∀ a ∈ unmarked right, r b a = true ↔ f b = g a) :
    matchAll r bs right = true ↔ (bs.map f).Subperm ((unmarked right).map g) := by
  induction bs generalizing right with
  | nil => simp [matchAll]
  | cons b bs ih =>
    rw [forall_mem_cons] at hr
    unfold matchAll
    cases hmark : markFirst (r b) right with
    | none =>
      have hnone := markFirst_eq_none hmark
      simp only [false_eq_true, false_iff, map_cons]
      intro hsub
      obtain ⟨a, ha, hab⟩ := mem_map.mp (hsub.subset mem_cons_self)
      have := (hr.1 a ha).mpr hab.symm
      rw [hnone a ha] at this
      cases this
    | some right' =>
      obtain ⟨a, ha, hperm⟩ := markFirst_eq_some hmark
      have hmem : ∀ x ∈ unmarked right', x ∈ unmarked right := fun x hx =>
        hperm.mem_iff.mpr (mem_cons_of_mem a hx)
      have hkey : f b = g a := (hr.1 a (hperm.mem_iff.mpr mem_cons_self)).mp ha
      rw [ih fun c hc x hx => hr.2 c hc x (hmem x hx), map_cons, hkey,
        (hperm.map g).subperm_left, map_cons, subperm_cons]

theorem matchAll_iff_perm (hr : ∀ b ∈ bs, ∀ a ∈ as, r b a = true ↔ f b = g a) :
    (bs.length = as.length ∧ matchAll r bs (as.map fun a => (false, a)) = true) ↔
      (bs.map f).Perm (as.map g) := by
  rw [matchAll_iff_subperm (f := f) (g := g) (by simpa using hr), unmarked_fresh]
  constructor
  · rintro ⟨hlen, hsub⟩
    exact hsub.perm_of_length_le (by simp [hlen])
  · intro hperm
    exact ⟨by simpa using hperm.length_eq, hperm.subperm⟩

theorem all_any_iff_perm
    (hr : ∀ b ∈ bs, ∀ a ∈ as, r b a = true ↔ f b = g a) (hnodup : (bs.map f).Nodup) :
    (bs.length = as.length ∧ bs.all (fun b => as.any (r b)) = true) ↔
      (bs.map f).Perm (as.map g) := by
  have hsubset : bs.all (fun b => as.any (r b)) = true ↔ bs.map f ⊆ as.map g := by
    simp only [all_eq_true, any_eq_true, subset_def, mem_map,
      forall_exists_index, and_imp, forall_apply_eq_imp_iff₂]
    refine forall₂_congr fun b hb => ?_
    refine exists_congr fun a => and_congr_right fun ha => ?_
    rw [hr b hb a ha, eq_comm]
  rw [hsubset]
  constructor
  · rintro ⟨hlen, hsub⟩
    exact (subperm_of_subset hnodup hsub).perm_of_length_le (by simp [hlen])
  · intro hperm
    exact ⟨by simpa using hperm.length_eq, hperm.subset⟩

variable [BEq κ] [LawfulBEq κ] {γ : Type} {s : β → α → Bool} {u : β → γ} {v : α → γ}

theorem find?_key {es : List (κ × α)} (hnodup : (es.map Prod.fst).Nodup) {e : κ × α}
    (he : e ∈ es) : es.find? (fun x => x.1 == e.1) = some e := by
  induction es with
  | nil => cases he
  | cons x es ih =>
    rw [map_cons, nodup_cons] at hnodup
    rcases mem_cons.mp he with rfl | he
    · simp
    · have hne : x.1 ≠ e.1 := fun h => hnodup.1 (h ▸ mem_map_of_mem he)
      rw [find?_cons_of_neg (by simpa using hne), ih hnodup.2 he]

theorem all_find_iff_perm {bs : List (κ × β)} {as : List (κ × α)}
    (hs : ∀ b ∈ bs, ∀ a ∈ as, s b.2 a.2 = true ↔ u b.2 = v a.2)
    (hleft : (bs.map Prod.fst).Nodup) (hright : (as.map Prod.fst).Nodup) :
    (bs.length = as.length ∧ bs.all (fun b =>
        (as.find? fun a => a.1 == b.1).any fun a => s b.2 a.2) = true) ↔
      (bs.map fun b => (b.1, u b.2)).Perm (as.map fun a => (a.1, v a.2)) := by
  have hfind : ∀ b ∈ bs, ((as.find? fun a => a.1 == b.1).any fun a => s b.2 a.2) =
      as.any fun a => b.1 == a.1 && s b.2 a.2 := by
    intro b _
    by_cases hmem : ∃ a ∈ as, a.1 = b.1
    · obtain ⟨a, ha, hab⟩ := hmem
      have hfound := find?_key hright ha
      rw [hab] at hfound
      rw [hfound, Option.any_some, Bool.eq_iff_iff, any_eq_true]
      constructor
      · exact fun h => ⟨a, ha, by simp [hab, h]⟩
      · rintro ⟨a', ha', h⟩
        simp only [and_eq_true, beq_iff_eq] at h
        have hfound' := find?_key hright ha'
        rw [← h.1, hfound] at hfound'
        rw [Option.some.inj hfound']
        exact h.2
    · have hnone : as.find? (fun a => a.1 == b.1) = none := by
        rw [find?_eq_none]
        exact fun a ha h => hmem ⟨a, ha, by simpa using h⟩
      rw [hnone, Option.any_none, eq_comm, any_eq_false]
      intro a ha h
      simp only [and_eq_true, beq_iff_eq] at h
      exact hmem ⟨a, ha, h.1.symm⟩
  have hall : bs.all (fun b => (as.find? fun a => a.1 == b.1).any fun a => s b.2 a.2) =
      bs.all fun b => as.any ((fun b a => b.1 == a.1 && s b.2 a.2) b) := by
    rw [Bool.eq_iff_iff, all_eq_true, all_eq_true]
    exact forall₂_congr fun b hb => by rw [hfind b hb]
  rw [hall]
  refine all_any_iff_perm (fun b hb a ha => ?_) ?_
  · simp [hs b hb a ha]
  · refine List.Nodup.of_map Prod.fst ?_
    rwa [map_map]

end MatchLib
