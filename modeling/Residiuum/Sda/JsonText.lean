import Residiuum.Sda.Json

/-!
# The canonical text determines the value

Members of sets and items of bags are sorted by `canonicalJsonText`. The order of the result does
not depend on the order of arrival because the text can be read back in only one way.

* **`canonicalJsonText_inj`**: two such values with the same text are equal.
-/

namespace Residiuum.Sda

open DistinctLib List SortedMapLib

/-! ## Well-formed values -/

def isNumberChar (c : Char) : Bool := c == '-' || isDecimalChar c

/-- Numbers look like numbers, and the keys of objects increase. -/
inductive Json.Canon : Json → Prop
  | null : Canon .null
  | bool (b : Bool) : Canon (.bool b)
  | number {t : Text} : t ≠ [] → (∀ c ∈ t, isNumberChar c = true) → Canon (.number t)
  | string (s : Text) : Canon (.string s)
  | array {items : List Json} : (∀ j ∈ items, Canon j) → Canon (.array items)
  | object {es : List (Text × Json)} : Sorted es → (∀ e ∈ es, Canon e.2) → Canon (.object es)

theorem itemTexts_eq (js : List Json) : itemTexts js = js.map canonicalJsonText := by
  induction js with
  | nil => rfl
  | cons j js ih => rw [itemTexts, ih, map_cons]

theorem entryTexts_eq (es : List (Text × Json)) :
    entryTexts es = es.map fun e => (e.1, canonicalJsonText e.2) := by
  induction es with
  | nil => rfl
  | cons e es ih => rw [entryTexts, ih, map_cons]

instance transCmpKey {ν : Type} : Std.TransCmp fun a b : Text × ν => compare a.1 b.1 where
  eq_swap := Std.OrientedCmp.eq_swap
  isLE_trans := Std.TransCmp.isLE_trans

theorem sortEntries_of_sorted {ν : Type} {es : List (Text × ν)} (h : Sorted es) :
    sortEntries es = es := by
  refine sortBy_eq_self.mpr (h.imp fun {a b} hab => ?_)
  rw [hab]
  rfl

def entryText (e : Text × Json) : Text := stringText e.1 ++ ':' :: canonicalJsonText e.2

theorem canonicalJsonText_object {es : List (Text × Json)} (h : Sorted es) :
    canonicalJsonText (.object es) = '{' :: joinComma (es.map entryText) ++ ['}'] := by
  have hsorted : Sorted (es.map fun e => (e.1, canonicalJsonText e.2)) :=
    pairwise_map.mpr h
  rw [canonicalJsonText, entryTexts_eq, sortEntries_of_sorted hsorted, map_map]
  rfl

theorem canonicalJsonText_array (js : List Json) :
    canonicalJsonText (.array js) = '[' :: joinComma (js.map canonicalJsonText) ++ [']'] := by
  rw [canonicalJsonText, itemTexts_eq]

/-- Read one escaped character. -/
def unescape : Text → Option (Char × Text)
  | '\\' :: '"' :: x => some ('"', x)
  | '\\' :: '\\' :: x => some ('\\', x)
  | '\\' :: 'n' :: x => some ('\n', x)
  | '\\' :: 'r' :: x => some ('\r', x)
  | '\\' :: 't' :: x => some ('\t', x)
  | '\\' :: 'b' :: x => some (Char.ofNat 8, x)
  | '\\' :: 'f' :: x => some (Char.ofNat 12, x)
  | '\\' :: 'u' :: '0' :: '0' :: h :: l :: x =>
    match toDigit16 h, toDigit16 l with
    | some h, some l => some (Char.ofNat (h * 16 + l), x)
    | _, _ => none
  | c :: x => some (c, x)
  | [] => none

theorem unescape_escapeChar (c : Char) (x : Text) : unescape (escapeChar c ++ x) = some (c, x) := by
  unfold escapeChar
  split_ifs with h1 h2 h3 h4 h5 h6 h7 h8
  · rw [h1]
    rfl
  · rw [h2]
    rfl
  · rw [h3]
    rfl
  · rw [h4]
    rfl
  · rw [h5]
    rfl
  · rw [show c = Char.ofNat 8 by rw [← h6, Char.ofNat_toNat]]
    rfl
  · rw [show c = Char.ofNat 12 by rw [← h7, Char.ofNat_toNat]]
    rfl
  · have hhigh := (digitChar_hex (show c.toNat / 16 < 16 by omega)).1
    have hlow := (digitChar_hex (show c.toNat % 16 < 16 by omega)).1
    simp only [cons_append, nil_append, unescape, hhigh, hlow]
    rw [Nat.div_add_mod', Char.ofNat_toNat]
  · rw [singleton_append]
    unfold unescape
    split
    all_goals first
      | next heq => exact absurd (cons.inj heq).1 h2
      | next heq =>
        cases heq
        rfl
      | next heq => cases heq

theorem head_escapeChar (c : Char) : ∃ d t, escapeChar c = d :: t ∧ d ≠ '"' := by
  unfold escapeChar
  split_ifs with h1
  all_goals first
    | exact ⟨_, _, rfl, by decide⟩
    | exact ⟨_, _, rfl, h1⟩

theorem stringText_inj {s s' r r' : Text} (h : stringText s ++ r = stringText s' ++ r') :
    s = s' ∧ r = r' := by
  have hbody : s.flatMap escapeChar ++ '"' :: r = s'.flatMap escapeChar ++ '"' :: r' := by
    simpa [stringText] using h
  clear h
  induction s generalizing s' with
  | nil =>
    cases s' with
    | nil => exact ⟨rfl, by simpa using hbody⟩
    | cons c s' =>
      obtain ⟨d, t, hd, hne⟩ := head_escapeChar c
      rw [flatMap_cons, hd] at hbody
      exact absurd (cons.inj hbody).1.symm hne
  | cons c s ih =>
    cases s' with
    | nil =>
      obtain ⟨d, t, hd, hne⟩ := head_escapeChar c
      rw [flatMap_cons, hd] at hbody
      exact absurd (cons.inj hbody).1 hne
    | cons c' s' =>
      rw [flatMap_cons, flatMap_cons, append_assoc, append_assoc] at hbody
      have hread := congrArg unescape hbody
      rw [unescape_escapeChar, unescape_escapeChar] at hread
      obtain ⟨rfl, hrest⟩ := Prod.mk.inj (Option.some.inj hread)
      obtain ⟨rfl, hr⟩ := ih hrest
      exact ⟨rfl, hr⟩

/-! ## Lists -/

/-- What may follow a value: nothing, a comma or a closing bracket. -/
def Stops (r : Text) : Prop := ∀ c ∈ r.head?, c = ',' ∨ c = ']' ∨ c = '}'

/-- Among the elements of `P`, only `a` has the text of `a`, wherever a value may end. -/
def ReadsBack {α : Type} (f : α → Text) (P : α → Prop) (a : α) : Prop :=
  ∀ a', P a' → ∀ r r', Stops r → Stops r' → f a ++ r = f a' ++ r' → a = a' ∧ r = r'

theorem joinComma_cons (t : Text) (ts : List Text) :
    joinComma (t :: ts) = t ++ ts.flatMap fun u => ',' :: u := by
  induction ts generalizing t with
  | nil => simp [joinComma]
  | cons u ts ih =>
    rw [joinComma, ih u, flatMap_cons, cons_append]
    exact nofun

section Lists

variable {α : Type} {f : α → Text} {P : α → Prop} {close : Char} {r r' : Text}

theorem stops_tail (hclose : close = ']' ∨ close = '}') (l : List α) :
    Stops ((l.flatMap fun a => ',' :: f a) ++ close :: r) := by
  intro c hc
  cases l with
  | nil =>
    obtain rfl : close = c := by simpa using hc
    exact .inr hclose
  | cons a l =>
    obtain rfl : ',' = c := by simpa using hc
    exact .inl rfl

theorem tail_inj (hclose : close = ']' ∨ close = '}') {l l' : List α}
    (hl : ∀ a ∈ l, ReadsBack f P a) (hl' : ∀ a ∈ l', P a)
    (h : (l.flatMap fun a => ',' :: f a) ++ close :: r =
      (l'.flatMap fun a => ',' :: f a) ++ close :: r') : l = l' ∧ r = r' := by
  have hcomma : close ≠ ',' := by
    rcases hclose with rfl | rfl <;> decide
  induction l generalizing l' with
  | nil =>
    cases l' with
    | nil => exact ⟨rfl, by simpa using h⟩
    | cons a' l' => exact absurd (cons.inj h).1 hcomma
  | cons a l ih =>
    rw [forall_mem_cons] at hl
    cases l' with
    | nil => exact absurd (cons.inj h).1.symm hcomma
    | cons a' l' =>
      rw [forall_mem_cons] at hl'
      rw [flatMap_cons, flatMap_cons, append_assoc, append_assoc] at h
      obtain ⟨rfl, hrest⟩ := hl.1 a' hl'.1 _ _ (stops_tail hclose l) (stops_tail hclose l')
        (cons.inj h).2
      obtain ⟨rfl, hr⟩ := ih hl.2 hl'.2 hrest
      exact ⟨rfl, hr⟩

/-- **A bracketed list can be read back** when its elements can and none starts like the closing
bracket. -/
theorem joinComma_inj (hclose : close = ']' ∨ close = '}') {l l' : List α}
    (hl : ∀ a ∈ l, ReadsBack f P a) (hl' : ∀ a ∈ l', P a)
    (hstart : ∀ a ∈ l ++ l', ∃ c t, f a = c :: t ∧ c ≠ close)
    (h : joinComma (l.map f) ++ close :: r = joinComma (l'.map f) ++ close :: r') :
    l = l' ∧ r = r' := by
  have hempty : ∀ a ∈ l ++ l', ∀ x y, close :: x ≠ f a ++ y := by
    intro a ha x y heq
    obtain ⟨c, t, hc, hne⟩ := hstart a ha
    rw [hc] at heq
    exact hne (cons.inj heq).1.symm
  cases l with
  | nil =>
    cases l' with
    | nil => exact ⟨rfl, by simpa [joinComma] using h⟩
    | cons a' l' =>
      rw [map_cons, joinComma_cons, append_assoc] at h
      exact absurd h (hempty a' (by simp) _ _)
  | cons a l =>
    rw [forall_mem_cons] at hl
    cases l' with
    | nil =>
      rw [map_cons, joinComma_cons, append_assoc] at h
      exact absurd h.symm (hempty a (by simp) _ _)
    | cons a' l' =>
      rw [forall_mem_cons] at hl'
      simp only [map_cons, joinComma_cons, append_assoc, flatMap_map] at h
      obtain ⟨rfl, hrest⟩ := hl.1 a' hl'.1 _ _ (stops_tail hclose l) (stops_tail hclose l') h
      obtain ⟨rfl, hr⟩ := tail_inj hclose hl.2 hl'.2 hrest
      exact ⟨rfl, hr⟩

end Lists

/-! ## Values -/

/-- The kinds of value that a first character tells apart. -/
inductive Lead where
  | null
  | true_
  | false_
  | number
  | string
  | array
  | object
  | other
  deriving DecidableEq

/-- The kind that a first character announces. -/
def leadOf (c : Char) : Lead :=
  if c = 'n' then .null else if c = 't' then .true_ else if c = 'f' then .false_
  else if c = '"' then .string else if c = '[' then .array else if c = '{' then .object
  else if isNumberChar c then .number else .other

def Json.lead : Json → Lead
  | .null => .null
  | .bool true => .true_
  | .bool false => .false_
  | .number _ => .number
  | .string _ => .string
  | .array _ => .array
  | .object _ => .object

theorem leadOf_number {c : Char} (h : isNumberChar c = true) : leadOf c = .number := by
  have hne : ∀ d : Char, isNumberChar d = false → c ≠ d := by
    rintro d hd rfl
    rw [h] at hd
    cases hd
  simp [leadOf, hne 'n' rfl, hne 't' rfl, hne 'f' rfl, hne '"' rfl, hne '[' rfl, hne '{' rfl, h]

variable {j j' : Json}

theorem canonicalJsonText_head (h : j.Canon) :
    ∃ c t, canonicalJsonText j = c :: t ∧ leadOf c = j.lead := by
  cases h with
  | null => exact ⟨'n', "ull".toList, rfl, rfl⟩
  | bool b =>
    cases b with
    | true => exact ⟨'t', "rue".toList, rfl, rfl⟩
    | false => exact ⟨'f', "alse".toList, rfl, rfl⟩
  | number hne hall =>
    obtain ⟨c, t, rfl⟩ := exists_cons_of_ne_nil hne
    exact ⟨c, t, rfl, leadOf_number (hall c mem_cons_self)⟩
  | string s => exact ⟨'"', _, rfl, rfl⟩
  | array _ => exact ⟨'[', _, rfl, rfl⟩
  | object _ _ => exact ⟨'{', _, rfl, rfl⟩

theorem lead_ne_other (j : Json) : j.lead ≠ .other := by
  cases j with
  | bool b => cases b <;> exact nofun
  | _ => exact nofun

theorem number_inj {t t' r r' : Text} (ht : ∀ c ∈ t, isNumberChar c = true)
    (ht' : ∀ c ∈ t', isNumberChar c = true) (hr : Stops r) (hr' : Stops r')
    (h : t ++ r = t' ++ r') : t = t' ∧ r = r' := by
  have hstop : ∀ {r : Text}, Stops r → r.takeWhile isNumberChar = [] := by
    intro r hr
    cases r with
    | nil => rfl
    | cons c r =>
      have hc : isNumberChar c = false := by
        rcases hr c rfl with rfl | rfl | rfl <;> decide
      simp [hc]
  have htake : ∀ {t r : Text}, (∀ c ∈ t, isNumberChar c = true) → Stops r →
      (t ++ r).takeWhile isNumberChar = t := by
    intro t r ht hr
    rw [takeWhile_append_of_pos ht, hstop hr, append_nil]
  have heq : t = t' := by rw [← htake ht hr, h, htake ht' hr']
  subst heq
  exact ⟨rfl, append_cancel_left h⟩

theorem lead_eq (h : j.Canon) (h' : j'.Canon) {r r' : Text}
    (heq : canonicalJsonText j ++ r = canonicalJsonText j' ++ r') : j.lead = j'.lead := by
  obtain ⟨c, t, hc, hlead⟩ := canonicalJsonText_head h
  obtain ⟨c', t', hc', hlead'⟩ := canonicalJsonText_head h'
  rw [hc, hc'] at heq
  rw [← hlead, ← hlead', (cons.inj heq).1]

theorem head_ne_close (h : j.Canon) {close : Char} (hclose : leadOf close = .other) :
    ∃ c t, canonicalJsonText j = c :: t ∧ c ≠ close := by
  obtain ⟨c, t, hc, hlead⟩ := canonicalJsonText_head h
  refine ⟨c, t, hc, ?_⟩
  rintro rfl
  exact lead_ne_other j (hlead.symm.trans hclose)

theorem readsBack_entry {e : Text × Json} (h : ReadsBack canonicalJsonText Json.Canon e.2) :
    ReadsBack entryText (fun e => e.2.Canon) e := by
  obtain ⟨k, j⟩ := e
  rintro ⟨k', j'⟩ hj' r r' hr hr' heq
  simp only [entryText, append_assoc, cons_append] at heq
  obtain ⟨rfl, hrest⟩ := stringText_inj heq
  obtain ⟨rfl, hrr⟩ := h j' hj' r r' hr hr' (cons.inj hrest).2
  exact ⟨rfl, hrr⟩

theorem canonicalJsonText_inj (h : j.Canon) : ReadsBack canonicalJsonText Json.Canon j := by
  induction h with
  | null =>
    intro j' hj' r r' _ _ heq
    have hlead := lead_eq .null hj' heq
    cases hj' with
    | null => exact ⟨rfl, append_cancel_left heq⟩
    | bool b => cases b <;> cases hlead
    | _ => cases hlead
  | bool b =>
    intro j' hj' r r' _ _ heq
    have hlead := lead_eq (.bool b) hj' heq
    cases hj' with
    | bool b' =>
      obtain rfl : b = b' := by cases b <;> cases b' <;> first | rfl | cases hlead
      exact ⟨rfl, append_cancel_left heq⟩
    | _ => cases b <;> cases hlead
  | number hne hall =>
    intro j' hj' r r' hr hr' heq
    have hlead := lead_eq (.number hne hall) hj' heq
    cases hj' with
    | number hne' hall' =>
      obtain ⟨rfl, hrr⟩ := number_inj hall hall' hr hr' heq
      exact ⟨rfl, hrr⟩
    | bool b => cases b <;> cases hlead
    | _ => cases hlead
  | string s =>
    intro j' hj' r r' _ _ heq
    have hlead := lead_eq (.string s) hj' heq
    cases hj' with
    | string s' =>
      obtain ⟨rfl, hrr⟩ := stringText_inj heq
      exact ⟨rfl, hrr⟩
    | bool b => cases b <;> cases hlead
    | _ => cases hlead
  | @array items hitems ih =>
    intro j' hj' r r' _ _ heq
    have hlead := lead_eq (.array hitems) hj' heq
    cases hj' with
    | @array items' hitems' =>
      simp only [canonicalJsonText_array, cons_append, append_assoc, nil_append,
        cons.injEq, true_and] at heq
      obtain ⟨rfl, hrr⟩ := joinComma_inj (.inl rfl) ih hitems' (fun a ha =>
        head_ne_close ((mem_append.mp ha).elim (hitems a) (hitems' a)) rfl) heq
      exact ⟨rfl, hrr⟩
    | bool b => cases b <;> cases hlead
    | _ => cases hlead
  | @object es hsorted hes ih =>
    intro j' hj' r r' _ _ heq
    have hlead := lead_eq (.object hsorted hes) hj' heq
    cases hj' with
    | @object es' hsorted' hes' =>
      simp only [canonicalJsonText_object hsorted, canonicalJsonText_object hsorted',
        cons_append, append_assoc, nil_append, cons.injEq, true_and] at heq
      obtain ⟨rfl, hrr⟩ := joinComma_inj (.inr rfl) (fun e he => readsBack_entry (ih e he)) hes'
        (fun e _ => ⟨'"', _, rfl, by decide⟩) heq
      exact ⟨rfl, hrr⟩
    | bool b => cases b <;> cases hlead
    | _ => cases hlead

instance transCmpText : Std.TransCmp fun a b : Json =>
    compare (canonicalJsonText a) (canonicalJsonText b) where
  eq_swap := Std.OrientedCmp.eq_swap
  isLE_trans := Std.TransCmp.isLE_trans

theorem eq_of_compare_text (h : j.Canon) (h' : j'.Canon)
    (heq : compare (canonicalJsonText j) (canonicalJsonText j') = .eq) : j = j' := by
  have htext := Std.LawfulEqOrd.eq_of_compare heq
  have hstop : Stops [] := fun c hc => by cases hc
  exact (canonicalJsonText_inj h j' h' [] [] hstop hstop (by rw [htext])).1

theorem sortRendered_eq_iff {l l' : List Json} (h : ∀ j ∈ l, j.Canon) :
    sortRendered l = sortRendered l' ↔ l.Perm l' := by
  constructor
  · intro heq
    have hsame : (sortRendered l).Perm (sortRendered l') := by rw [heq]
    exact (sortBy_perm _ l).symm.trans (hsame.trans (sortBy_perm _ l'))
  · exact fun hperm => sortBy_eq_of_perm hperm fun a ha b hb => eq_of_compare_text (h a ha) (h b hb)

theorem sortRendered_perm (l : List Json) : (sortRendered l).Perm l := sortBy_perm _ l

theorem sortRendered_sortRendered (l : List Json) :
    sortRendered (sortRendered l) = sortRendered l :=
  sortBy_eq_self.mpr (sortBy_pairwise l)

end Residiuum.Sda
