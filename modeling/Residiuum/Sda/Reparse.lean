import Mathlib.Tactic.IntervalCases
import Residiuum.Lib.Descent
import Residiuum.Sda.Printed

/-!
# Parsing what was formatted

The tokens of a printable expression are read back as the expression, at every level of the grammar
its written form fits, in front of any token that does not continue it there.

* `levelParser r ℓ`: the parser of level `ℓ`; `StopsAt ℓ ts`: `ts` does not continue an expression
  of that level.
* **`Bare.reads_fit`**, `Bare.left`, `Bare.operand`: in parentheses or not, such an expression is
  read where its written form fits.
-/

namespace Residiuum.Sda

open DescentLib Expr List Nat

/-! ## Levels -/

def levelParser (r : Rec) : ℕ → Parser Expr
  | 1 => parsePipe r
  | 2 => parseOr r
  | 3 => parseAnd r
  | 4 => parseNot r
  | 5 => parseCmp r
  | 6 => parseSetish r
  | 7 => parseAdd r
  | 8 => parseMul r
  | 9 => parseUnary r
  | _ => parsePostfix r

def levelOp : ℕ → TokenKind → Option (Expr → Expr → Expr)
  | 1 => pipeOp
  | 2 => orOp
  | 3 => andOp
  | 6 => setOp
  | 7 => addOp
  | 8 => mulOp
  | _ => fun _ => none

def loopLevels : List ℕ := [1, 2, 3, 6, 7, 8]

variable {ℓ : ℕ} {e : Expr} {ts rest : List TokenKind} {r : Rec}

theorem levelParser_loop (h : ℓ ∈ loopLevels) (r : Rec) :
    levelParser r ℓ = leftChain (levelOp ℓ) (levelParser r (ℓ + 1)) := by
  simp only [loopLevels, mem_cons, not_mem_nil, or_false] at h
  rcases h with rfl | rfl | rfl | rfl | rfl | rfl <;> rfl

/-- The level at which a token continues what stands before it; 0 when it does not. -/
def contLevel : TokenKind → ℕ
  | .pipe => 1
  | .or_ => 2
  | .and_ => 3
  | .eq | .neq | .lt | .le | .gt | .ge => 5
  | .union | .inter | .diff | .bUnion | .bDiff | .in_ => 6
  | .plus | .minus | .concat => 7
  | .star | .slash => 8
  | .selL | .lParen | .lBrack => 10
  | .qMark | .bang | .lBrace | .fatArrow => 11
  | _ => 0

def selectorAhead : List TokenKind → Bool
  | .lt :: ts => isSelectorAccess ts
  | _ => false

/-- The tokens do not continue an expression of level `ℓ`. -/
def StopsAt (ℓ : ℕ) (ts : List TokenKind) : Prop :=
  contLevel (peek ts) < ℓ ∧ selectorAhead ts = false

section StopsAt

variable {ℓ ℓ' : ℕ} {ts : List TokenKind} {t : TokenKind}

theorem StopsAt.mono (h : StopsAt ℓ ts) (hle : ℓ ≤ ℓ') : StopsAt ℓ' ts :=
  ⟨lt_of_lt_of_le h.1 hle, h.2⟩

theorem stopsAt_cons (h : contLevel t < ℓ) (hlt : t ≠ .lt) : StopsAt ℓ (t :: ts) := by
  refine ⟨h, ?_⟩
  unfold selectorAhead
  split
  · next heq => exact absurd (List.cons.inj heq).1 hlt
  · rfl

theorem contLevel_of_levelOp {f : Expr → Expr → Expr} (h : levelOp ℓ t = some f) :
    contLevel t = ℓ := by
  unfold levelOp at h
  split at h <;> cases t <;> first | rfl | cases h

theorem StopsAt.levelOp (h : StopsAt ℓ ts) : levelOp ℓ (peek ts) = none := by
  cases hop : Sda.levelOp ℓ (peek ts) with
  | none => rfl
  | some f => exact absurd (contLevel_of_levelOp hop) h.1.ne

theorem StopsAt.cmpOp (h : StopsAt 5 ts) : cmpOp (peek ts) = none := by
  have hlevel := h.1
  generalize peek ts = t at hlevel
  cases t <;> first | rfl | (exact absurd hlevel (by decide))

theorem StopsAt.postfixStep (h : StopsAt 10 ts) : postfixStep r e ts = none := by
  obtain ⟨hlevel, hsel⟩ := h
  cases ts with
  | nil => rfl
  | cons t ts =>
    change contLevel t < 10 at hlevel
    cases t <;> first | rfl | (exact absurd hlevel (by decide)) | skip
    change (if isSelectorAccess ts then _ else none) = none
    rw [if_neg]
    change isSelectorAccess ts = false at hsel
    rw [hsel]
    exact Bool.false_ne_true

end StopsAt

/-- The level below which a token cannot start an expression. -/
def startLevel : TokenKind → ℕ
  | .not_ => 4
  | .minus => 9
  | .null | .true_ | .false_ | .num _ | .str _ | .bytes | .placeholder | .ident _ | .lParen | .seq
  | .set | .bag | .map | .prod | .bagKV | .some_ | .none_ | .ok_ | .fail_ | .lBrace => 11
  | _ => 0

theorem lift (hℓ : 1 ≤ ℓ) (hle : ℓ ≤ 9)
    (hstart : ℓ < startLevel (peek ts)) (h : levelParser r (ℓ + 1) ts = .ok (e, rest))
    (hstop : StopsAt ℓ rest) : levelParser r ℓ ts = .ok (e, rest) := by
  by_cases hloop : ℓ ∈ loopLevels
  · rw [levelParser_loop hloop, leftChain, h, ok_bind]
    dsimp only
    rw [chainLoop, hstop.levelOp]
  have hcases : ℓ = 4 ∨ ℓ = 5 ∨ ℓ = 9 := by
    simp only [loopLevels, mem_cons, not_mem_nil, or_false, not_or] at hloop
    omega
  rcases hcases with rfl | rfl | rfl
  · rw [← h]
    change parseNot r ts = parseCmp r ts
    unfold parseNot
    split
    · exact absurd hstart (lt_irrefl 4)
    · rfl
  · change parseCmp r ts = _
    change parseSetish r ts = _ at h
    rw [parseCmp, h, ok_bind]
    dsimp only
    rw [hstop.cmpOp]
  · rw [← h]
    change parseUnary r ts = parsePostfix r ts
    unfold parseUnary
    split
    · exact absurd hstart (lt_irrefl 9)
    · rfl

theorem lift_all {k : ℕ} (hℓ : 1 ≤ ℓ)
    (hle : ℓ ≤ k) (hk : k ≤ 10) (hstart : k ≤ startLevel (peek ts))
    (h : levelParser r k ts = .ok (e, rest)) (hstop : StopsAt ℓ rest) :
    levelParser r ℓ ts = .ok (e, rest) := by
  induction k, hle using le_induction with
  | base => exact h
  | succ k hle ih =>
    exact ih (by omega) (by omega) (lift (by omega) (by omega) (by omega) h (hstop.mono hle))

/-! ## Written forms -/

theorem wrapTokens_zero (ts : List TokenKind) (prec : ℕ) : wrapTokens ts prec 0 = ts :=
  if_neg (not_lt_zero prec)

section

variable (op : BinOpKind)

include op

theorem BinOpKind.precedence_le : op.precedence ≤ 7 := by cases op <;> decide

theorem rightPrec_le : rightPrec op ≤ 8 := by cases op <;> decide

theorem BinOpKind.level_le_leftLevel : op.level ≤ op.leftLevel := by
  cases op <;> decide

theorem BinOpKind.contLevel_token : contLevel op.token = op.level := by
  cases op <;> rfl

theorem BinOpKind.two_le_level : 2 ≤ op.level := by cases op <;> decide

end

theorem Expr.one_le_level (e : Expr) : 1 ≤ e.level := by
  cases e with
  | binOp op => exact le_trans (by decide) op.two_le_level
  | unOp op => cases op with
    | neg => exact (show 1 ≤ 9 by decide)
    | not => exact (show 1 ≤ 4 by decide)
  | pipe => exact le_rfl
  | call | select => exact (show 1 ≤ 10 by decide)
  | _ => exact (show 1 ≤ 11 by decide)

variable {T : CharTables} {rest : List TokenKind} {k m : ℕ}

theorem exprTokens_eq (hm : m ≤ 10) (e : Expr) :
    exprTokens T e m = wrapTokens (exprTokens T e 0) (precedence e) m := by
  have hatom : precedence e = 10 → exprTokens T e m = exprTokens T e 0 →
      exprTokens T e m = wrapTokens (exprTokens T e 0) (precedence e) m := by
    intro hprec heq
    rw [wrapTokens, hprec, if_neg (not_lt.mpr hm), heq]
  cases e with
  | binOp | unOp | pipe | lambda | call | select =>
    rw [exprTokens, exprTokens, wrapTokens_zero]
    rfl
  | bool b => cases b <;> exact hatom rfl rfl
  | _ => exact hatom rfl rfl

section Written

variable {e : Expr} {m : ℕ}

theorem exprTokens_wrapped (hm : m ≤ 10) (h : precedence e < m) :
    exprTokens T e m = .lParen :: exprTokens T e 0 ++ [.rParen] := by
  rw [exprTokens_eq hm, wrapTokens, if_pos h]

theorem exprTokens_bare (hm : m ≤ 10) (h : m ≤ precedence e) :
    exprTokens T e m = exprTokens T e 0 := by
  rw [exprTokens_eq hm, wrapTokens, if_neg (not_lt.mpr h)]

theorem Fits.level (h : Fits m ℓ e) (hm : m ≤ precedence e) : ℓ ≤ e.level :=
  h.resolve_left (not_lt.mpr hm)

end Written

theorem operand_fits (e : Expr) : precedence e < 9 ∨ 10 ≤ e.level ∧ e.isLambda = false := by
  cases e with
  | binOp op => exact .inl (lt_of_le_of_lt op.precedence_le (by decide))
  | unOp op => exact .inl (show 8 < 9 by decide)
  | pipe | lambda => exact .inl (show 1 < 9 by decide)
  | call | select => exact .inr ⟨show 10 ≤ 10 by decide, rfl⟩
  | _ => exact .inr ⟨show 10 ≤ 11 by decide, rfl⟩

theorem fits_target (e : Expr) : Fits 9 10 e := (operand_fits e).imp_right And.left

theorem fits_not (e : Expr) : Fits 8 4 e := by
  cases e with
  | binOp op => exact .inl (lt_of_le_of_lt op.precedence_le (by decide))
  | unOp op => cases op with
    | neg => exact .inr (show 4 ≤ 9 by decide)
    | not => exact .inr (show 4 ≤ 4 by decide)
  | pipe | lambda => exact .inl (show 1 < 8 by decide)
  | call | select => exact .inr (show 4 ≤ 10 by decide)
  | _ => exact .inr (show 4 ≤ 11 by decide)

theorem fits_pipe_right (e : Expr) : Fits 2 2 e := by
  cases e with
  | binOp op => exact .inr op.two_le_level
  | unOp op => cases op with
    | neg => exact .inr (show 2 ≤ 9 by decide)
    | not => exact .inr (show 2 ≤ 4 by decide)
  | pipe | lambda => exact .inl (show 1 < 2 by decide)
  | call | select => exact .inr (show 2 ≤ 10 by decide)
  | _ => exact .inr (show 2 ≤ 11 by decide)

theorem nameTokens_start (name : Text) : ∃ t ts, nameTokens name = .ident t :: ts := by
  unfold nameTokens
  split_ifs
  all_goals exact ⟨_, _, rfl⟩

theorem exists_start (hp : Printable T e) (hm : m ≤ 10) (hfit : Fits m ℓ e)
    (hℓ : ℓ ≤ 11) : ∃ t ts, exprTokens T e m = t :: ts ∧ ℓ ≤ startLevel t := by
  induction e using ind generalizing m ℓ with
  | step e ih =>
    by_cases hwrap : precedence e < m
    · exact ⟨_, _, exprTokens_wrapped hm hwrap, hℓ⟩
    rw [exprTokens_bare hm (not_lt.mp hwrap)]
    have hlevel := hfit.level (not_lt.mp hwrap)
    have happ : ∀ {o : Expr} {m' ℓ' : ℕ} (more : List TokenKind), o ∈ e.operands → m' ≤ 10 →
        Fits m' ℓ' o → ℓ ≤ ℓ' → ℓ' ≤ 11 →
          ∃ t ts, exprTokens T o m' ++ more = t :: ts ∧ ℓ ≤ startLevel t := by
      intro o m' ℓ' more ho hm' hfit' hle hℓ'
      obtain ⟨t, ts, heq, hstart⟩ :=
        ih o (mem_parts_of_operands ho) (hp.operand ho) hm' hfit' hℓ'
      exact ⟨t, ts ++ more, by rw [heq, cons_append], hle.trans hstart⟩
    cases e with
    | bool b => cases b <;> exact ⟨_, _, rfl, hℓ⟩
    | ident name =>
      obtain ⟨t, ts, heq⟩ := nameTokens_start name
      exact ⟨_, _, heq, hℓ⟩
    | binOp op l r =>
      have hle : op.leftLevel ≤ 11 := by cases op <;> decide
      rw [exprTokens, wrapTokens_zero]
      exact happ _ mem_cons_self (op.precedence_le.trans (by decide)) hp.here.1
        (hlevel.trans op.level_le_leftLevel) hle
    | unOp op =>
      rw [exprTokens, wrapTokens_zero]
      cases op with
      | neg | not => exact ⟨_, _, rfl, hlevel⟩
    | pipe l r =>
      rw [exprTokens, wrapTokens_zero]
      exact happ _ mem_cons_self (by decide) (.inr l.one_le_level) hlevel (by decide)
    | lambda =>
      rw [exprTokens, wrapTokens_zero]
      exact ⟨_, _, rfl, hℓ⟩
    | call callee args =>
      rw [exprTokens, wrapTokens_zero, append_assoc]
      by_cases hsugar : isSugarName callee = true
      · cases callee with
        | ident name =>
          obtain ⟨t, ts, heq⟩ := nameTokens_start name
          rw [exprTokens, heq]
          exact ⟨_, _, rfl, hℓ⟩
        | _ => cases hsugar
      · have hmem : callee ∈ (call callee args).operands := by
          rw [operands, if_neg hsugar]
          exact mem_cons_self
        exact happ _ hmem (by decide) (fits_target callee) hlevel (by decide)
    | select target selector mode =>
      rw [exprTokens, wrapTokens_zero]
      exact happ _ mem_cons_self (by decide) (fits_target target) hlevel (by decide)
    | _ => exact ⟨_, _, rfl, hℓ⟩

theorem not_selectorAccess (hp : Printable T e) (hm : m ≤ 10)
    (hfit : Fits m 6 e) (hrest : peek rest ≠ .gt) :
    isSelectorAccess (exprTokens T e m ++ rest) = false := by
  have hident : ∀ {t : Text} {ts : List TokenKind}, peek ts ≠ .gt →
      isSelectorAccess (.ident t :: ts) = false := by
    intro t ts h
    cases ts with
    | nil => rfl
    | cons x ts => cases x <;> first | rfl | exact absurd rfl h
  have hstr : ∀ {t : Text} {ts : List TokenKind}, peek ts ≠ .gt →
      isSelectorAccess (.str t :: ts) = false := by
    intro t ts h
    cases ts with
    | nil => rfl
    | cons x ts => cases x <;> first | rfl | exact absurd rfl h
  induction e using ind generalizing m rest with
  | step e ih =>
    by_cases hwrap : precedence e < m
    · rw [exprTokens_wrapped hm hwrap]
      rfl
    rw [exprTokens_bare hm (not_lt.mp hwrap)]
    have hlevel := hfit.level (not_lt.mp hwrap)
    have hname : ∀ name, peek rest ≠ .gt → isSelectorAccess (nameTokens name ++ rest) = false := by
      intro name hrest
      unfold nameTokens
      split_ifs
      · exact hident (fun h => by cases h)
      · exact hident (fun h => by cases h)
      · exact hident hrest
    cases e with
    | bool b => cases b <;> rfl
    | ident name => exact hname name hrest
    | str s => exact hstr hrest
    | binOp op l r =>
      rw [exprTokens, wrapTokens_zero, append_assoc]
      refine ih l mem_cons_self (hp.operand mem_cons_self)
        (op.precedence_le.trans (by decide)) ?_ ?_
      · exact hp.here.1.imp id fun h => hlevel.trans (op.level_le_leftLevel.trans h)
      · intro hgt
        have hcont := op.contLevel_token
        have hsix : 6 ≤ op.level := hlevel
        rw [← hcont, show op.token = .gt from hgt] at hsix
        exact absurd hsix (by decide)
    | pipe => exact absurd hlevel (show ¬ 6 ≤ 1 by decide)
    | unOp op =>
      rw [exprTokens, wrapTokens_zero]
      cases op <;> rfl
    | lambda =>
      rw [exprTokens, wrapTokens_zero]
      rfl
    | call callee args =>
      rw [exprTokens, wrapTokens_zero, append_assoc, append_assoc]
      by_cases hsugar : isSugarName callee = true
      · cases callee with
        | ident name =>
          unfold exprTokens nameTokens
          split_ifs
          · rfl
          · rfl
          · rfl
        | _ => cases hsugar
      · have hmem : callee ∈ (call callee args).operands := by
          rw [operands, if_neg hsugar]
          exact mem_cons_self
        exact ih callee mem_cons_self (hp.operand hmem) (by decide)
          ((fits_target callee).imp id fun h => le_trans (by decide) h) (fun h => by cases h)
    | select target selector mode =>
      rw [exprTokens, wrapTokens_zero, append_assoc]
      exact ih target mem_cons_self (hp.operand mem_cons_self) (by decide)
        ((fits_target target).imp id fun h => le_trans (by decide) h) (fun h => by cases h)
    | _ => rfl

theorem joinTokens_cons (t : List TokenKind) (ts : List (List TokenKind)) :
    joinTokens (t :: ts) = t ++ ts.flatMap fun t => .comma :: t := by
  induction ts generalizing t with
  | nil => simp [joinTokens]
  | cons t' ts ih =>
    change t ++ .comma :: joinTokens (t' :: ts) = _
    rw [ih, flatMap_cons, cons_append]

section Delimited

variable {α : Type} {close : TokenKind} {trailing : Bool} {item : Parser α} {N : ℕ}
  {xs : List (α × List TokenKind)}

/-- The item parser reads the tokens of `x` in front of a comma or of the closing token. -/
def ReadsItem (close : TokenKind) (item : Parser α) (N : ℕ) (x : α × List TokenKind) : Prop :=
  (∀ rest, peek rest = .comma ∨ peek rest = close → (x.2 ++ rest).length ≤ N →
    item (x.2 ++ rest) = .ok (x.1, rest)) ∧ ∀ rest, peek (x.2 ++ rest) ≠ close

theorem commaLoop_tokens (hclose : close ≠ .comma)
    (hxs : ∀ x ∈ xs, ReadsItem close item N x) {acc : List α}
    (hN : ((xs.flatMap fun x => .comma :: x.2) ++ close :: rest).length ≤ N)
    (hk : ((xs.flatMap fun x => .comma :: x.2) ++ close :: rest).length < k) :
    commaLoop close trailing item k acc ((xs.flatMap fun x => .comma :: x.2) ++ close :: rest) =
      .ok (acc ++ xs.map Prod.fst, close :: rest) := by
  induction xs generalizing acc k with
  | nil =>
    obtain ⟨k, rfl⟩ := exists_eq_succ_of_ne_zero (ne_zero_of_lt hk)
    change commaLoop close trailing item (k + 1) acc (close :: rest) = _
    rw [commaLoop, if_neg (show peek (close :: rest) ≠ .comma from hclose), map_nil,
      append_nil]
  | cons x xs ih =>
    obtain ⟨k, rfl⟩ := exists_eq_succ_of_ne_zero (ne_zero_of_lt hk)
    obtain ⟨hx, hxs⟩ := forall_mem_cons.mp hxs
    set more := (xs.flatMap fun x => .comma :: x.2) ++ close :: rest with hmore
    have heq : ((x :: xs).flatMap fun x => TokenKind.comma :: x.2) ++ close :: rest =
        .comma :: (x.2 ++ more) := by
      rw [flatMap_cons, append_assoc, cons_append]
    rw [heq, length_cons, length_append] at hN hk
    have hpeek : peek more = .comma ∨ peek more = close := by
      cases xs with
      | nil => exact .inr rfl
      | cons y ys => exact .inl rfl
    have hread := hx.1 more hpeek (by rw [length_append]; omega)
    rw [heq, commaLoop, if_pos (show peek (.comma :: (x.2 ++ more)) = .comma from rfl),
      tail_cons, if_neg (fun h => hx.2 more h.2), hread, ok_bind]
    dsimp only
    rw [ih hxs (by omega) (by omega), append_assoc, map_cons, singleton_append]

theorem delimited_tokens (hclose : close ≠ .comma) (hxs : ∀ x ∈ xs, ReadsItem close item N x)
    (hN : (joinTokens (xs.map Prod.snd) ++ close :: rest).length ≤ N) :
    delimited close trailing item (joinTokens (xs.map Prod.snd) ++ close :: rest) =
      .ok (xs.map Prod.fst, rest) := by
  have hexpect : expect close (close :: rest) = .ok rest := if_pos rfl
  cases xs with
  | nil =>
    change delimited close trailing item (close :: rest) = _
    rw [delimited, if_pos (show peek (close :: rest) = close from rfl), ok_bind]
    dsimp only
    rw [hexpect]
    rfl
  | cons x xs =>
    obtain ⟨hx, hxs⟩ := forall_mem_cons.mp hxs
    have hjoin : joinTokens ((x :: xs).map Prod.snd) ++ close :: rest =
        x.2 ++ ((xs.flatMap fun x => .comma :: x.2) ++ close :: rest) := by
      rw [map_cons, joinTokens_cons, flatMap_map, append_assoc]
    rw [hjoin, length_append] at hN
    have hpeek : peek ((xs.flatMap fun x => .comma :: x.2) ++ close :: rest) = .comma ∨
        peek ((xs.flatMap fun x => .comma :: x.2) ++ close :: rest) = close := by
      cases xs with
      | nil => exact .inr rfl
      | cons y ys => exact .inl rfl
    have hread := hx.1 _ hpeek (by rw [length_append]; omega)
    rw [hjoin, delimited, if_neg (hx.2 _), hread, ok_bind]
    dsimp only
    rw [commaLoop_tokens hclose hxs (by omega) (lt_succ_self _), ok_bind]
    rw [hexpect]
    rfl

end Delimited

section Postfix

variable {r : Rec} {e : Expr} {ts rest : List TokenKind}

theorem parseSugar_of_ne (h : ∀ name, e ≠ .ident name) : parseSugar r e ts = .ok (e, ts) := by
  cases e with
  | ident name => exact absurd rfl (h name)
  | _ => rfl

theorem parseSugar_ident {name : Text} (h : contLevel (peek ts) < 11) :
    parseSugar r (.ident name) ts = .ok (.ident name, ts) := by
  have hne : ∀ t, contLevel t = 11 → peek ts ≠ t := fun t ht heq => by
    rw [heq, ht] at h
    exact lt_irrefl 11 h
  rw [parseSugar, if_neg, if_neg, if_neg]
  · exact fun hbrace => hne .lBrace rfl hbrace.2
  · exact fun hbrace => hne .lBrace rfl hbrace.2
  · rintro ⟨-, hmark | hmark, -⟩
    · exact hne .qMark rfl hmark
    · exact hne .bang rfl hmark

theorem postfixLoop_stop (h : StopsAt 10 rest) (hk : rest.length < k) :
    postfixLoop r k e rest = .ok (e, rest) := by
  obtain ⟨k, rfl⟩ := exists_eq_succ_of_ne_zero (ne_zero_of_lt hk)
  rw [postfixLoop, h.postfixStep]

theorem chainLoop_stop {next : Parser Expr} (h : StopsAt ℓ rest)
    (hk : rest.length < k) : chainLoop (levelOp ℓ) next k e rest = .ok (e, rest) := by
  obtain ⟨k, rfl⟩ := exists_eq_succ_of_ne_zero (ne_zero_of_lt hk)
  rw [chainLoop, h.levelOp]

theorem parsePostfix_of_primary {e' : Expr} {ts' : List TokenKind}
    (hprimary : parsePrimary r ts = .ok (e', ts')) (hsugar : parseSugar r e' ts' = .ok (e, rest)) :
    parsePostfix r ts = postfixLoop r (rest.length + 1) e rest := by
  rw [parsePostfix, hprimary, ok_bind]
  dsimp only
  rw [hsugar, ok_bind]

end Postfix

/-! ## Expressions without parentheses around them -/

variable (T) in
/-- What holds of an expression written without parentheses around it. -/
structure Bare (e : Expr) : Prop where
  /-- It is read at every level it belongs to. -/
  reads : ∀ {n ℓ : ℕ} {rest : List TokenKind}, 1 ≤ ℓ → ℓ ≤ 10 → ℓ ≤ e.level → StopsAt ℓ rest →
    (e.isLambda = true → StopsAt 1 rest) → (exprTokens T e 0 ++ rest).length ≤ n →
      levelParser (recAt n) ℓ (exprTokens T e 0 ++ rest) = .ok (e, rest)
  /-- Where its level is a loop, the loop goes on with it. -/
  chain : ∀ {n : ℕ} {rest : List TokenKind} {out : Except (ParseError ℕ) (Expr × List TokenKind)},
    e.level ∈ loopLevels → StopsAt (e.level + 1) rest → (exprTokens T e 0 ++ rest).length ≤ n →
      (∀ k, rest.length < k → chainLoop (levelOp e.level) (levelParser (recAt n) (e.level + 1)) k e
        rest = out) → levelParser (recAt n) e.level (exprTokens T e 0 ++ rest) = out
  /-- As an operand, the loop over what follows goes on with it. -/
  post : ∀ {n : ℕ} {rest : List TokenKind} {out : Except (ParseError ℕ) (Expr × List TokenKind)},
    10 ≤ e.level → e.isLambda = false → contLevel (peek rest) < 11 →
      (exprTokens T e 0 ++ rest).length ≤ n →
        (∀ k, rest.length < k → postfixLoop (recAt n) k e rest = out) →
          parsePostfix (recAt n) (exprTokens T e 0 ++ rest) = out

section Bare

variable {e : Expr} {n m : ℕ} {rest : List TokenKind}
  {out : Except (ParseError ℕ) (Expr × List TokenKind)}

theorem Bare.nested (h : Bare T e) (hstop : StopsAt 1 rest)
    (hn : (exprTokens T e 0 ++ rest).length < n) :
    (recAt n).expr (exprTokens T e 0 ++ rest) = .ok (e, rest) := by
  obtain ⟨n, rfl⟩ := exists_eq_succ_of_ne_zero (ne_zero_of_lt hn)
  exact h.reads le_rfl (by decide) e.one_le_level hstop (fun _ => hstop) (Nat.lt_succ_iff.mp hn)

theorem Bare.operand (h : Bare T e) (hm : m ≤ 10)
    (hfit : precedence e < m ∨ 10 ≤ e.level ∧ e.isLambda = false)
    (hcont : contLevel (peek rest) < 11) (hn : (exprTokens T e m ++ rest).length ≤ n)
    (hout : ∀ k, rest.length < k → postfixLoop (recAt n) k e rest = out) :
    parsePostfix (recAt n) (exprTokens T e m ++ rest) = out := by
  by_cases hwrap : precedence e < m
  · have htokens : exprTokens T e m ++ rest = .lParen :: (exprTokens T e 0 ++ .rParen :: rest) := by
      rw [exprTokens_wrapped hm hwrap, cons_append, cons_append, append_assoc]
      rfl
    rw [htokens, length_cons] at hn
    have hread : (recAt n).expr (exprTokens T e 0 ++ .rParen :: rest) = .ok (e, .rParen :: rest) :=
      h.nested (stopsAt_cons (by decide) (by decide)) hn
    have hprimary : parsePrimary (recAt n) (.lParen :: (exprTokens T e 0 ++ .rParen :: rest)) =
        .ok (e, rest) := by
      rw [parsePrimary, hread, ok_bind]
      rfl
    have hne : ∀ name, e ≠ .ident name := by
      rintro name rfl
      exact absurd hm (not_le.mpr hwrap)
    rw [htokens, parsePostfix_of_primary hprimary (parseSugar_of_ne hne)]
    exact hout _ (lt_succ_self _)
  · obtain ⟨hlevel, hlambda⟩ := hfit.resolve_left hwrap
    rw [exprTokens_bare hm (not_lt.mp hwrap)] at hn ⊢
    exact h.post hlevel hlambda hcont hn hout

theorem Bare.reads_fit (h : Bare T e) (hm : m ≤ 10) (hℓ : 1 ≤ ℓ) (hle : ℓ ≤ 10)
    (hfit : Fits m ℓ e) (hstop : StopsAt ℓ rest)
    (hlambda : e.isLambda = true → m ≤ precedence e → StopsAt 1 rest)
    (hn : (exprTokens T e m ++ rest).length ≤ n) :
    levelParser (recAt n) ℓ (exprTokens T e m ++ rest) = .ok (e, rest) := by
  by_cases hwrap : precedence e < m
  · refine lift_all hℓ hle le_rfl ?_ ?_ hstop
    · rw [exprTokens_wrapped hm hwrap]
      exact (show 10 ≤ 11 by decide)
    · refine h.operand hm (.inl hwrap) ?_ hn fun k hk => postfixLoop_stop (hstop.mono hle) hk
      exact lt_of_lt_of_le hstop.1 (hle.trans (by decide))
  · have hbare := not_lt.mp hwrap
    rw [exprTokens_bare hm hbare] at hn ⊢
    exact h.reads hℓ hle (hfit.level hbare) hstop (fun hl => hlambda hl hbare) hn

theorem Bare.left (h : Bare T e) (hm : m ≤ 10) (hloop : ℓ ∈ loopLevels)
    (hfit : Fits m ℓ e) (hlambda : e.isLambda = true → precedence e < m)
    (hstop : StopsAt (ℓ + 1) rest) (hn : (exprTokens T e m ++ rest).length ≤ n)
    (hout : ∀ k, rest.length < k →
      chainLoop (levelOp ℓ) (levelParser (recAt n) (ℓ + 1)) k e rest = out) :
    levelParser (recAt n) ℓ (exprTokens T e m ++ rest) = out := by
  have hbounds : 1 ≤ ℓ ∧ ℓ + 1 ≤ 10 := by
    simp only [loopLevels, mem_cons, not_mem_nil, or_false] at hloop
    omega
  by_cases htight : Fits m (ℓ + 1) e
  · have hread := h.reads_fit hm (le_add_left 1 ℓ) hbounds.2 htight hstop
      (fun hl hbare => absurd (hlambda hl) (not_lt.mpr hbare)) hn
    rw [levelParser_loop hloop, leftChain, hread, ok_bind]
    exact hout _ (lt_succ_self _)
  -- the operand is of this very level, written without parentheses
  have hbare : m ≤ precedence e := not_lt.mp fun hw => htight (.inl hw)
  have hlevel : e.level = ℓ := by
    have hge := hfit.level hbare
    have hlt : ¬ ℓ + 1 ≤ e.level := fun hl => htight (.inr hl)
    omega
  subst hlevel
  rw [exprTokens_bare hm hbare] at hn ⊢
  exact h.chain hloop hstop hn hout

theorem bare_of_post (hp : Printable T e) (hlevel : 10 ≤ e.level)
    (hpost : ∀ {n : ℕ} {rest : List TokenKind}
      {out : Except (ParseError ℕ) (Expr × List TokenKind)}, contLevel (peek rest) < 11 →
        (exprTokens T e 0 ++ rest).length ≤ n →
          (∀ k, rest.length < k → postfixLoop (recAt n) k e rest = out) →
            parsePostfix (recAt n) (exprTokens T e 0 ++ rest) = out) : Bare T e where
  reads := by
    intro n ℓ rest hℓ hle _ hstop _ hn
    have hfit : Fits 0 10 e := .inr hlevel
    obtain ⟨t, ts, htokens, hstart⟩ := exists_start hp (zero_le 10) hfit (by decide)
    refine lift_all hℓ hle le_rfl ?_ ?_ hstop
    · rw [htokens]
      exact hstart
    · exact hpost (lt_of_lt_of_le hstop.1 (hle.trans (by decide))) hn fun k hk =>
        postfixLoop_stop (hstop.mono hle) hk
  chain := by
    intro n rest out hloop
    simp only [loopLevels, mem_cons, not_mem_nil, or_false] at hloop
    omega
  post := fun _ _ hcont hn hout => hpost hcont hn hout

theorem bare_of_primary (hp : Printable T e) (hlevel : 10 ≤ e.level) (hne : ∀ name, e ≠ .ident name)
    (hprimary : ∀ {n : ℕ} {rest : List TokenKind}, (exprTokens T e 0 ++ rest).length ≤ n →
      parsePrimary (recAt n) (exprTokens T e 0 ++ rest) = .ok (e, rest)) : Bare T e := by
  refine bare_of_post hp hlevel fun _ hn hout => ?_
  rw [parsePostfix_of_primary (hprimary hn) (parseSugar_of_ne hne)]
  exact hout _ (lt_succ_self _)

end Bare

end Residiuum.Sda
