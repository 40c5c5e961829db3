import Residiuum.Sda.Reparse

/-!
# Every form of expression is read back

One lemma for each form of expression of the grammar, from what holds of its operands, and then by
induction for all of them.

* **`bare_of_printable`**: printable expressions are read back.
* **`parseProgram_tokens`**: so are programs of them.
-/

namespace Residiuum.Sda

open DescentLib Expr List Nat

variable {T : CharTables} {rest : List TokenKind} {es : List (Text × Expr)} {e : Expr}
  {t : TokenKind}

/-! ## Operators -/

section Operators

variable {e l r : Expr} {m : ℕ}

theorem BinOpKind.two_le_precedence (op : BinOpKind) : 2 ≤ op.precedence := by cases op <;> decide

theorem no_bare_lambda (hm : 2 ≤ m) (h : e.isLambda = true) (hbare : m ≤ precedence e) : False := by
  cases e with
  | lambda =>
    have : m ≤ 1 := hbare
    omega
  | _ => cases h

theorem bare_loop {f : Expr → Expr → Expr} {ℓ m' : ℕ} (hp : Printable T (f l r))
    (htokens : exprTokens T (f l r) 0 = exprTokens T l m ++ t :: exprTokens T r m')
    (hlevel : (f l r).level = ℓ) (hloop : ℓ ∈ loopLevels)
    (hop : levelOp ℓ t = some f) (hm : m ≤ 10) (hm' : m' ≤ 10) (hl : Bare T l) (hr : Bare T r)
    (hfit : Fits m ℓ l) (hfit' : Fits m' (ℓ + 1) r)
    (hlambdal : l.isLambda = true → precedence l < m)
    (hlambdar : r.isLambda = true → precedence r < m') : Bare T (f l r) := by
  have hbounds : 1 ≤ ℓ ∧ ℓ ≤ 8 := by
    simp only [loopLevels, mem_cons, not_mem_nil, or_false] at hloop
    omega
  have hcont : contLevel t = ℓ := contLevel_of_levelOp hop
  have hlt : t ≠ .lt := by
    rintro rfl
    rw [← hcont] at hloop
    exact absurd hloop (by decide)
  have hchain : ∀ {n : ℕ} {rest : List TokenKind}
      {out : Except (ParseError ℕ) (Expr × List TokenKind)}, StopsAt (ℓ + 1) rest →
        (exprTokens T (f l r) 0 ++ rest).length ≤ n →
          (∀ k, rest.length < k → chainLoop (levelOp ℓ) (levelParser (recAt n) (ℓ + 1)) k (f l r)
            rest = out) → levelParser (recAt n) ℓ (exprTokens T (f l r) 0 ++ rest) = out := by
    intro n rest out hstop hn hout
    rw [htokens, append_assoc, cons_append] at hn ⊢
    refine hl.left hm hloop hfit hlambdal (stopsAt_cons (by omega) hlt) hn fun k hk => ?_
    obtain ⟨k, rfl⟩ := exists_eq_succ_of_ne_zero (ne_zero_of_lt hk)
    rw [length_append, length_cons] at hn
    have hread := hr.reads_fit hm' (le_add_left 1 ℓ) (by omega) hfit' hstop
      (fun hlam hbare => absurd (hlambdar hlam) (not_lt.mpr hbare))
      (show (exprTokens T r m' ++ rest).length ≤ n by omega)
    rw [chainLoop, show peek (t :: (exprTokens T r m' ++ rest)) = t from rfl, hop]
    dsimp only
    rw [tail_cons, hread, ok_bind]
    rw [length_cons, length_append] at hk
    exact hout k (by omega)
  refine ⟨fun {n ℓ' rest} hℓ hle hle' hstop _ hn => ?_, fun _ hstop hn hout => ?_,
    fun hten _ => ?_⟩
  · rw [hlevel] at hle'
    obtain ⟨t', ts, hts, hstart⟩ := exists_start hp (zero_le 10) (.inr hlevel.ge) (by omega)
    refine lift_all hℓ hle' (by omega) ?_ ?_ hstop
    · rw [hts]
      exact hstart
    · exact hchain (hstop.mono (by omega)) hn fun k hk => chainLoop_stop (hstop.mono hle') hk
  · subst hlevel
    exact hchain hstop hn hout
  · omega

theorem bare_cmp {op : BinOpKind} (hp : Printable T (.binOp op l r)) (hop : op.level = 5)
    (hl : Bare T l) (hr : Bare T r) (hpr : Printable T r) : Bare T (.binOp op l r) := by
  have hcmp : cmpOp op.token = some (.binOp op) := by
    cases op <;> first | rfl | exact absurd hop (by decide)
  have hright : rightPrec op = op.precedence := by
    cases op <;> first | rfl | exact absurd hop (by decide)
  have hprec := op.precedence_le
  have hfit : Fits op.precedence 6 l := by
    have := hp.here.1
    rwa [BinOpKind.leftLevel, if_pos hop] at this
  have hfit' : Fits op.precedence 6 r := by
    have := hp.here.2
    rwa [hright, hop] at this
  refine ⟨fun {n ℓ rest} hℓ hle hle' hstop _ hn => ?_, fun hloop => ?_, fun hten _ => ?_⟩
  · have hle5 : ℓ ≤ 5 := hop ▸ hle'
    have hfive : Fits 0 5 (binOp op l r) := .inr hop.ge
    obtain ⟨t', ts, hts, hstart⟩ := exists_start hp (zero_le 10) hfive (by decide)
    refine lift_all hℓ hle5 (by decide) (hts ▸ hstart) ?_ hstop
    rw [exprTokens, wrapTokens_zero, hright, append_assoc, cons_append] at hn ⊢
    rw [length_append, length_cons] at hn
    have hgt : peek rest ≠ .gt := fun hgt => by
      have := hstop.1
      rw [hgt] at this
      exact absurd (lt_of_lt_of_le this hle5) (by decide)
    have hstops : StopsAt 6 (op.token :: (exprTokens T r op.precedence ++ rest)) := by
      refine ⟨?_, ?_⟩
      · change contLevel op.token < 6
        rw [op.contLevel_token, hop]
        decide
      · have hsel := not_selectorAccess hpr (hprec.trans (by decide)) hfit' hgt
        cases op <;> first | rfl | exact hsel
    have hleft := hl.reads_fit (n := n) (hprec.trans (by decide)) (by decide) (by decide) hfit
      hstops (fun hlam hbare => (no_bare_lambda op.two_le_precedence hlam hbare).elim)
      (by rw [length_append, length_cons]; omega)
    have hread := hr.reads_fit (n := n) (hprec.trans (by decide)) (by decide) (by decide) hfit'
      (hstop.mono (hle5.trans (by decide)))
      (fun hlam hbare => (no_bare_lambda op.two_le_precedence hlam hbare).elim) (by omega)
    change parseCmp (recAt n) _ = _
    rw [parseCmp, show parseSetish (recAt n) _ = _ from hleft, ok_bind]
    dsimp only
    rw [show peek (op.token :: (exprTokens T r op.precedence ++ rest)) = op.token from rfl, hcmp]
    dsimp only
    rw [tail_cons, show parseSetish (recAt n) _ = _ from hread, ok_bind]
  · have hfive : (binOp op l r).level = 5 := hop
    rw [hfive] at hloop
    exact absurd hloop (by decide)
  · have hfive : (binOp op l r).level = 5 := hop
    omega

theorem bare_neg (hp : Printable T (.unOp .neg e)) (he : Bare T e) : Bare T (.unOp .neg e) := by
  refine ⟨fun {n ℓ rest} hℓ hle hle' hstop _ hn => ?_, fun hloop => ?_, fun hten _ => ?_⟩
  · have hle9 : ℓ ≤ 9 := hle'
    refine lift_all hℓ hle9 (by decide) ?_ ?_ hstop
    · rw [exprTokens, wrapTokens_zero]
      exact le_rfl
    rw [exprTokens, wrapTokens_zero, cons_append] at hn ⊢
    rw [length_cons] at hn
    have hread := he.reads_fit (n := n) (by decide) (by decide) (by decide) hp.here
      (hstop.mono hle9) (fun hlam hbare => (no_bare_lambda (by decide) hlam hbare).elim)
      (by omega)
    change parseUnary (recAt n) (.minus :: _) = _
    rw [parseUnary, show parseUnary (recAt n) _ = _ from hread, ok_bind]
  · exact absurd hloop (show ¬ 9 ∈ loopLevels by decide)
  · exact absurd hten (show ¬ 10 ≤ 9 by decide)

theorem bare_not (he : Bare T e) : Bare T (.unOp .not e) := by
  refine ⟨fun {n ℓ rest} hℓ hle hle' hstop _ hn => ?_, fun hloop => ?_, fun hten _ => ?_⟩
  · have hle4 : ℓ ≤ 4 := hle'
    refine lift_all hℓ hle4 (by decide) ?_ ?_ hstop
    · rw [exprTokens, wrapTokens_zero]
      exact le_rfl
    rw [exprTokens, wrapTokens_zero, cons_append] at hn ⊢
    rw [length_cons] at hn
    have hread := he.reads_fit (n := n) (by decide) (by decide) (by decide) (fits_not e)
      (hstop.mono hle4) (fun hlam hbare => (no_bare_lambda (by decide) hlam hbare).elim)
      (by omega)
    change parseNot (recAt n) (.not_ :: _) = _
    rw [parseNot, show parseNot (recAt n) _ = _ from hread, ok_bind]
  · exact absurd hloop (show ¬ 4 ∈ loopLevels by decide)
  · exact absurd hten (show ¬ 10 ≤ 4 by decide)

end Operators

/-! ## Lists of expressions -/

section Lists

variable {n N : ℕ} {close : TokenKind}

theorem stopsAt_of_contLevel (h : contLevel (peek rest) = 0) : StopsAt 1 rest := by
  refine ⟨by rw [h]; exact one_pos, ?_⟩
  cases rest with
  | nil => rfl
  | cons t ts => cases t <;> first | rfl | exact absurd h (show ¬ 5 = 0 by decide)

theorem stopsAt_of_peek (hclose : contLevel close = 0)
    (h : peek rest = .comma ∨ peek rest = close) : StopsAt 1 rest := by
  refine stopsAt_of_contLevel ?_
  rcases h with h | h
  · rw [h]
    rfl
  · rw [h, hclose]

theorem peek_ne_of_startLevel {ts : List TokenKind} (hclose : startLevel close = 0)
    (h : 1 ≤ startLevel t) : peek (t :: ts) ≠ close := by
  rintro rfl
  change startLevel t = 0 at hclose
  omega

theorem peek_exprTokens_ne (hp : Printable T e) (hclose : startLevel close = 0)
    (rest : List TokenKind) : peek (exprTokens T e 0 ++ rest) ≠ close := by
  have hfit : Fits 0 1 e := .inr e.one_le_level
  obtain ⟨t, ts, htokens, hstart⟩ := exists_start hp (zero_le 10) hfit (by decide)
  rw [htokens]
  exact peek_ne_of_startLevel hclose hstart

theorem readsItem_expr (he : Bare T e) (hp : Printable T e) (hN : N < n)
    (hcont : contLevel close = 0) (hstart : startLevel close = 0) :
    ReadsItem close (recAt n).expr N (e, exprTokens T e 0) :=
  ⟨fun _ hpeek hlen => he.nested (stopsAt_of_peek hcont hpeek) (lt_of_le_of_lt hlen hN),
    peek_exprTokens_ne hp hstart⟩

theorem delimited_exprs {es : List Expr} {trailing : Bool}
    (hes : ∀ e ∈ es, Bare T e ∧ Printable T e) (hcont : contLevel close = 0)
    (hstart : startLevel close = 0) (hcomma : close ≠ .comma)
    (hn : (joinTokens (itemTokens T es) ++ close :: rest).length < n) :
    delimited close trailing (recAt n).expr (joinTokens (itemTokens T es) ++ close :: rest) =
      .ok (es, rest) := by
  have htokens : itemTokens T es = (es.map fun e => (e, exprTokens T e 0)).map Prod.snd := by
    rw [itemTokens_eq, map_map]
    rfl
  have hitems : ∀ x ∈ es.map fun e => (e, exprTokens T e 0),
      ReadsItem close (recAt n).expr (n - 1) x := by
    intro x hx
    obtain ⟨e, he, rfl⟩ := mem_map.mp hx
    exact readsItem_expr (hes e he).1 (hes e he).2 (by omega) hcont hstart
  rw [htokens] at hn ⊢
  rw [delimited_tokens hcomma hitems (by omega), map_map]
  exact congrArg (fun l => Except.ok (l, rest)) (map_id es)

theorem delimited_entries {label : Text → TokenKind} {sep : TokenKind} {item : Parser (Text × Expr)}
    (hes : ∀ e ∈ es, Bare T e.2) (hlabel : ∀ e ∈ es, 1 ≤ startLevel (label e.1))
    (hitem : ∀ e ∈ es, ∀ more, StopsAt 1 more → (exprTokens T e.2 0 ++ more).length < n →
      (recAt n).expr (exprTokens T e.2 0 ++ more) = .ok (e.2, more) →
        item (label e.1 :: sep :: (exprTokens T e.2 0 ++ more)) = .ok (e, more))
    (hn : (joinTokens (es.map fun e => label e.1 :: sep :: exprTokens T e.2 0) ++
      .rBrace :: rest).length < n) :
    delimited .rBrace true item (joinTokens (es.map fun e => label e.1 :: sep ::
      exprTokens T e.2 0) ++ .rBrace :: rest) = .ok (es, rest) := by
  have htokens : (es.map fun e => label e.1 :: sep :: exprTokens T e.2 0) =
      (es.map fun e => (e, label e.1 :: sep :: exprTokens T e.2 0)).map Prod.snd := by
    rw [map_map]
    rfl
  have hitems : ∀ x ∈ es.map fun e => (e, label e.1 :: sep :: exprTokens T e.2 0),
      ReadsItem .rBrace item (n - 1) x := by
    intro x hx
    obtain ⟨e, he, rfl⟩ := mem_map.mp hx
    refine ⟨fun more hpeek hlen => ?_, fun more => peek_ne_of_startLevel rfl (hlabel e he)⟩
    have hstop := stopsAt_of_peek rfl hpeek
    rw [cons_append, cons_append, length_cons, length_cons] at hlen
    rw [cons_append, cons_append]
    have hlt : (exprTokens T e.2 0 ++ more).length < n := by omega
    exact hitem e he more hstop hlt ((hes e he).nested hstop hlt)
  rw [htokens] at hn ⊢
  rw [delimited_tokens (fun h => by cases h) hitems (by omega), map_map]
  exact congrArg (fun l => Except.ok (l, rest)) (map_id es)

variable {es : List (Text × Expr)} {rest : List TokenKind}

theorem delimited_mapEntries (hes : ∀ e ∈ es, Bare T e.2)
    (hn : (joinTokens (mapEntryTokens T es) ++ .rBrace :: rest).length < n) :
    delimited .rBrace true (parseMapEntry (recAt n))
      (joinTokens (mapEntryTokens T es) ++ .rBrace :: rest) = .ok (es, rest) := by
  rw [mapEntryTokens_eq] at hn ⊢
  refine delimited_entries hes (fun _ _ => le_of_ble_eq_true rfl) (fun e _ more _ _ hread => ?_)
    hn
  change (recAt n).expr _ >>= _ = _
  rw [tail_cons, hread]
  rfl

theorem delimited_fields (hes : ∀ e ∈ es, Bare T e.2)
    (hn : (joinTokens (fieldTokens T es) ++ .rBrace :: rest).length < n) :
    delimited .rBrace true (parseProdField (recAt n))
      (joinTokens (fieldTokens T es) ++ .rBrace :: rest) = .ok (es, rest) := by
  rw [fieldTokens_eq] at hn ⊢
  refine delimited_entries hes (fun _ _ => le_of_ble_eq_true rfl) (fun e _ more _ _ hread => ?_)
    hn
  change (recAt n).expr _ >>= _ = _
  rw [tail_cons, hread]
  rfl

theorem keyToken_eq {key : Text} (h : isIdentifier T key = true → IsName T key) :
    keyToken T key = .ident key ∨ keyToken T key = .str key := by
  unfold keyToken
  split_ifs with hid
  · exact .inl (h hid).kind
  · exact .inr rfl

theorem delimited_bagkvEntries (hes : ∀ e ∈ es, Bare T e.2)
    (hkeys : ∀ e ∈ es, isIdentifier T e.1 = true → IsName T e.1)
    (hn : (joinTokens (bagkvEntryTokens T es) ++ .rBrace :: rest).length < n) :
    delimited .rBrace true (parseBagkvEntry (recAt n))
      (joinTokens (bagkvEntryTokens T es) ++ .rBrace :: rest) = .ok (es, rest) := by
  rw [bagkvEntryTokens_eq] at hn ⊢
  refine delimited_entries hes (fun e he => ?_) (fun e he more _ _ hread => ?_) hn
  · rcases keyToken_eq (hkeys e he) with hkey | hkey
    · rw [hkey]
      exact le_of_ble_eq_true rfl
    · rw [hkey]
      exact le_of_ble_eq_true rfl
  · have hlabel : parseBagkvEntry (recAt n)
        (keyToken T e.1 :: .arrow :: (exprTokens T e.2 0 ++ more)) =
          ((recAt n).expr (exprTokens T e.2 0 ++ more) >>= fun x => .ok ((e.1, x.1), x.2)) := by
      rcases keyToken_eq (hkeys e he) with hkey | hkey
      · rw [hkey]
        rfl
      · rw [hkey]
        rfl
    rw [hlabel, hread]
    rfl

end Lists

/-! ## Names, calls and selectors -/

theorem bare_ident {name : Text} (hname : IsName T name) (hp : Printable T (.ident name)) :
    Bare T (.ident name) := by
  refine bare_of_post hp (show 10 ≤ 11 by decide) fun {n rest out} hcont hn hout => ?_
  have htokens : exprTokens T (.ident name) 0 ++ rest = .ident name :: rest := by
    rw [exprTokens, hname.nameTokens]
    rfl
  have hprimary : parsePrimary (recAt n) (.ident name :: rest) = .ok (.ident name, rest) := by
    refine if_neg fun harrow => ?_
    rw [harrow] at hcont
    exact absurd hcont (by decide)
  rw [htokens, parsePostfix_of_primary hprimary (parseSugar_ident hcont)]
  exact hout _ (lt_succ_self _)

section Calls

variable {e : Expr} {args : List Expr} {mode : SelectMode}

theorem delimited_args {n : ℕ} (hargs : ∀ a ∈ args, Bare T a ∧ Printable T a)
    (hn : (joinTokens (itemTokens T args) ++ .rParen :: rest).length < n) :
    delimited .rParen false (recAt n).expr (joinTokens (itemTokens T args) ++ .rParen :: rest) =
      .ok (args, rest) :=
  delimited_exprs hargs rfl rfl (fun h => by cases h) hn

theorem bare_call (hp : Printable T (.call e args)) (he : Bare T e)
    (hargs : ∀ a ∈ args, Bare T a ∧ Printable T a) : Bare T (.call e args) := by
  refine bare_of_post hp (show 10 ≤ 10 by decide) fun {n rest out} hcont hn hout => ?_
  rw [exprTokens, wrapTokens_zero, append_assoc, append_assoc, cons_append,
    singleton_append] at hn ⊢
  refine he.operand (by decide) (operand_fits e) (show 10 < 11 by decide) hn fun k hk => ?_
  obtain ⟨k, rfl⟩ := exists_eq_succ_of_ne_zero (ne_zero_of_lt hk)
  rw [length_cons] at hk
  rw [length_append, length_cons] at hn
  have hread := delimited_args hargs (show (joinTokens (itemTokens T args) ++
    .rParen :: rest).length < n by omega)
  rw [postfixLoop, postfixStep]
  dsimp only
  rw [hread, ok_bind, ok_bind]
  refine hout k ?_
  rw [length_append, length_cons] at hk
  omega

theorem bare_sugar (hp : Printable T (.call e args)) (he : isSugarName e = true)
    (hargs : ∀ a ∈ args, Bare T a ∧ Printable T a) : Bare T (.call e args) := by
  obtain ⟨name, rfl⟩ : ∃ name, e = .ident name := by
    cases e with
    | ident name => exact ⟨name, rfl⟩
    | _ => cases he
  have hname : name = "one?".toList ∨ name = "one!".toList := by
    simpa [isSugarName] using he
  refine bare_of_post hp (show 10 ≤ 10 by decide) fun {n rest out} hcont hn hout => ?_
  rw [exprTokens, wrapTokens_zero, append_assoc, append_assoc, cons_append,
    singleton_append, length_append, length_cons] at hn
  rw [exprTokens, wrapTokens_zero, append_assoc, append_assoc, cons_append,
    singleton_append]
  have hread := delimited_args hargs (show (joinTokens (itemTokens T args) ++
    .rParen :: rest).length < n by omega)
  rw [exprTokens]
  rcases hname with rfl | rfl
  all_goals
    first
      | change parsePostfix (recAt n) (.ident "one".toList :: .qMark :: .lParen :: _) = _
      | change parsePostfix (recAt n) (.ident "one".toList :: .bang :: .lParen :: _) = _
    refine (parsePostfix_of_primary rfl ?_).trans (hout _ (lt_succ_self _))
    change delimited .rParen false (recAt n).expr _ >>= _ = _
    rw [tail_cons, tail_cons, hread]
    rfl

theorem selectMode_tokens
    (h : contLevel (peek rest) < 11) : selectMode (mode.tokens ++ rest) = (mode, rest) := by
  cases mode with
  | plain =>
    cases rest with
    | nil => rfl
    | cons t ts => cases t <;> first | rfl | exact absurd h (show ¬ 11 < 11 by decide)
  | optional => rfl
  | required => rfl

theorem bare_select {selector : Text} (hp : Printable T (.select e selector mode)) (he : Bare T e) :
    Bare T (.select e selector mode) := by
  refine bare_of_post hp (show 10 ≤ 10 by decide) fun {n rest out} hcont hn hout => ?_
  rw [exprTokens, wrapTokens_zero, append_assoc] at hn ⊢
  refine he.operand (by decide) (operand_fits e) (show 5 < 11 by decide) hn fun k hk => ?_
  obtain ⟨k, rfl⟩ := exists_eq_succ_of_ne_zero (ne_zero_of_lt hk)
  have hread : parseSelector .gt e (.str selector :: .gt :: (mode.tokens ++ rest)) =
      .ok (.select e selector mode, rest) := by
    change Except.ok (select e selector (selectMode (mode.tokens ++ rest)).1,
      (selectMode (mode.tokens ++ rest)).2) = _
    rw [selectMode_tokens hcont]
  rw [postfixLoop]
  change (parseSelector .gt e (.str selector :: .gt :: (mode.tokens ++ rest)) >>= _) = _
  rw [hread, ok_bind]
  refine hout k ?_
  simp only [cons_append, length_cons, length_append] at hk
  omega

end Calls

/-! ## Functions, records and comprehensions -/

theorem one_le_precedence (e : Expr) : 1 ≤ precedence e := by
  cases e with
  | binOp op => exact le_trans (by decide) op.two_le_precedence
  | unOp op => exact (show 1 ≤ 8 by decide)
  | pipe | lambda => exact le_rfl
  | call | select => exact (show 1 ≤ 9 by decide)
  | _ => exact (show 1 ≤ 10 by decide)

theorem bare_lambda {param : Text} {body : Expr} (hbody : Bare T body) :
    Bare T (.lambda param body) := by
  have htokens : exprTokens T (.lambda param body) 0 =
      .ident param :: .fatArrow :: exprTokens T body 0 := by
    rw [exprTokens, wrapTokens_zero, exprTokens_bare (by decide) (one_le_precedence body)]
  refine ⟨fun {n ℓ rest} hℓ hle _ hstop hlambda hn => ?_, fun hloop => ?_, fun _ hfalse => ?_⟩
  · have hstop1 := hlambda rfl
    refine lift_all hℓ hle le_rfl ?_ ?_ hstop
    · rw [htokens]
      exact (show 10 ≤ 11 by decide)
    rw [htokens, cons_append, cons_append] at hn ⊢
    rw [length_cons, length_cons] at hn
    have hread := hbody.nested hstop1 (show (exprTokens T body 0 ++ rest).length < n by omega)
    have hprimary : parsePrimary (recAt n) (.ident param :: .fatArrow ::
        (exprTokens T body 0 ++ rest)) = .ok (.lambda param body, rest) := by
      change (recAt n).expr _ >>= _ = _
      rw [tail_cons, hread]
      rfl
    change parsePostfix (recAt n) _ = _
    rw [parsePostfix_of_primary hprimary rfl]
    exact postfixLoop_stop (hstop1.mono (by decide)) (lt_succ_self _)
  · exact absurd hloop (show ¬ 11 ∈ loopLevels by decide)
  · cases hfalse

theorem bare_enrich {fields : List (Text × Expr)} (hp : Printable T (.enrich fields))
    (hfields : ∀ f ∈ fields, Bare T f.2) : Bare T (.enrich fields) := by
  refine bare_of_post hp (show 10 ≤ 11 by decide) fun {n rest out} hcont hn hout => ?_
  have htokens : exprTokens T (.enrich fields) 0 ++ rest = .ident "enrich".toList :: .lBrace ::
      (joinTokens (fieldTokens T fields) ++ .rBrace :: rest) := by
    rw [exprTokens]
    simp
  rw [htokens] at hn ⊢
  rw [length_cons, length_cons] at hn
  have hread := delimited_fields hfields (show (joinTokens (fieldTokens T fields) ++
    .rBrace :: rest).length < n by omega)
  have hsugar : parseSugar (recAt n) (.ident "enrich".toList) (.lBrace ::
      (joinTokens (fieldTokens T fields) ++ .rBrace :: rest)) = .ok (.enrich fields, rest) := by
    change delimited .rBrace true (parseProdField (recAt n)) _ >>= _ = _
    rw [tail_cons, hread]
    rfl
  rw [parsePostfix_of_primary rfl hsugar]
  exact hout _ (lt_succ_self _)

variable {pred : Option Expr} {keyword : TokenKind}

section Comprehension

variable {n : ℕ} {binding : Text} {collection : Expr} {rest : List TokenKind}
  {yieldExpr : Option Expr}

theorem generator_tokens (hbinding : IsName T binding) (hc : Bare T collection)
    (hlevel : 7 ≤ collection.level) (hstop : StopsAt 1 rest)
    (hn : (.ident binding :: .in_ :: (exprTokens T collection 0 ++ rest)).length < n) :
    (recAt n).expr (.ident binding :: .in_ :: (exprTokens T collection 0 ++ rest)) =
      .ok (.binOp .in_ (.ident binding) collection, rest) := by
  obtain ⟨n, rfl⟩ := exists_eq_succ_of_ne_zero (ne_zero_of_lt hn)
  have hident : Bare T (.ident binding) :=
    bare_ident hbinding ⟨trivial, fun o ho => by cases ho⟩
  have htokens : TokenKind.ident binding :: .in_ :: (exprTokens T collection 0 ++ rest) =
      exprTokens T (.ident binding) 0 ++ .in_ :: (exprTokens T collection 0 ++ rest) := by
    rw [exprTokens, hbinding.nameTokens]
    rfl
  have hsix : (6 : ℕ) ∈ loopLevels := by decide
  have hfit : Fits 0 6 (.ident binding) := .inr (show 6 ≤ 11 by decide)
  rw [htokens] at hn ⊢
  refine lift_all (k := 6) le_rfl (by decide) (by decide) ?_ ?_ hstop
  · rw [← htokens]
    exact (show 6 ≤ 11 by decide)
  refine hident.left (by decide) hsix hfit (fun h => by cases h)
    (stopsAt_cons (show 6 < 7 by decide) (by decide)) (Nat.lt_succ_iff.mp hn) fun k hk => ?_
  obtain ⟨k, rfl⟩ := exists_eq_succ_of_ne_zero (ne_zero_of_lt hk)
  rw [length_append, length_cons] at hn
  rw [length_cons, length_append] at hk
  have hread := hc.reads (n := n) (by decide) (by decide) hlevel (hstop.mono (by decide))
    (fun _ => hstop) (by omega)
  have hop : levelOp 6 (peek (.in_ :: (exprTokens T collection 0 ++ rest))) =
      some (.binOp .in_) := rfl
  rw [chainLoop, hop]
  dsimp only
  rw [tail_cons, hread, ok_bind]
  exact chainLoop_stop (hstop.mono (by decide)) (show rest.length < k by omega)

theorem closeComprehension_tokens
    (hpred : ∀ p ∈ pred, Bare T p) (hn : (predTokens T pred ++ .rBrace :: rest).length < n) :
    closeComprehension (recAt n) yieldExpr (binding, collection)
      (predTokens T pred ++ .rBrace :: rest) =
        .ok (.comprehension yieldExpr binding collection pred, rest) := by
  cases pred with
  | none => rfl
  | some p =>
    have htokens : predTokens T (some p) ++ .rBrace :: rest =
        .bar :: (exprTokens T p 0 ++ .rBrace :: rest) := rfl
    rw [htokens, length_cons] at hn
    have hstop : StopsAt 1 (.rBrace :: rest) := stopsAt_of_contLevel rfl
    have hread := (hpred p rfl).nested hstop
      (show (exprTokens T p 0 ++ .rBrace :: rest).length < n by omega)
    have hparse : parsePred (recAt n) (.bar :: (exprTokens T p 0 ++ .rBrace :: rest)) =
        .ok (some p, .rBrace :: rest) := by
      rw [parsePred, hread]
      rfl
    rw [htokens, closeComprehension, hparse]
    rfl

theorem stopsAt_pred : StopsAt 1 (predTokens T pred ++ .rBrace :: rest) := by
  cases pred with
  | none | some p => exact stopsAt_of_contLevel rfl

theorem bare_comprehension (hp : Printable T (.comprehension yieldExpr binding collection pred))
    (hbinding : IsName T binding) (hyield : ∀ y ∈ yieldExpr, Bare T y) (hc : Bare T collection)
    (hpred : ∀ p ∈ pred, Bare T p) : Bare T (.comprehension yieldExpr binding collection pred) := by
  refine bare_of_primary hp (show 10 ≤ 11 by decide) (fun _ h => by cases h) fun {n rest} hn => ?_
  have hlevel : 7 ≤ collection.level := hp.here
  set more := predTokens T pred ++ .rBrace :: rest with hmore
  have htokens : exprTokens T (.comprehension yieldExpr binding collection pred) 0 ++ rest =
      .lBrace :: (yieldTokens T yieldExpr ++ .ident binding :: .in_ ::
        (exprTokens T collection 0 ++ more)) := by
    rw [exprTokens, hmore]
    simp
  rw [htokens] at hn ⊢
  rw [length_cons, length_append] at hn
  have hgenerator := generator_tokens hbinding hc hlevel stopsAt_pred
    (show (.ident binding :: .in_ :: (exprTokens T collection 0 ++ more)).length < n by omega)
  simp only [length_cons, length_append] at hn
  have hclose : ∀ y, closeComprehension (recAt n) y (binding, collection) more =
      .ok (.comprehension y binding collection pred, rest) := fun y =>
    closeComprehension_tokens hpred (by rw [← hmore]; omega)
  cases yieldExpr with
  | none =>
    change (recAt n).expr (.ident binding :: .in_ :: (exprTokens T collection 0 ++ more)) >>= _ = _
    rw [hgenerator, ok_bind]
    exact hclose none
  | some y =>
    have hyields : yieldTokens T (some y) ++ .ident binding :: .in_ ::
        (exprTokens T collection 0 ++ more) = .yield_ :: (exprTokens T y 0 ++ .bar ::
          .ident binding :: .in_ :: (exprTokens T collection 0 ++ more)) := by
      rw [yieldTokens]
      simp
    have hlen := congrArg List.length hyields
    simp only [length_cons, length_append] at hlen
    have hstop :
        StopsAt 1 (.bar :: .ident binding :: .in_ :: (exprTokens T collection 0 ++ more)) :=
      stopsAt_of_contLevel rfl
    have hread := (hyield y rfl).nested hstop (show (exprTokens T y 0 ++ .bar :: .ident binding ::
      .in_ :: (exprTokens T collection 0 ++ more)).length < n by
        simp only [length_cons, length_append]
        omega)
    rw [hyields]
    change (recAt n).expr (exprTokens T y 0 ++ .bar :: .ident binding :: .in_ ::
      (exprTokens T collection 0 ++ more)) >>= _ = _
    rw [hread, ok_bind]
    have hgen : parseGeneratorExpr (recAt n) (.ident binding :: .in_ ::
        (exprTokens T collection 0 ++ more)) = .ok ((binding, collection), more) := by
      rw [parseGeneratorExpr, hgenerator]
      rfl
    change parseGeneratorExpr (recAt n) _ >>= _ = _
    rw [tail_cons, hgen, ok_bind]
    exact hclose (some y)

end Comprehension

/-! ## Literals and collections -/

section Collections

variable {e : Expr} {n : ℕ} {rest : List TokenKind} {opening closing : TokenKind}
  {tokens : List TokenKind}

theorem parseCollection_tokens {α : Type} {item : Parser α} {f : List α → Expr} {xs : List α}
    (h : delimited closing true item (tokens ++ closing :: rest) = .ok (xs, rest)) :
    parseCollection opening closing item f (opening :: (tokens ++ closing :: rest)) =
      .ok (f xs, rest) := by
  have hopen : expect opening (opening :: (tokens ++ closing :: rest)) =
      .ok (tokens ++ closing :: rest) := if_pos rfl
  rw [parseCollection, hopen, ok_bind, h]
  rfl

/-- **Collections** of expressions or of entries. -/
theorem bare_collection {α : Type} {f : List α → Expr} {xs : List α} {item : Rec → Parser α}
    (hp : Printable T (f xs))
    (htokens : exprTokens T (f xs) 0 = keyword :: opening :: tokens ++ [closing])
    (hlevel : (f xs).level = 11) (hne : ∀ name, f xs ≠ .ident name)
    (hkeyword : ∀ r ts, parsePrimary r (keyword :: ts) =
      parseCollection opening closing (item r) f ts)
    (hread : ∀ {n : ℕ} {rest : List TokenKind}, (tokens ++ closing :: rest).length < n →
      delimited closing true (item (recAt n)) (tokens ++ closing :: rest) = .ok (xs, rest)) :
    Bare T (f xs) := by
  refine bare_of_primary hp (by omega) hne fun {n rest} hn => ?_
  have heq : exprTokens T (f xs) 0 ++ rest =
      keyword :: opening :: (tokens ++ closing :: rest) := by
    rw [htokens]
    simp
  rw [heq, length_cons, length_cons] at hn
  rw [heq, hkeyword]
  exact parseCollection_tokens (hread (by omega))

theorem bare_wrapped {f : Expr → Expr} (hp : Printable T (f e))
    (htokens : exprTokens T (f e) 0 = keyword :: .lParen :: exprTokens T e 0 ++ [.rParen])
    (hlevel : (f e).level = 11) (hne : ∀ name, f e ≠ .ident name)
    (hkeyword : ∀ r ts, parsePrimary r (keyword :: ts) = parseWrapped r f ts) (he : Bare T e) :
    Bare T (f e) := by
  refine bare_of_primary hp (by omega) hne fun {n rest} hn => ?_
  have heq : exprTokens T (f e) 0 ++ rest =
      keyword :: .lParen :: (exprTokens T e 0 ++ .rParen :: rest) := by
    rw [htokens]
    simp
  rw [heq, length_cons, length_cons] at hn
  have hstop : StopsAt 1 (.rParen :: rest) := stopsAt_of_contLevel rfl
  have hread := he.nested hstop (show (exprTokens T e 0 ++ .rParen :: rest).length < n by omega)
  rw [heq, hkeyword]
  change (recAt n).expr _ >>= _ = _
  rw [tail_cons, hread]
  rfl

theorem bare_fail {code msg : Expr} (hp : Printable T (.fail_ code msg)) (hcode : Bare T code)
    (hmsg : Bare T msg) : Bare T (.fail_ code msg) := by
  refine bare_of_primary hp (show 10 ≤ 11 by decide) (fun _ h => by cases h) fun {n rest} hn => ?_
  have heq : exprTokens T (.fail_ code msg) 0 ++ rest = .fail_ :: .lParen ::
      (exprTokens T code 0 ++ .comma :: (exprTokens T msg 0 ++ .rParen :: rest)) := by
    rw [exprTokens]
    simp
  rw [heq] at hn ⊢
  simp only [length_cons, length_append] at hn
  have hcomma : StopsAt 1 (.comma :: (exprTokens T msg 0 ++ .rParen :: rest)) :=
    stopsAt_of_contLevel rfl
  have hclose : StopsAt 1 (.rParen :: rest) := stopsAt_of_contLevel rfl
  have hreadcode := hcode.nested (n := n) hcomma (by
    simp only [length_cons, length_append]
    omega)
  have hreadmsg := hmsg.nested (n := n) hclose (by
    simp only [length_cons, length_append]
    omega)
  change (recAt n).expr _ >>= _ = _
  rw [tail_cons, hreadcode, ok_bind]
  change (recAt n).expr _ >>= _ = _
  rw [tail_cons, hreadmsg]
  rfl

theorem bare_bytes {bytes : List UInt8} (hp : Printable T (.bytes bytes)) :
    Bare T (.bytes bytes) := by
  refine bare_of_primary hp (show 10 ≤ 11 by decide) (fun _ h => by cases h) fun {n rest} _ => ?_
  have hread : parseBytesLiteral (encodeBase16 bytes) = .ok bytes :=
    decodeBase16_encodeBase16 bytes
  rw [exprTokens]
  simp [parsePrimary, expect, peek, ok_bind, expectStr, hread]

end Collections

theorem bare_of_printable (hn : Named T e) (hp : Printable T e) : Bare T e := by
  induction e using ind with
  | step e ih =>
    have hops : ∀ o ∈ e.operands, Bare T o ∧ Printable T o := fun o ho =>
      ⟨ih o (mem_parts_of_operands ho) (hn.operand ho) (hp.operand ho), hp.operand ho⟩
    have hvalues : ∀ es : List (Text × Expr), (∀ o ∈ es.map Prod.snd, o ∈ e.operands) →
        ∀ f ∈ es, Bare T f.2 := fun es hes f hf => (hops f.2 (hes f.2 (mem_map_of_mem hf))).1
    cases e with
    | null | num | str | none_ =>
      exact bare_of_primary hp (show 10 ≤ 11 by decide) (fun _ h => by cases h) fun _ => rfl
    | bool b =>
      refine bare_of_primary hp (show 10 ≤ 11 by decide) (fun _ h => by cases h) fun _ => ?_
      cases b <;> rfl
    | bytes => exact bare_bytes hp
    | ident name => exact bare_ident hn.here hp
    | placeholder =>
      refine bare_of_post hp (show 10 ≤ 11 by decide) fun {n rest out} hcont _ hout => ?_
      have hprimary : parsePrimary (recAt n) (.placeholder :: rest) = .ok (.placeholder, rest) := by
        refine if_neg fun harrow => ?_
        rw [harrow] at hcont
        exact absurd hcont (by decide)
      rw [exprTokens, singleton_append, parsePostfix_of_primary hprimary rfl]
      exact hout _ (lt_succ_self _)
    | seq items | set items | bag items =>
      exact bare_collection hp rfl rfl (fun _ h => by cases h) (fun _ _ => rfl) fun hlen =>
        delimited_exprs hops rfl rfl (fun h => by cases h) hlen
    | map es =>
      exact bare_collection hp rfl rfl (fun _ h => by cases h) (fun _ _ => rfl) fun hlen =>
        delimited_mapEntries (hvalues es fun _ ho => ho) hlen
    | prod es =>
      exact bare_collection hp rfl rfl (fun _ h => by cases h) (fun _ _ => rfl) fun hlen =>
        delimited_fields (hvalues es fun _ ho => ho) hlen
    | bagKV es =>
      exact bare_collection hp rfl rfl (fun _ h => by cases h) (fun _ _ => rfl) fun hlen =>
        delimited_bagkvEntries (hvalues es fun _ ho => ho) hp.here hlen
    | some_ e | ok_ e =>
      exact bare_wrapped hp rfl rfl (fun _ h => by cases h) (fun _ _ => rfl)
        (hops e mem_cons_self).1
    | fail_ code msg =>
      exact bare_fail hp (hops code mem_cons_self).1
        (hops msg (mem_cons_of_mem code mem_cons_self)).1
    | binOp op l r =>
      obtain ⟨hl, -⟩ := hops l mem_cons_self
      obtain ⟨hr, hpr⟩ := hops r (mem_cons_of_mem l mem_cons_self)
      by_cases hcmp : op.level = 5
      · exact bare_cmp hp hcmp hl hr hpr
      have hloop : op.level ∈ loopLevels := by
        cases op <;> first | decide | exact absurd rfl hcmp
      have hop : levelOp op.level op.token = some (.binOp op) := by
        cases op <;> first | rfl | exact absurd rfl hcmp
      have hfit : Fits op.precedence op.level l := by
        have := hp.here.1
        rwa [BinOpKind.leftLevel, if_neg hcmp] at this
      have hright : 2 ≤ rightPrec op := by cases op <;> decide
      refine bare_loop hp ?_ rfl hloop hop (op.precedence_le.trans (by decide))
        ((rightPrec_le op).trans (by decide)) hl hr hfit hp.here.2 (fun hlam => ?_) fun hlam => ?_
      · rw [exprTokens, wrapTokens_zero]
      · exact not_le.mp fun hbare => no_bare_lambda op.two_le_precedence hlam hbare
      · exact not_le.mp fun hbare => no_bare_lambda hright hlam hbare
    | unOp op e =>
      obtain ⟨he, -⟩ := hops e mem_cons_self
      cases op with
      | neg => exact bare_neg hp he
      | not => exact bare_not he
    | pipe l r =>
      obtain ⟨hl, -⟩ := hops l mem_cons_self
      obtain ⟨hr, -⟩ := hops r (mem_cons_of_mem l mem_cons_self)
      have htokens :
          exprTokens T (.pipe l r) 0 = exprTokens T l 1 ++ .pipe :: exprTokens T r 2 := by
        rw [exprTokens, wrapTokens_zero]
      have hloop : (1 : ℕ) ∈ loopLevels := by decide
      refine bare_loop hp htokens rfl hloop rfl (by decide) (by decide) hl hr
        (.inr l.one_le_level) (fits_pipe_right r) (fun hlam => ?_) fun hlam => ?_
      · rw [hp.here] at hlam
        cases hlam
      · exact not_le.mp fun hbare => no_bare_lambda le_rfl hlam hbare
    | lambda param body => exact bare_lambda (hops body mem_cons_self).1
    | call callee args =>
      by_cases hsugar : isSugarName callee = true
      · refine bare_sugar hp hsugar fun a ha => hops a ?_
        rw [operands, if_pos hsugar]
        exact ha
      · have hmem : ∀ a ∈ callee :: args, a ∈ (call callee args).operands := by
          intro a ha
          rw [operands, if_neg hsugar]
          exact ha
        exact bare_call hp (hops callee (hmem callee mem_cons_self)).1 fun a ha =>
          hops a (hmem a (mem_cons_of_mem callee ha))
    | select target selector mode => exact bare_select hp (hops target mem_cons_self).1
    | enrich fields => exact bare_enrich hp (hvalues fields fun _ ho => ho)
    | comprehension y b c q =>
      refine bare_comprehension hp hn.here (fun e he => (hops e ?_).1)
        (hops c (mem_append_right _ mem_cons_self)).1 fun e he => (hops e ?_).1
      · exact mem_append_left _ (Option.mem_toList.mpr he)
      · exact mem_append_right _ (mem_cons_of_mem c (Option.mem_toList.mpr he))

section Statements

variable {n : ℕ} {rest : List TokenKind}

theorem sourceKind_format (kind : SourceKind) : sourceKind (formatSourceKind kind) = some kind := by
  cases kind <;> rfl

theorem parseTypeParams_tokens (typeParams : List Text) :
    parseTypeParams (typeParamTokens typeParams ++ .semi :: rest) =
      .ok (typeParams, .semi :: rest) := by
  cases typeParams with
  | nil => rfl
  | cons p ps =>
    have htokens : typeParamTokens (p :: ps) ++ .semi :: rest = .lBrack ::
        (joinTokens (((p :: ps).map fun name => (name, [TokenKind.ident name])).map Prod.snd) ++
          .rBrack :: .semi :: rest) := by
      rw [map_map]
      simp only [typeParamTokens, isEmpty_cons, Bool.false_eq_true, if_false,
        cons_append, append_assoc, nil_append]
      rfl
    have hitems : ∀ x ∈ (p :: ps).map fun name => (name, [TokenKind.ident name]),
        ReadsItem .rBrack expectIdent (joinTokens (((p :: ps).map fun name =>
          (name, [TokenKind.ident name])).map Prod.snd) ++ .rBrack :: .semi :: rest).length x := by
      intro x hx
      obtain ⟨name, -, rfl⟩ := mem_map.mp hx
      exact ⟨fun _ _ _ => rfl, fun _ h => by cases h⟩
    rw [htokens]
    change delimited .rBrack true expectIdent _ = _
    rw [delimited_tokens (fun h => by cases h) hitems le_rfl, map_map]
    exact congrArg (fun l => Except.ok (l, TokenKind.semi :: rest)) (map_id (p :: ps))

theorem parseStmt_tokens {stmt : Stmt} (hnamed : NamedStmt T stmt) (hp : PrintableStmt T stmt)
    (hn : (stmtTokens T stmt ++ rest).length < n) :
    parseStmt (recAt n) (stmtTokens T stmt ++ rest) = .ok (stmt, rest) := by
  have hstop : StopsAt 1 (.semi :: rest) := stopsAt_of_contLevel rfl
  cases stmt with
  | let_ name e =>
    have htokens : stmtTokens T (.let_ name e) ++ rest = .let_ :: .ident name :: .eq ::
        (exprTokens T e 0 ++ .semi :: rest) := by
      simp [stmtTokens]
    rw [htokens] at hn ⊢
    simp only [length_cons] at hn
    have hread := (bare_of_printable hnamed.2 hp).nested hstop
      (show (exprTokens T e 0 ++ .semi :: rest).length < n by omega)
    change (recAt n).expr _ >>= _ = _
    rw [tail_cons, hread]
    rfl
  | expr e =>
    have htokens : stmtTokens T (.expr e) ++ rest = exprTokens T e 0 ++ .semi :: rest := by
      simp [stmtTokens]
    have hfit : Fits 0 1 e := .inr e.one_le_level
    obtain ⟨t, ts, hts, hstart⟩ := exists_start hp.1 (zero_le 10) hfit (by decide)
    rw [htokens] at hn ⊢
    have hread := (bare_of_printable hnamed hp.1).nested hstop hn
    have hlet : peek (exprTokens T e 0 ++ .semi :: rest) ≠ .let_ := by
      rw [hts]
      rintro rfl
      exact absurd hstart (by decide)
    have hsource : peek (exprTokens T e 0 ++ .semi :: rest) ≠ .ident "source".toList := by
      rw [hts]
      rintro rfl
      exact hp.2 (by rw [hts]; rfl)
    rw [parseStmt, if_neg hlet, if_neg hsource, hread]
    rfl
  | source name kind typeParams =>
    have htokens : stmtTokens T (.source name kind typeParams) ++ rest =
        .ident "source".toList :: .ident name :: .colon :: .ident (formatSourceKind kind) ::
          (typeParamTokens typeParams ++ .semi :: rest) := by
      simp [stmtTokens, SourceKind.token]
    rw [htokens]
    have hread : parseSource (.ident name :: .colon :: .ident (formatSourceKind kind) ::
        (typeParamTokens typeParams ++ .semi :: rest)) =
      .ok (.source name kind typeParams, rest) := by
      rw [parseSource, expectIdent, ok_bind]
      dsimp only
      rw [show expect .colon (.colon :: .ident (formatSourceKind kind) ::
        (typeParamTokens typeParams ++ .semi :: rest)) = .ok _ from if_pos rfl, ok_bind,
        tail_cons, expectIdent, ok_bind]
      rw [sourceKind_format]
      rw [parseTypeParams_tokens]
      rfl
    exact hread

end Statements

theorem parseProgram_tokens {program : Program} (hnamed : ∀ stmt ∈ program.stmts, NamedStmt T stmt)
    (hp : ∀ stmt ∈ program.stmts, PrintableStmt T stmt) :
    parseProgram (program.stmts.flatMap (stmtTokens T)) = .ok program := by
  have hne : ∀ stmt, stmtTokens T stmt ≠ [] := by
    intro stmt
    cases stmt with
    | let_ | source => exact cons_ne_nil _ _
    | expr e => exact append_ne_nil_of_right_ne_nil _ (cons_ne_nil _ _)
  have hloop : ∀ (stmts acc : List Stmt) (n fuel : ℕ), (∀ stmt ∈ stmts, NamedStmt T stmt) →
      (∀ stmt ∈ stmts, PrintableStmt T stmt) → (stmts.flatMap (stmtTokens T)).length < n →
        (stmts.flatMap (stmtTokens T)).length ≤ fuel →
          programLoop (recAt n) fuel acc (stmts.flatMap (stmtTokens T)) = .ok ⟨acc ++ stmts⟩ := by
    intro stmts
    induction stmts with
    | nil =>
      intro acc n fuel _ _ _ _
      rw [append_nil, flatMap_nil]
      cases fuel <;> rfl
    | cons stmt stmts ih =>
      intro acc n fuel hnamed hp hn hfuel
      obtain ⟨hstmt, hnamed⟩ := forall_mem_cons.mp hnamed
      obtain ⟨hpstmt, hp⟩ := forall_mem_cons.mp hp
      rw [flatMap_cons] at hn hfuel ⊢
      have hread := parseStmt_tokens hstmt hpstmt hn
      obtain ⟨t, ts, hts⟩ := exists_cons_of_ne_nil (hne stmt)
      rw [hts, cons_append] at hread ⊢
      rw [hts, cons_append, length_cons, length_append] at hn hfuel
      obtain ⟨fuel, rfl⟩ := exists_eq_succ_of_ne_zero (show fuel ≠ 0 by omega)
      change parseStmt (recAt n) (t :: (ts ++ stmts.flatMap (stmtTokens T))) >>= _ = _
      rw [hread, ok_bind]
      dsimp only
      rw [ih (acc ++ [stmt]) n fuel hnamed hp (by omega) (by omega), append_assoc,
        singleton_append]
  rw [parseProgram, hloop program.stmts [] _ _ hnamed hp (lt_succ_self _) le_rfl]
  rfl

end Residiuum.Sda
