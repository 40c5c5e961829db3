import Residiuum.Lib.Descent
import Residiuum.Lib.Parse
import Residiuum.Sda.Printed

/-!
# What the lexer and the parser return

* **`lex_tokens`**: the names and numbers of the tokens of a text.
* **`parseProgram_sound`**: the bound on nesting is never reached, and the names and numbers of a
  program are those of its tokens.
-/

namespace Residiuum.Sda

open DescentLib List Nat

variable (T : CharTables)

/-- What the lexer guarantees of a token. -/
def TokenOk : TokenKind → Prop
  | .ident name => IsName T name
  | .num q => IsLiteral q
  | _ => True

/-- What the lexer guarantees of its tokens. -/
def Tokens (ts : List TokenKind) : Prop := ∀ t ∈ ts, TokenOk T t

/-- The outcome is an error of the source, or a result of `P` with fewer than `n` tokens left. -/
def Reads {α : Type} (P : α → Prop) (n : ℕ) : Except (ParseError ℕ) (α × List TokenKind) → Prop :=
  Post (· ≠ .depth) fun r => P r.1 ∧ r.2.length < n ∧ Tokens T r.2

/-- The parser reads a `P` from fewer than `k` tokens. -/
def Sound {α : Type} (k : ℕ) (P : α → Prop) (p : Parser α) : Prop :=
  ∀ ts, ts.length < k → Tokens T ts → Reads T P ts.length (p ts)

variable {T} {α β : Type} {P : α → Prop} {Q : β → Prop} {k n : ℕ} {ts : List TokenKind}

theorem Tokens.tail (h : Tokens T ts) : Tokens T ts.tail := fun t ht => h t (mem_of_mem_tail ht)

variable {t close : TokenKind} {m : ℕ} {c : Char} {cs : Text} {e : Expr}
  {op : TokenKind → Option (Expr → Expr → Expr)} {item : Parser α} {generator : Text × Expr}
  {next : Parser Expr} {r : Rec} {kind : TokenKind} {trailing : Bool} {q : ExactNum} {rest : Text}

theorem Tokens.of_cons (h : Tokens T (t :: ts)) : Tokens T ts := h.tail

section Reads

theorem Reads.ok {a : α} (ha : P a) (hlen : ts.length < n) (hts : Tokens T ts) :
    Reads T P n (.ok (a, ts)) := Post.ok ⟨ha, hlen, hts⟩

theorem Reads.error {e : ParseError ℕ} (h : e ≠ .depth) : Reads T P n (.error e) := Post.error h

variable {x : Except (ParseError ℕ) (α × List TokenKind)}

theorem Reads.mono (h : Reads T P n x) (hn : n ≤ m) : Reads T P m x :=
  Post.mono h fun _ ⟨ha, hlen, hts⟩ => ⟨ha, hlen.trans_le hn, hts⟩

theorem Reads.bind (h : Reads T P n x)
    {f : α × List TokenKind → Except (ParseError ℕ) (β × List TokenKind)}
    (hf : ∀ a rest, P a → rest.length < n → Tokens T rest → Reads T Q m (f (a, rest))) :
    Reads T Q m (x >>= f) :=
  Post.bind h fun r ⟨ha, hlen, hts⟩ => hf r.1 r.2 ha hlen hts

theorem peek_eq (ht : t ≠ .eof) (h : peek ts = t) : ts = t :: ts.tail := by
  cases ts with
  | nil => exact absurd h.symm ht
  | cons t' ts => exact congrArg (· :: ts) h

theorem Reads.expect {f : List TokenKind → Except (ParseError ℕ)
      (β × List TokenKind)} (ht : t ≠ .eof) (hts : Tokens T ts)
    (hf : ∀ rest, rest.length < ts.length → Tokens T rest → Reads T Q m (f rest)) :
    Reads T Q m (Sda.expect t ts >>= f) := by
  rw [Sda.expect]
  split_ifs with hpeek
  · refine hf ts.tail ?_ hts.tail
    rw [peek_eq ht hpeek, tail_cons, length_cons]
    exact lt_succ_self _
  · exact Reads.error nofun

end Reads

/-! ## Labels -/

theorem expectIdent_sound : Sound T k (IsName T) expectIdent := by
  intro ts _ hts
  unfold expectIdent
  split
  · exact .ok (hts _ mem_cons_self) (lt_succ_self _) hts.of_cons
  · exact .error nofun

theorem expectLabel_sound {error : List TokenKind → ParseError ℕ}
    (herror : ∀ ts, error ts ≠ .depth) : Sound T k (fun _ => True) (expectLabel error) := by
  intro ts _ hts
  unfold expectLabel
  split
  · exact .ok trivial (lt_succ_self _) hts.of_cons
  · exact .ok trivial (lt_succ_self _) hts.of_cons
  · exact .error (herror _)

theorem expectStr_sound {error : List TokenKind → ParseError ℕ} (herror : ∀ ts, error ts ≠ .depth) :
    Sound T k (fun _ => True) (expectStr error) := by
  intro ts _ hts
  unfold expectStr
  split
  · exact .ok trivial (lt_succ_self _) hts.of_cons
  · exact .error (herror _)

theorem commaLoop_sound (hitem : Sound T k P item) :
    ∀ (fuel : ℕ) (items : List α) (ts : List TokenKind), ts.length < fuel → ts.length < k →
      Tokens T ts → (∀ x ∈ items, P x) →
        Reads T (fun items => ∀ x ∈ items, P x) (ts.length + 1)
          (commaLoop close trailing item fuel items ts) := by
  intro fuel
  induction fuel with
  | zero => exact fun _ _ h => absurd h (not_lt_zero _)
  | succ fuel ih =>
    intro items ts hfuel hk hts hitems
    rw [commaLoop]
    split_ifs with hcomma hclose
    · exact .ok hitems (by rw [length_tail]; omega) hts.tail
    · have hlen : ts.tail.length < ts.length := by
        rw [peek_eq (fun h => by cases h) hcomma, tail_cons, length_cons]
        exact lt_succ_self _
      refine (hitem ts.tail (by omega) hts.tail).bind fun x rest hx hrest htokens => ?_
      refine (ih (items ++ [x]) rest (by omega) (by omega) htokens ?_).mono (by omega)
      exact forall_mem_append.mpr ⟨hitems, forall_mem_singleton.mpr hx⟩
    · exact .ok hitems (lt_succ_self _) hts

theorem delimited_sound (hclose : close ≠ .eof) (hitem : Sound T k P item) :
    Sound T k (fun items => ∀ x ∈ items, P x) (delimited close trailing item) := by
  intro ts hk hts
  have hend : ∀ (items : List α) (rest : List TokenKind), (∀ x ∈ items, P x) →
      rest.length < ts.length + 1 → Tokens T rest →
        Reads T (fun items => ∀ x ∈ items, P x) ts.length
          (expect close rest >>= fun rest => .ok (items, rest)) := by
    intro items rest hall hrest htokens
    exact .expect hclose htokens fun rest' hrest' htokens' => .ok hall (by omega) htokens'
  rw [delimited]
  split_ifs
  · exact hend [] ts (forall_mem_nil _) (lt_succ_self _) hts
  · refine (hitem ts hk hts).bind fun x rest hx hrest htokens => ?_
    refine (commaLoop_sound hitem _ [x] rest (lt_succ_self _) (by omega) htokens
      (forall_mem_singleton.mpr hx)).bind fun items rest' hall hrest' htokens' => ?_
    exact hend items rest' hall (by omega) htokens'

theorem chainLoop_sound
    (hop : ∀ t f, op t = some f → t ≠ .eof ∧ ∀ l r, Named T l → Named T r → Named T (f l r))
    (hnext : Sound T k (Named T) next) :
    ∀ (fuel : ℕ) (lhs : Expr) (ts : List TokenKind), ts.length < fuel → ts.length < k →
      Tokens T ts → Named T lhs → Reads T (Named T) (ts.length + 1)
        (chainLoop op next fuel lhs ts) := by
  intro fuel
  induction fuel with
  | zero => exact fun _ _ h => absurd h (not_lt_zero _)
  | succ fuel ih =>
    intro lhs ts hfuel hk hts hlhs
    rw [chainLoop]
    split
    · rename_i f hf
      obtain ⟨hne, hnamed⟩ := hop _ _ hf
      have hlen : ts.tail.length < ts.length := by
        rw [peek_eq hne rfl, tail_cons, length_cons]
        exact lt_succ_self _
      refine (hnext ts.tail (by omega) hts.tail).bind fun rhs rest hrhs hrest htokens => ?_
      exact (ih _ rest (by omega) (by omega) htokens (hnamed _ _ hlhs hrhs)).mono (by omega)
    · exact .ok hlhs (lt_succ_self _) hts

theorem leftChain_sound
    (hop : ∀ t f, op t = some f → t ≠ .eof ∧ ∀ l r, Named T l → Named T r → Named T (f l r))
    (hnext : Sound T k (Named T) next) : Sound T k (Named T) (leftChain op next) := by
  intro ts hk hts
  rw [leftChain]
  refine (hnext ts hk hts).bind fun lhs rest hlhs hrest htokens => ?_
  exact (chainLoop_sound hop hnext _ lhs rest (lt_succ_self _) (by omega) htokens hlhs).mono
    (by omega)

/-! ## Nested expressions -/

theorem named_of_parts (hnode : NamedNode T e) (hparts : ∀ p ∈ e.parts, Named T p) : Named T e :=
  .intro hnode fun o ho => hparts o (Expr.mem_parts_of_operands ho)

theorem named_leaf (hnode : NamedNode T e) (hparts : e.parts = []) : Named T e :=
  named_of_parts hnode fun p hp => by
    rw [hparts] at hp
    cases hp

theorem named_one {e o : Expr} (hnode : NamedNode T e) (hparts : e.parts = [o]) (ho : Named T o) :
    Named T e :=
  named_of_parts hnode (by rw [hparts]; exact forall_mem_singleton.mpr ho)

theorem named_pair {e l r : Expr} (hnode : NamedNode T e) (hparts : e.parts = [l, r])
    (hl : Named T l) (hright : Named T r) : Named T e :=
  named_of_parts hnode (by
    rw [hparts]
    exact forall_mem_cons.mpr ⟨hl, forall_mem_singleton.mpr hright⟩)

theorem named_values {es : List (Text × Expr)} (hnode : NamedNode T e)
    (hparts : e.parts = es.map Prod.snd) (hes : ∀ f ∈ es, Named T f.2) : Named T e :=
  named_of_parts hnode fun p hp => by
    rw [hparts] at hp
    obtain ⟨f, hf, rfl⟩ := mem_map.mp hp
    exact hes f hf

theorem named_generator (hnamed : Named T e) (h : decomposeGeneratorExpr e = some generator) :
    IsName T generator.1 ∧ Named T generator.2 := by
  unfold decomposeGeneratorExpr at h
  split at h
  · cases h
    exact ⟨(hnamed.operand mem_cons_self).here,
      hnamed.operand (mem_cons_of_mem _ mem_cons_self)⟩
  · cases h

/-- The nested parsers read named expressions from fewer than `k` tokens. -/
structure Rec.Sound (T : CharTables) (k : ℕ) (r : Rec) : Prop where
  expr : Sda.Sound T k (Named T) r.expr
  setish : Sda.Sound T k (Named T) r.setish

section Levels

variable {r : Rec} (hr : r.Sound T k)

include hr

theorem parseMapEntry_sound : Sound T k (fun e => Named T e.2) (parseMapEntry r) := by
  intro ts hk hts
  rw [parseMapEntry]
  refine (expectStr_sound (fun _ h => by cases h) ts hk hts).bind fun key rest _ hrest htokens => ?_
  refine .expect nofun htokens fun rest₁ hrest₁ htokens₁ => ?_
  refine (hr.expr rest₁ (by omega) htokens₁).bind fun value rest₂ hvalue hrest₂ htokens₂ => ?_
  exact .ok hvalue (by omega) htokens₂

theorem parseBagkvEntry_sound : Sound T k (fun e => Named T e.2) (parseBagkvEntry r) := by
  intro ts hk hts
  rw [parseBagkvEntry]
  refine (expectLabel_sound (fun _ h => by cases h) ts hk hts).bind
    fun key rest _ hrest htokens => ?_
  refine .expect nofun htokens fun rest₁ hrest₁ htokens₁ => ?_
  refine (hr.expr rest₁ (by omega) htokens₁).bind fun value rest₂ hvalue hrest₂ htokens₂ => ?_
  exact .ok hvalue (by omega) htokens₂

theorem parseProdField_sound :
    Sound T k (fun e => IsName T e.1 ∧ Named T e.2) (parseProdField r) := by
  intro ts hk hts
  rw [parseProdField]
  refine (expectIdent_sound ts hk hts).bind fun name rest hname hrest htokens => ?_
  refine .expect nofun htokens fun rest₁ hrest₁ htokens₁ => ?_
  refine (hr.expr rest₁ (by omega) htokens₁).bind fun value rest₂ hvalue hrest₂ htokens₂ => ?_
  exact .ok ⟨hname, hvalue⟩ (by omega) htokens₂

theorem parsePred_sound (hk : ts.length < k) (hts : Tokens T ts) :
    Reads T (fun pred => ∀ e ∈ pred, Named T e) (ts.length + 1) (parsePred r ts) := by
  unfold parsePred
  split
  · rename_i ts
    rw [length_cons] at hk ⊢
    refine (hr.expr ts (by omega) hts.of_cons).bind fun e rest he hrest htokens => ?_
    refine .ok (fun e' he' => ?_) (by omega) htokens
    cases he'
    exact he
  · exact .ok (fun e he => by cases he) (lt_succ_self _) hts

theorem closeComprehension_sound {yieldExpr : Option Expr} (hyield : ∀ e ∈ yieldExpr, Named T e)
    (hgenerator : IsName T generator.1 ∧ Named T generator.2) :
    Sound T k (Named T) (closeComprehension r yieldExpr generator) := by
  intro ts hk hts
  rw [closeComprehension]
  refine (parsePred_sound hr hk hts).bind fun pred rest hpred hrest htokens => ?_
  refine .expect nofun htokens fun rest₁ hrest₁ htokens₁ => ?_
  refine .ok (named_of_parts hgenerator.1 fun p hp => ?_) (by omega) htokens₁
  rcases mem_append.mp hp with hp | hp
  · exact hyield p (Option.mem_toList.mp hp)
  · rcases mem_cons.mp hp with rfl | hp
    · exact hgenerator.2
    · exact hpred p (Option.mem_toList.mp hp)

theorem parseYielding_sound {yieldExpr : Expr} (hyield : Named T yieldExpr) :
    Sound T k (Named T) (parseYielding r yieldExpr) := by
  intro ts hk hts
  rw [parseYielding]
  refine .expect nofun hts fun rest hrest htokens => ?_
  rw [parseGeneratorExpr, bind_assoc]
  refine (hr.expr rest (by omega) htokens).bind fun e rest₁ he hrest₁ htokens₁ => ?_
  dsimp only
  cases hgenerator : decomposeGeneratorExpr e with
  | none => exact .error nofun
  | some generator =>
    have hsome : ∀ e' ∈ some yieldExpr, Named T e' := fun e' he' => by
      cases he'
      exact hyield
    exact (closeComprehension_sound hr hsome (named_generator he hgenerator) rest₁ (by omega)
      htokens₁).mono (by omega)

theorem parseComprehension_sound : Sound T k (Named T) (parseComprehension r) := by
  intro ts hk hts
  unfold parseComprehension
  split
  · rename_i ts
    rw [length_cons] at hk ⊢
    refine (hr.expr ts (by omega) hts.of_cons).bind fun e rest he hrest htokens => ?_
    exact (parseYielding_sound hr he rest (by omega) htokens).mono (by omega)
  refine (hr.expr _ hk hts).bind fun e rest he hrest htokens => ?_
  dsimp only
  cases hgenerator : decomposeGeneratorExpr e with
  | none =>
    split_ifs
    · exact .error nofun
    · exact (parseYielding_sound hr he rest (by omega) htokens).mono (by omega)
  | some generator =>
    exact (closeComprehension_sound hr (fun e he => by cases he) (named_generator he hgenerator)
      rest (by omega) htokens).mono (by omega)

theorem parseWrapped_sound {f : Expr → Expr} (hf : ∀ e, Named T e → Named T (f e)) :
    Sound T k (Named T) (parseWrapped r f) := by
  intro ts hk hts
  rw [parseWrapped]
  refine .expect nofun hts fun rest hrest htokens => ?_
  refine (hr.expr rest (by omega) htokens).bind fun e rest₁ he hrest₁ htokens₁ => ?_
  refine .expect nofun htokens₁ fun rest₂ hrest₂ htokens₂ => ?_
  exact .ok (hf e he) (by omega) htokens₂

omit hr in
theorem parseCollection_sound {opening closing : TokenKind} {f : List α → Expr}
    (hopening : opening ≠ .eof) (hclosing : closing ≠ .eof) (hitem : Sound T k P item)
    (hf : ∀ items, (∀ x ∈ items, P x) → Named T (f items)) :
    Sound T k (Named T) (parseCollection opening closing item f) := by
  intro ts hk hts
  rw [parseCollection]
  refine .expect hopening hts fun rest hrest htokens => ?_
  refine (delimited_sound hclosing hitem rest (by omega) htokens).bind
    fun items rest₁ hitems hrest₁ htokens₁ => ?_
  exact .ok (hf items hitems) (by omega) htokens₁

omit hr in
theorem detectStaticSelectorError_ne {error : ParseError ℕ}
    (h : detectStaticSelectorError ts = some error) : error ≠ .depth := by
  unfold detectStaticSelectorError at h
  split at h
  · cases h
  · split_ifs at h <;> rintro rfl <;> cases h

theorem parsePrimary_sound : Sound T (k + 1) (Named T) (parsePrimary r) := by
  intro ts hk hts
  have hlen : ∀ {t : TokenKind} {ts : List TokenKind}, ts.length < (t :: ts).length :=
    lt_succ_self _
  have hnested : ∀ {P : Expr → Prop} {p : Parser Expr} {t : TokenKind} {ts : List TokenKind},
      Sound T k P p → (t :: ts).length < k + 1 → Tokens T (t :: ts) →
        Reads T P (t :: ts).length (p ts) := fun hp hk hts =>
    (hp _ (lt_of_succ_lt_succ hk) hts.of_cons).mono (le_succ _)
  unfold parsePrimary
  split
  all_goals try first
    | exact .ok (named_leaf trivial rfl) hlen hts.of_cons
    | exact hnested (parseCollection_sound nofun nofun hr.expr
        fun _ h => named_of_parts trivial h) hk hts
    | exact hnested (parseWrapped_sound hr fun _ he => named_one trivial rfl he) hk hts
  · exact .ok (named_leaf (hts _ mem_cons_self) rfl) hlen hts.of_cons
  · rename_i ts
    rw [length_cons] at hk ⊢
    refine .expect nofun hts.of_cons fun rest hrest htokens => ?_
    refine (expectStr_sound (fun _ h => by cases h) rest hrest htokens).bind
      fun literal rest₁ _ hrest₁ htokens₁ => ?_
    refine .expect nofun htokens₁ fun rest₂ hrest₂ htokens₂ => ?_
    split
    · exact .ok (named_leaf trivial rfl) (by omega) htokens₂
    · exact .error nofun
  · split_ifs
    · exact .error nofun
    · exact .ok (named_leaf trivial rfl) hlen hts.of_cons
  · rename_i name ts
    have hname : IsName T name := hts _ mem_cons_self
    rw [length_cons] at hk ⊢
    split_ifs with hpeek
    · have htail : ts.tail.length ≤ ts.length := by
        rw [length_tail]
        omega
      have hnonempty : ts ≠ [] := by
        rintro rfl
        cases hpeek
      have := length_pos_iff.mpr hnonempty
      refine (hr.expr ts.tail (by rw [length_tail]; omega) hts.of_cons.tail).bind
        fun body rest hbody hrest htokens => ?_
      exact .ok (named_one hname rfl hbody) (by omega) htokens
    · exact .ok (named_leaf hname rfl) (lt_succ_self _) hts.of_cons
  · rename_i ts
    rw [length_cons] at hk ⊢
    refine (hr.expr ts (by omega) hts.of_cons).bind fun e rest he hrest htokens => ?_
    refine .expect nofun htokens fun rest₁ hrest₁ htokens₁ => ?_
    exact .ok he (by omega) htokens₁
  · exact hnested (parseCollection_sound nofun nofun
      (parseMapEntry_sound hr) fun _ h => named_values trivial rfl h) hk hts
  · exact hnested (parseCollection_sound nofun nofun
      (parseProdField_sound hr) fun _ h => named_values (fun f hf => (h f hf).1) rfl
        fun f hf => (h f hf).2) hk hts
  · exact hnested (parseCollection_sound nofun nofun
      (parseBagkvEntry_sound hr) fun _ h => named_values trivial rfl h) hk hts
  · rename_i ts
    rw [length_cons] at hk ⊢
    refine .expect nofun hts.of_cons fun rest hrest htokens => ?_
    refine (hr.expr rest (by omega) htokens).bind fun code rest₁ hcode hrest₁ htokens₁ => ?_
    refine .expect nofun htokens₁ fun rest₂ hrest₂ htokens₂ => ?_
    refine (hr.expr rest₂ (by omega) htokens₂).bind fun msg rest₃ hmsg hrest₃ htokens₃ => ?_
    refine .expect nofun htokens₃ fun rest₄ hrest₄ htokens₄ => ?_
    exact .ok (named_pair trivial rfl hcode hmsg) (by omega) htokens₄
  · split
    · rename_i error herror
      exact .error (detectStaticSelectorError_ne herror)
    · exact hnested (parseComprehension_sound hr) hk hts
  · exact .error nofun

theorem parseSugar_sound (he : Named T e) (hk : ts.length < k) (hts : Tokens T ts) :
    Reads T (Named T) (ts.length + 1) (parseSugar r e ts) := by
  have htail : ts.tail.length ≤ ts.length := by
    rw [length_tail]
    omega
  have htail₂ : ts.tail.tail.length ≤ ts.length := by
    rw [length_tail]
    omega
  have hsugar : isSugarName (.ident (if peek ts = .qMark then "one?".toList
      else "one!".toList)) = true := by
    split_ifs <;> rfl
  unfold parseSugar
  split
  · split
    · refine (delimited_sound (fun h => by cases h) hr.expr ts.tail.tail (by omega)
        hts.tail.tail).bind fun args rest hargs hrest htokens => ?_
      refine .ok (Expr.Every.intro trivial ?_) (by omega) htokens
      rw [Expr.operands, if_pos hsugar]
      exact hargs
    split
    · refine (delimited_sound (fun h => by cases h) (parseProdField_sound hr) ts.tail (by omega)
        hts.tail).bind fun fields rest hfields hrest htokens => ?_
      exact .ok (named_values (fun f hf => (hfields f hf).1) rfl fun f hf => (hfields f hf).2)
        (by omega) htokens
    · split
      · exact (parseComprehension_sound hr ts.tail (by omega) hts.tail).mono (by omega)
      · exact .ok he (lt_succ_self _) hts
  · exact .ok he (lt_succ_self _) hts

omit hr in
theorem parseSelector_sound (hclose : close ≠ .eof)
    (he : Named T e) : Sound T k (Named T) (parseSelector close e) := by
  intro ts hk hts
  rw [parseSelector]
  refine (expectLabel_sound (fun _ h => by cases h) ts hk hts).bind
    fun selector rest _ hrest htokens => ?_
  refine .expect hclose htokens fun rest₁ hrest₁ htokens₁ => ?_
  have hmode : (selectMode rest₁).2.length ≤ rest₁.length ∧ Tokens T (selectMode rest₁).2 := by
    unfold selectMode
    split
    · exact ⟨le_succ _, htokens₁.of_cons⟩
    · exact ⟨le_succ _, htokens₁.of_cons⟩
    · exact ⟨le_rfl, htokens₁⟩
  exact .ok (named_one trivial rfl he) (hmode.1.trans_lt (by omega)) hmode.2

theorem parseKeyed_sound (he : Named T e) : Sound T k (Named T) (parseKeyed r e) := by
  intro ts hk hts
  rw [parseKeyed]
  refine (hr.setish ts hk hts).bind fun kR rest hkR hrest htokens => ?_
  refine .expect nofun htokens fun rest₁ hrest₁ htokens₁ => ?_
  refine (hr.setish rest₁ (by omega) htokens₁).bind fun kL rest₂ hkL hrest₂ htokens₂ => ?_
  refine .expect nofun htokens₂ fun rest₃ hrest₃ htokens₃ => ?_
  have hbinding : IsName T "r".toList :=
    isName_letters (by decide) rfl rfl (by decide)
  exact .ok (named_pair hbinding rfl he (named_pair trivial rfl hkR hkL)) (by omega) htokens₃

theorem postfixStep_sound (he : Named T e) (hk : ts.length < k + 1) (hts : Tokens T ts)
    {result : Except (ParseError ℕ) (Expr × List TokenKind)}
    (h : postfixStep r e ts = some result) : Reads T (Named T) ts.length result := by
  unfold postfixStep at h
  split at h
  · rename_i ts
    split_ifs at h
    cases h
    exact (parseSelector_sound (fun h => by cases h) he ts (lt_of_succ_lt_succ hk)
      hts.of_cons).mono (le_succ _)
  · rename_i ts
    cases h
    exact (parseSelector_sound (fun h => by cases h) he ts (lt_of_succ_lt_succ hk)
      hts.of_cons).mono (le_succ _)
  · rename_i ts
    cases h
    rw [length_cons] at hk ⊢
    refine (delimited_sound (fun h => by cases h) hr.expr ts (by omega) hts.of_cons).bind
      fun args rest hargs hrest htokens => ?_
    refine .ok (named_of_parts trivial (forall_mem_cons.mpr ⟨he, hargs⟩)) (by omega) htokens
  · rename_i ts
    cases h
    exact (parseKeyed_sound hr he ts (lt_of_succ_lt_succ hk) hts.of_cons).mono (le_succ _)
  · cases h

theorem postfixLoop_sound :
    ∀ (fuel : ℕ) (e : Expr) (ts : List TokenKind), ts.length < fuel → ts.length < k + 1 →
      Tokens T ts → Named T e → Reads T (Named T) (ts.length + 1) (postfixLoop r fuel e ts) := by
  intro fuel
  induction fuel with
  | zero => exact fun _ _ h => absurd h (not_lt_zero _)
  | succ fuel ih =>
    intro e ts hfuel hk hts he
    rw [postfixLoop]
    split
    · rename_i result hstep
      refine (postfixStep_sound hr he hk hts hstep).bind fun e' rest he' hrest htokens => ?_
      exact (ih e' rest (by omega) (by omega) htokens he').mono (by omega)
    · exact .ok he (lt_succ_self _) hts

theorem parsePostfix_sound : Sound T (k + 1) (Named T) (parsePostfix r) := by
  intro ts hk hts
  rw [parsePostfix]
  refine (parsePrimary_sound hr ts hk hts).bind fun e rest he hrest htokens => ?_
  refine (parseSugar_sound hr he (by omega) htokens).bind fun e' rest' he' hrest' htokens' => ?_
  exact (postfixLoop_sound hr _ e' rest' (lt_succ_self _) (by omega) htokens' he').mono
    (by omega)

theorem parseUnary_sound : Sound T (k + 1) (Named T) (parseUnary r) := by
  intro ts
  induction ts with
  | nil => exact parsePostfix_sound hr []
  | cons t ts ih =>
    intro hk hts
    unfold parseUnary
    split
    · rename_i ts heq
      cases heq
      rw [length_cons] at hk ⊢
      refine (ih (by omega) hts.of_cons).bind fun e rest he hrest htokens => ?_
      exact .ok (named_one trivial rfl he) (by omega) htokens
    · exact parsePostfix_sound hr _ hk hts

theorem parseMul_sound : Sound T (k + 1) (Named T) (parseMul r) := by
  refine leftChain_sound (fun t f h => ?_) (parseUnary_sound hr)
  unfold mulOp at h
  split at h <;> cases h <;>
    exact ⟨nofun, fun _ _ hl hright => named_pair trivial rfl hl hright⟩

theorem parseAdd_sound : Sound T (k + 1) (Named T) (parseAdd r) := by
  refine leftChain_sound (fun t f h => ?_) (parseMul_sound hr)
  unfold addOp at h
  split at h <;> cases h <;>
    exact ⟨nofun, fun _ _ hl hright => named_pair trivial rfl hl hright⟩

theorem parseSetish_sound : Sound T (k + 1) (Named T) (parseSetish r) := by
  refine leftChain_sound (fun t f h => ?_) (parseAdd_sound hr)
  unfold setOp at h
  split at h <;> cases h <;>
    exact ⟨nofun, fun _ _ hl hright => named_pair trivial rfl hl hright⟩

theorem parseCmp_sound : Sound T (k + 1) (Named T) (parseCmp r) := by
  intro ts hk hts
  rw [parseCmp]
  refine (parseSetish_sound hr ts hk hts).bind fun lhs rest hlhs hrest htokens => ?_
  dsimp only
  cases hop : cmpOp (peek rest) with
  | none => exact .ok hlhs hrest htokens
  | some f =>
    have hnamed : ∀ rhs, Named T rhs → Named T (f lhs rhs) := by
      intro rhs hrhs
      unfold cmpOp at hop
      split at hop <;> cases hop <;> exact named_pair trivial rfl hlhs hrhs
    have htail : rest.tail.length ≤ rest.length := by
      rw [length_tail]
      omega
    refine (parseSetish_sound hr rest.tail (by omega) htokens.tail).bind
      fun rhs rest' hrhs hrest' htokens' => ?_
    exact .ok (hnamed rhs hrhs) (hrest'.trans (by omega)) htokens'

theorem parseNot_sound : Sound T (k + 1) (Named T) (parseNot r) := by
  intro ts
  induction ts with
  | nil => exact parseCmp_sound hr []
  | cons t ts ih =>
    intro hk hts
    unfold parseNot
    split
    · rename_i ts heq
      cases heq
      rw [length_cons] at hk ⊢
      refine (ih (by omega) hts.of_cons).bind fun e rest he hrest htokens => ?_
      exact .ok (named_one trivial rfl he) (by omega) htokens
    · exact parseCmp_sound hr _ hk hts

theorem parsePipe_sound : Sound T (k + 1) (Named T) (parsePipe r) := by
  have hand : Sound T (k + 1) (Named T) (parseAnd r) := by
    refine leftChain_sound (fun t f h => ?_) (parseNot_sound hr)
    unfold andOp at h
    split at h <;> cases h
    exact ⟨nofun, fun _ _ hl hright => named_pair trivial rfl hl hright⟩
  have hor : Sound T (k + 1) (Named T) (parseOr r) := by
    refine leftChain_sound (fun t f h => ?_) hand
    unfold orOp at h
    split at h <;> cases h
    exact ⟨nofun, fun _ _ hl hright => named_pair trivial rfl hl hright⟩
  refine leftChain_sound (fun t f h => ?_) hor
  unfold pipeOp at h
  split at h <;> cases h
  exact ⟨nofun, fun _ _ hl hright => named_pair trivial rfl hl hright⟩

end Levels

theorem recAt_sound (k : ℕ) : (recAt k).Sound T k := by
  induction k with
  | zero => exact ⟨fun _ h => absurd h (not_lt_zero _), fun _ h => absurd h (not_lt_zero _)⟩
  | succ k ih => exact ⟨parsePipe_sound ih, parseSetish_sound ih⟩

theorem parseSource_sound : Sound T k (NamedStmt T) parseSource := by
  intro ts hk hts
  rw [parseSource]
  refine (expectIdent_sound ts hk hts).bind fun name rest hname hrest htokens => ?_
  refine .expect nofun htokens fun rest₁ hrest₁ htokens₁ => ?_
  refine (expectIdent_sound rest₁ (hrest₁.trans hrest) htokens₁).bind
    fun kindName rest₂ _ hrest₂ htokens₂ => ?_
  have hparams : Reads T (fun ps => ∀ p ∈ ps, IsName T p) (rest₂.length + 1)
      (parseTypeParams rest₂) := by
    unfold parseTypeParams
    split
    · rename_i rest₂
      exact (delimited_sound (fun h => by cases h) expectIdent_sound rest₂ (lt_succ_self _)
        htokens₂.of_cons).mono (by rw [length_cons]; omega)
    · exact .ok (forall_mem_nil _) (lt_succ_self _) htokens₂
  dsimp only
  cases sourceKind kindName with
  | none => exact .error nofun
  | some kind =>
    refine hparams.bind fun params rest₃ hparams hrest₃ htokens₃ => ?_
    refine .expect nofun htokens₃ fun rest₄ hrest₄ htokens₄ => ?_
    exact .ok ⟨hname, hparams⟩ (hrest₄.trans (hrest₃.trans_le (by omega))) htokens₄

theorem parseLet_sound (hr : r.Sound T k) : Sound T k (NamedStmt T) (parseLet r) := by
  intro ts hk hts
  rw [parseLet]
  split_ifs
  · exact .error nofun
  · refine (expectIdent_sound ts hk hts).bind fun name rest hname hrest htokens => ?_
    refine .expect nofun htokens fun rest₁ hrest₁ htokens₁ => ?_
    refine (hr.expr rest₁ (by omega) htokens₁).bind fun e rest₂ he hrest₂ htokens₂ => ?_
    refine .expect nofun htokens₂ fun rest₃ hrest₃ htokens₃ => ?_
    exact .ok ⟨hname, he⟩ (by omega) htokens₃

theorem parseStmt_sound (hr : r.Sound T k) : Sound T k (NamedStmt T) (parseStmt r) := by
  intro ts hk hts
  have htail : ts.tail.length ≤ ts.length := by
    rw [length_tail]
    omega
  rw [parseStmt]
  split_ifs
  · exact (parseLet_sound hr ts.tail (by omega) hts.tail).mono htail
  · exact (parseSource_sound ts.tail (by omega : _ < k) hts.tail).mono htail
  · refine (hr.expr ts hk hts).bind fun e rest he hrest htokens => ?_
    refine .expect nofun htokens fun rest₁ hrest₁ htokens₁ => ?_
    exact .ok he (by omega) htokens₁

theorem programLoop_sound (hr : r.Sound T k) :
    ∀ (fuel : ℕ) (stmts : List Stmt) (ts : List TokenKind), ts.length ≤ fuel → ts.length < k →
      Tokens T ts → (∀ stmt ∈ stmts, NamedStmt T stmt) →
        Post (· ≠ .depth) (fun program => ∀ stmt ∈ program.stmts, NamedStmt T stmt)
          (programLoop r fuel stmts ts) := by
  intro fuel
  induction fuel with
  | zero =>
    intro stmts ts hfuel _ _ hstmts
    obtain rfl := length_eq_zero_iff.mp (le_zero.mp hfuel)
    exact .ok hstmts
  | succ fuel ih =>
    intro stmts ts hfuel hk hts hstmts
    cases ts with
    | nil => exact .ok hstmts
    | cons t ts =>
      change Post _ _ (parseStmt r (t :: ts) >>= fun x => programLoop r fuel (stmts ++ [x.1]) x.2)
      refine Post.bind (parseStmt_sound hr _ hk hts) fun r hread => ?_
      obtain ⟨hstmt, hrest, htokens⟩ := hread
      rw [length_cons] at hfuel hk hrest
      exact ih _ r.2 (by omega) (by omega) htokens
        (forall_mem_append.mpr ⟨hstmts, forall_mem_singleton.mpr hstmt⟩)

theorem parseProgram_sound (hts : Tokens T ts) :
    Post (· ≠ .depth) (fun program => ∀ stmt ∈ program.stmts, NamedStmt T stmt)
      (parseProgram ts) :=
  programLoop_sound (recAt_sound _) _ [] ts le_rfl (lt_succ_self _) hts (forall_mem_nil _)

/-! ## Tokens of a text -/

theorem head_trim (hc : isWhitespace c = false) (cs : Text) : (trim (c :: cs)).head? = some c := by
  have hdrop : (c :: cs).dropWhile isWhitespace = c :: cs :=
    dropWhile_cons_of_neg (by simp [hc])
  rw [trim, hdrop, trimEnd, reverse_cons, dropWhile_append]
  split_ifs with hempty
  · rw [dropWhile_cons_of_neg (by simp [hc])]
    rfl
  · rw [reverse_append]
    rfl

theorem parseLiteral_unsigned (hc : isDecimalChar c = true) (h : parseLiteral (c :: cs) = .ok q) :
    ∃ int frac exponent, q = literalValue false int frac exponent := by
  have hspace : isWhitespace c = false := by
    rw [isDecimalChar, Bool.or_eq_true, beq_iff_eq] at hc
    rcases hc with hdigit | rfl
    · exact isWhitespace_of_isDigit hdigit
    · rfl
  have hsign : (splitSign (trim (c :: cs))).1 = false := by
    have hhead := head_trim hspace cs
    unfold splitSign
    split
    · rename_i heq
      rw [heq] at hhead
      cases hhead
      cases hc
    · rfl
    · rfl
  unfold parseLiteral at h
  dsimp only at h
  split_ifs at h with hempty
  rw [hsign] at h
  split at h
  · split at h
    · dsimp only [pure, Except.pure, bind, Except.bind] at h
      split_ifs at h
      exact ⟨_, _, _, (Except.ok.inj h).symm⟩
    · cases h
  · dsimp only [pure, Except.pure, bind, Except.bind] at h
    split_ifs at h
    exact ⟨_, _, _, (Except.ok.inj h).symm⟩

theorem literalValue_nonneg (int frac : Text) (exponent : ℤ) :
    0 ≤ literalValue false int frac exponent := by
  unfold literalValue
  dsimp only
  rw [if_neg Bool.false_ne_true, Rat.mkRat_eq_div]
  refine div_nonneg (Int.cast_nonneg ?_) (cast_nonneg _)
  split_ifs
  · positivity
  · positivity

theorem pairSymbol_kind {next : Char} {long short : TokenKind} (cs : Text) :
    (pairSymbol next long short cs).1 = long ∨ (pairSymbol next long short cs).1 = short := by
  unfold pairSymbol
  split
  · exact .inr rfl
  · split_ifs
    · exact .inl rfl
    · exact .inr rfl

theorem scanSymbol_ok (h : scanSymbol c cs = some (kind, rest)) : TokenOk T kind := by
  have hpair : ∀ {next : Char} {long short : TokenKind},
      some (pairSymbol next long short cs) = some (kind, rest) → TokenOk T long → TokenOk T short →
        TokenOk T kind := by
    intro next long short h hlong hshort
    have hkind : kind = (pairSymbol next long short cs).1 := by rw [Option.some.inj h]
    rcases (pairSymbol_kind cs : (pairSymbol next long short cs).1 = long ∨ _) with h | h
    · rw [hkind, h]
      exact hlong
    · rw [hkind, h]
      exact hshort
  unfold scanSymbol at h
  split at h <;> first | exact hpair h trivial trivial | (cases h; trivial) | cases h

theorem scanNumber_ok (hc : isDecimalChar c = true)
    (h : parseLiteral (scanNumber (c :: cs)).1 = .ok q) : IsLiteral q := by
  have hhead : (scanNumber (c :: cs)).1 = c :: (cs.takeWhile isDecimalChar ++
      (scanExponent (cs.dropWhile isDecimalChar)).1) := by
    simp [scanNumber, takeWhile_cons_of_pos hc, dropWhile_cons_of_pos hc]
  rw [hhead] at h
  obtain ⟨int, frac, exponent, rfl⟩ := parseLiteral_unsigned hc h
  exact ⟨literalValue_nonneg int frac exponent, literalValue_den false int frac exponent⟩

theorem keywords_ok : ∀ k ∈ keywords, TokenOk T k.2 := by
  simp [keywords, TokenOk]

theorem wordKind_ok (hc : T.isWordStart c = true)
    (hunder : ¬ (c = '_' ∧ (cs.head?.all fun next => !T.isWordChar next) = true)) :
    TokenOk T (wordKind (c :: cs.takeWhile T.isWordChar)) := by
  set word := c :: cs.takeWhile T.isWordChar with hword
  have hid : isIdentifier T word = true := by
    rw [hword, isIdentifier, hc, Bool.true_and]
    exact all_takeWhile
  have hne : word ≠ ['_'] := by
    intro heq
    rw [hword] at heq
    obtain ⟨rfl, hnil⟩ := List.cons.inj heq
    refine hunder ⟨rfl, ?_⟩
    cases cs with
    | nil => rfl
    | cons d cs =>
      by_cases hd : T.isWordChar d = true
      · rw [takeWhile_cons_of_pos hd] at hnil
        cases hnil
      · simpa using hd
  have hkind : ∀ kind, wordKind word = kind → TokenOk T kind := by
    intro kind h
    unfold wordKind at h
    split at h
    · rename_i k hfind
      rw [← h]
      exact keywords_ok k (mem_of_find?_eq_some hfind)
    · rename_i hfind
      rw [← h]
      refine ⟨hid, ?_, hne⟩
      rw [wordKind, hfind]
  exact hkind _ rfl

theorem scan_ok {pos : ℕ} (h : scan T pos c cs = .ok (some kind, rest)) : TokenOk T kind := by
  unfold scan at h
  split_ifs at h with hspace hcomment hnumber hquote hword hplaceholder
  · cases h
  · cases h
  · dsimp only at h
    split at h
    · rename_i q hq
      have hc : isDecimalChar c = true := by
        rw [isDecimalChar, Bool.or_eq_true, beq_iff_eq]
        exact hnumber.imp id And.left
      cases h
      exact scanNumber_ok hc hq
    · cases h
  · split at h
    · cases h
      trivial
    · cases h
  · cases h
    trivial
  · cases h
    exact wordKind_ok hword hplaceholder
  · split at h
    · rename_i hsymbol
      cases h
      exact scanSymbol_ok hsymbol
    · cases h

theorem lex_tokens {src : Text} {tokens : List Token} (h : lex T src = .ok tokens) :
    Tokens T (tokens.map Token.kind) := by
  have hloop : ∀ (fuel pos : ℕ) (cs : Text) (tokens : List Token),
      lexLoop T fuel pos cs = .ok tokens → Tokens T (tokens.map Token.kind) := by
    intro fuel
    induction fuel with
    | zero =>
      intro pos cs tokens h
      cases cs <;> cases h <;> exact forall_mem_nil _
    | succ fuel ih =>
      intro pos cs tokens h
      cases cs with
      | nil =>
        cases h
        exact forall_mem_nil _
      | cons c cs =>
        obtain ⟨⟨kind, rest⟩, hscan, h⟩ := ByteLib.bind_eq_ok.mp h
        obtain ⟨tokens, htokens, h⟩ := ByteLib.bind_eq_ok.mp h
        cases h
        have hrest := ih _ _ _ htokens
        cases kind with
        | none => exact hrest
        | some kind => exact forall_mem_cons.mpr ⟨scan_ok hscan, hrest⟩
  exact hloop _ _ _ _ h

end Residiuum.Sda
