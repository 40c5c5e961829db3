import Residiuum.Sda.Format

/-!
# The tokens of a formatted program

What the formatter writes, token by token, and when the parser can read it back.

* `exprTokens e minPrec`: the tokens of `formatExpr e minPrec`.
* `Expr.level`: the level of the grammar that an expression written without parentheses belongs to.
  The formatter's `precedence` differs from it for `not` and for functions.
* `Printable`: every operand that is written without parentheses stands where the grammar allows one
  of its level, keys that are written bare are names, and numbers are written exactly.
-/

namespace Residiuum.Sda

open CharTables

/-! ## Tokens -/

def BinOpKind.token : BinOpKind → TokenKind
  | .add => .plus
  | .sub => .minus
  | .mul => .star
  | .div => .slash
  | .concat => .concat
  | .eq => .eq
  | .neq => .neq
  | .lt => .lt
  | .le => .le
  | .gt => .gt
  | .ge => .ge
  | .and => .and_
  | .or => .or_
  | .union => .union
  | .inter => .inter
  | .diff => .diff
  | .bUnion => .bUnion
  | .bDiff => .bDiff
  | .in_ => .in_

def UnOpKind.token : UnOpKind → TokenKind
  | .neg => .minus
  | .not => .not_

def SelectMode.tokens : SelectMode → List TokenKind
  | .plain => []
  | .optional => [.qMark]
  | .required => [.bang]

/-- The tokens of a name; those of the cardinality sugar are two. -/
def nameTokens (name : Text) : List TokenKind :=
  if name = "one?".toList then [.ident "one".toList, .qMark]
  else if name = "one!".toList then [.ident "one".toList, .bang]
  else [.ident name]

def keyToken (T : CharTables) (key : Text) : TokenKind :=
  if isIdentifier T key then wordKind key else .str key

def joinTokens : List (List TokenKind) → List TokenKind
  | [] => []
  | [t] => t
  | t :: ts => t ++ .comma :: joinTokens ts

/-- The tokens in parentheses, if they are needed. -/
def wrapTokens (tokens : List TokenKind) (prec minPrec : ℕ) : List TokenKind :=
  if prec < minPrec then .lParen :: tokens ++ [.rParen] else tokens

variable (T : CharTables) {p : Expr → Prop} {e : Expr}

mutual

def exprTokens : Expr → ℕ → List TokenKind
  | .null, _ => [.null]
  | .bool true, _ => [.true_]
  | .bool false, _ => [.false_]
  | .num value, _ => [.num value]
  | .str value, _ => [.str value]
  | .bytes bytes, _ => [.bytes, .lParen, .str (encodeBase16 bytes), .rParen]
  | .ident name, _ => nameTokens name
  | .placeholder, _ => [.placeholder]
  | .seq items, _ => .seq :: .lBrack :: joinTokens (itemTokens items) ++ [.rBrack]
  | .set items, _ => .set :: .lBrace :: joinTokens (itemTokens items) ++ [.rBrace]
  | .bag items, _ => .bag :: .lBrace :: joinTokens (itemTokens items) ++ [.rBrace]
  | .map entries, _ => .map :: .lBrace :: joinTokens (mapEntryTokens entries) ++ [.rBrace]
  | .prod fields, _ => .prod :: .lBrace :: joinTokens (fieldTokens fields) ++ [.rBrace]
  | .bagKV entries, _ => .bagKV :: .lBrace :: joinTokens (bagkvEntryTokens entries) ++ [.rBrace]
  | .some_ value, _ => .some_ :: .lParen :: exprTokens value 0 ++ [.rParen]
  | .none_, _ => [.none_]
  | .ok_ value, _ => .ok_ :: .lParen :: exprTokens value 0 ++ [.rParen]
  | .fail_ code msg, _ =>
    .fail_ :: .lParen :: exprTokens code 0 ++ .comma :: exprTokens msg 0 ++ [.rParen]
  | .binOp op lhs rhs, minPrec =>
    wrapTokens (exprTokens lhs op.precedence ++ op.token :: exprTokens rhs (rightPrec op))
      op.precedence minPrec
  | .unOp op inner, minPrec => wrapTokens (op.token :: exprTokens inner 8) 8 minPrec
  | .pipe lhs rhs, minPrec =>
    wrapTokens (exprTokens lhs 1 ++ .pipe :: exprTokens rhs 2) 1 minPrec
  | .lambda param body, minPrec =>
    wrapTokens (.ident param :: .fatArrow :: exprTokens body 1) 1 minPrec
  | .call callee args, minPrec =>
    wrapTokens (exprTokens callee 9 ++ .lParen :: joinTokens (itemTokens args) ++ [.rParen])
      9 minPrec
  | .enrich fields, _ =>
    .ident "enrich".toList :: .lBrace :: joinTokens (fieldTokens fields) ++ [.rBrace]
  | .select target selector mode, minPrec =>
    wrapTokens (exprTokens target 9 ++ .lt :: .str selector :: .gt :: mode.tokens) 9 minPrec
  | .comprehension yieldExpr binding collection pred, _ =>
    .lBrace :: yieldTokens yieldExpr ++ .ident binding :: .in_ :: exprTokens collection 0 ++
      predTokens pred ++ [.rBrace]
termination_by structural e => e

def itemTokens : List Expr → List (List TokenKind)
  | [] => []
  | e :: es => exprTokens e 0 :: itemTokens es

def mapEntryTokens : List (Text × Expr) → List (List TokenKind)
  | [] => []
  | (key, value) :: es => (.str key :: .arrow :: exprTokens value 0) :: mapEntryTokens es

def fieldTokens : List (Text × Expr) → List (List TokenKind)
  | [] => []
  | (name, value) :: es => (.ident name :: .colon :: exprTokens value 0) :: fieldTokens es

/-- The tokens of the entries of a keyed bag. -/
def bagkvEntryTokens : List (Text × Expr) → List (List TokenKind)
  | [] => []
  | (key, value) :: es =>
    (keyToken T key :: .arrow :: exprTokens value 0) :: bagkvEntryTokens es

def yieldTokens : Option Expr → List TokenKind
  | none => []
  | some e => .yield_ :: exprTokens e 0 ++ [.bar]

def predTokens : Option Expr → List TokenKind
  | none => []
  | some e => .bar :: exprTokens e 0

end

/-! ## Lists of expressions -/

/-- A recursion that applies `f` to every member. -/
theorem eq_map_of_cons {α β : Type} {F : List α → List β} {f : α → β} (hnil : F [] = [])
    (hcons : ∀ x xs, F (x :: xs) = f x :: F xs) (xs : List α) : F xs = xs.map f := by
  induction xs with
  | nil => exact hnil
  | cons x xs ih => rw [hcons, ih, List.map_cons]

theorem itemTokens_eq (es : List Expr) : itemTokens T es = es.map fun e => exprTokens T e 0 :=
  eq_map_of_cons rfl (fun _ _ => rfl) es

section Entries

variable (es : List (Text × Expr))

theorem mapEntryTokens_eq :
    mapEntryTokens T es = es.map fun e => .str e.1 :: .arrow :: exprTokens T e.2 0 :=
  eq_map_of_cons rfl (fun _ _ => rfl) es

theorem fieldTokens_eq :
    fieldTokens T es = es.map fun e => .ident e.1 :: .colon :: exprTokens T e.2 0 :=
  eq_map_of_cons rfl (fun _ _ => rfl) es

theorem bagkvEntryTokens_eq :
    bagkvEntryTokens T es = es.map fun e => keyToken T e.1 :: .arrow :: exprTokens T e.2 0 :=
  eq_map_of_cons rfl (fun _ _ => rfl) es

end Entries

def SourceKind.token (kind : SourceKind) : TokenKind := .ident (formatSourceKind kind)

def typeParamTokens (typeParams : List Text) : List TokenKind :=
  if typeParams.isEmpty then []
  else .lBrack :: joinTokens (typeParams.map fun name => [.ident name]) ++ [.rBrack]

def stmtTokens : Stmt → List TokenKind
  | .let_ name e => .let_ :: .ident name :: .eq :: exprTokens T e 0 ++ [.semi]
  | .expr e => exprTokens T e 0 ++ [.semi]
  | .source name kind typeParams =>
    .ident "source".toList :: .ident name :: .colon :: kind.token :: typeParamTokens typeParams ++
      [.semi]

def BinOpKind.level : BinOpKind → ℕ
  | .or => 2
  | .and => 3
  | .eq | .neq | .lt | .le | .gt | .ge => 5
  | .union | .inter | .diff | .bUnion | .bDiff | .in_ => 6
  | .add | .sub | .concat => 7
  | .mul | .div => 8

/-- The level asked of a left operand: comparisons do not chain. -/
def BinOpKind.leftLevel (op : BinOpKind) : ℕ := if op.level = 5 then 6 else op.level

/-- The level of the grammar an expression belongs to, written without parentheses. -/
def Expr.level : Expr → ℕ
  | .pipe _ _ => 1
  | .binOp op _ _ => op.level
  | .unOp .not _ => 4
  | .unOp .neg _ => 9
  | .call _ _ | .select _ _ _ => 10
  | _ => 11

/-- A function, which reaches as far as it can to the right. -/
def Expr.isLambda : Expr → Bool
  | .lambda _ _ => true
  | _ => false

/-! ## Operands -/

def isSugarName : Expr → Bool
  | .ident name => name == "one?".toList || name == "one!".toList
  | _ => false

/-- The parts of an expression, without the name of a cardinality sugar. -/
def Expr.operands : Expr → List Expr
  | .call callee args => if isSugarName callee then args else callee :: args
  | e => e.parts

theorem Expr.mem_parts_of_operands {p : Expr} (h : p ∈ e.operands) : p ∈ e.parts := by
  cases e with
  | call callee args =>
    simp only [operands] at h
    split_ifs at h
    · exact List.mem_cons_of_mem callee h
    · exact h
  | _ => exact h

/-- `p` holds of the expression and of every operand, at every depth. -/
inductive Expr.Every (p : Expr → Prop) : Expr → Prop
  | intro {e : Expr} : p e → (∀ o ∈ e.operands, Every p o) → Every p e

theorem Expr.Every.here (h : Every p e) : p e := by
  cases h with
  | intro he _ => exact he

theorem Expr.Every.operand {o : Expr} (h : Every p e) (ho : o ∈ e.operands) : Every p o := by
  cases h with
  | intro _ hall => exact hall o ho

/-- A word that the lexer reads as this name. -/
structure IsName (name : Text) : Prop where
  word : isIdentifier T name = true
  kind : wordKind name = .ident name
  ne : name ≠ ['_']

section IsName

variable {T} {w : Text}

def isLetters (w : Text) : Bool := w.all fun c => decide (c.toNat < 128 ∧ c.isAlpha = true)

theorem isIdentifier_letters (hne : w ≠ []) (hw : isLetters w = true) :
    isIdentifier T w = true := by
  have hletter : ∀ c ∈ w, T.isAlphabetic c = true := fun c hc => by
    obtain ⟨hascii, halpha⟩ := forall_mem_of_all hw c hc
    rw [T.isAlphabetic_ascii c hascii, halpha]
  cases w with
  | nil => exact absurd rfl hne
  | cons c w =>
    rw [List.forall_mem_cons] at hletter
    rw [isIdentifier, isWordStart, hletter.1, Bool.true_or, Bool.true_and,
      List.all_eq_true]
    intro d hd
    rw [isWordChar, isAlphanumeric, hletter.2 d hd]
    rfl

theorem isName_letters (hne : w ≠ []) (hw : isLetters w = true)
    (hkind : wordKind w = .ident w) (hunder : w ≠ ['_']) : IsName T w :=
  ⟨isIdentifier_letters hne hw, hkind, hunder⟩

theorem IsName.nameTokens {name : Text} (h : IsName T name) : nameTokens name = [.ident name] := by
  have hsugar : ∀ c : Char, T.isWordChar c = false → name ≠ ['o', 'n', 'e', c] := by
    rintro c hc rfl
    have hword := h.word
    simp [isIdentifier, hc] at hword
  have hquestion : name ≠ "one?".toList :=
    hsugar '?' (isWordChar_ascii (by decide) rfl rfl (by decide))
  have hbang : name ≠ "one!".toList :=
    hsugar '!' (isWordChar_ascii (by decide) rfl rfl (by decide))
  rw [Sda.nameTokens, if_neg hquestion, if_neg hbang]

end IsName

/-- Not negative, and a finite decimal that fits. -/
structure IsLiteral (q : ExactNum) : Prop where
  nonneg : 0 ≤ q
  finite : ∃ a b, a < 2 ^ 32 ∧ b < 2 ^ 32 ∧ q.den = 2 ^ a * 5 ^ b

/-- The names and numbers of an expression, apart from its operands. -/
def NamedNode : Expr → Prop
  | .num q => IsLiteral q
  | .ident name => IsName T name
  | .prod fields | .enrich fields => ∀ f ∈ fields, IsName T f.1
  | .lambda param _ => IsName T param
  | .comprehension _ binding _ _ => IsName T binding
  | _ => True

/-- **Names are identifiers and numbers are literals.** -/
def Named : Expr → Prop := Expr.Every (NamedNode T)

/-- Written in parentheses, or of a level the grammar allows. -/
def Fits (minPrec level : ℕ) (e : Expr) : Prop := precedence e < minPrec ∨ level ≤ e.level

/-- What the formatter needs of an expression, apart from its operands. -/
def PrintableNode : Expr → Prop
  | .num q => Exact q
  | .bagKV entries => ∀ e ∈ entries, isIdentifier T e.1 = true → IsName T e.1
  | .binOp op lhs rhs =>
    Fits op.precedence op.leftLevel lhs ∧ Fits (rightPrec op) (op.level + 1) rhs
  | .unOp .neg e => Fits 8 9 e
  | .pipe lhs _ => lhs.isLambda = false
  | .comprehension _ _ collection _ => 7 ≤ collection.level
  | _ => True

/-- **The formatter keeps the tree.** -/
def Printable : Expr → Prop := Expr.Every (PrintableNode T)

def NamedStmt : Stmt → Prop
  | .let_ name e => IsName T name ∧ Named T e
  | .expr e => Named T e
  | .source name _ typeParams => IsName T name ∧ ∀ p ∈ typeParams, IsName T p

/-- The formatter keeps the statement: its expression is kept, and an expression does not start with
the word that starts a declaration. -/
def PrintableStmt : Stmt → Prop
  | .let_ _ e => Printable T e
  | .expr e => Printable T e ∧ (exprTokens T e 0).head? ≠ some (.ident "source".toList)
  | .source _ _ _ => True

end Residiuum.Sda
