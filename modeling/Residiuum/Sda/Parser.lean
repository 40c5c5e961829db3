import Residiuum.Sda.Ast
import Residiuum.Sda.Base16
import Residiuum.Sda.Lexer

/-!
# The parser

The recursive descent of `sda-core/src/parser.rs`, on the kinds of the tokens that are left. A
position in an error is the number of tokens left; `parse` turns it into the position of the token.

* `parsePrimary`, `parsePostfix`, …, `parsePipe`: the levels of the grammar, over the parsers `Rec`
  for what is nested in them.
-/

namespace Residiuum.Sda

/-- Failures of the parser, at positions `π`. -/
inductive ParseError (π : Type) where
  | unexpected (token : TokenKind) (pos : π)
  | expected (what : Text) (token : TokenKind) (pos : π)
  | selectorNotStatic
  | duplicateLabelInSelector
  | reservedPlaceholder
  | invalidMapKey
  | invalidBagkvKey
  | invalidBytesLiteral (literal : Text) (pos : π) (reason : Text)
  | depth

/-- The error at another kind of position. -/
def ParseError.locate {π π' : Type} (f : π → π') : ParseError π → ParseError π'
  | .unexpected token pos => .unexpected token (f pos)
  | .expected what token pos => .expected what token (f pos)
  | .selectorNotStatic => .selectorNotStatic
  | .duplicateLabelInSelector => .duplicateLabelInSelector
  | .reservedPlaceholder => .reservedPlaceholder
  | .invalidMapKey => .invalidMapKey
  | .invalidBagkvKey => .invalidBagkvKey
  | .invalidBytesLiteral literal pos reason => .invalidBytesLiteral literal (f pos) reason
  | .depth => .depth

/-- A parser takes the tokens left and returns what it read with those left then. -/
abbrev Parser (α : Type) : Type := List TokenKind → Except (ParseError ℕ) (α × List TokenKind)

/-! ## Single tokens -/

def peek (ts : List TokenKind) : TokenKind := ts.head?.getD .eof

/-- The debug text of the tokens that `expect` asks for. -/
def TokenKind.debugText : TokenKind → Text
  | .eq => "Eq".toList
  | .arrow => "Arrow".toList
  | .gt => "Gt".toList
  | .lParen => "LParen".toList
  | .rParen => "RParen".toList
  | .lBrack => "LBrack".toList
  | .rBrack => "RBrack".toList
  | .lBrace => "LBrace".toList
  | .rBrace => "RBrace".toList
  | .colon => "Colon".toList
  | .comma => "Comma".toList
  | .semi => "Semi".toList
  | .bar => "Bar".toList
  | .selR => "SelR".toList
  | _ => []

def expect (token : TokenKind) (ts : List TokenKind) : Except (ParseError ℕ) (List TokenKind) :=
  if peek ts = token then .ok ts.tail else .error (.expected token.debugText (peek ts) ts.length)

def expectIdent : Parser Text
  | .ident name :: ts => .ok (name, ts)
  | ts => .error (.expected "identifier".toList (peek ts) ts.length)

def expectLabel (error : List TokenKind → ParseError ℕ) : Parser Text
  | .ident name :: ts => .ok (name, ts)
  | .str s :: ts => .ok (s, ts)
  | ts => .error (error ts)

def expectStr (error : List TokenKind → ParseError ℕ) : Parser Text
  | .str s :: ts => .ok (s, ts)
  | ts => .error (error ts)

/-- The loop of a left associative level: as long as an operator follows. -/
def chainLoop (op : TokenKind → Option (Expr → Expr → Expr)) (next : Parser Expr) :
    ℕ → Expr → Parser Expr
  | 0, _, _ => .error .depth
  | fuel + 1, lhs, ts =>
    match op (peek ts) with
    | some f => do
      let (rhs, ts) ← next ts.tail
      chainLoop op next fuel (f lhs rhs) ts
    | none => .ok (lhs, ts)

/-- A left associative level over the next one. -/
def leftChain (op : TokenKind → Option (Expr → Expr → Expr)) (next : Parser Expr) : Parser Expr :=
  fun ts => do
    let (lhs, ts) ← next ts
    chainLoop op next (ts.length + 1) lhs ts

/-- The loop over commas; `trailing` says whether one may stand before `close`. -/
def commaLoop {α : Type} (close : TokenKind) (trailing : Bool) (item : Parser α) :
    ℕ → List α → Parser (List α)
  | 0, _, _ => .error .depth
  | fuel + 1, items, ts =>
    if peek ts = .comma then
      if trailing ∧ peek ts.tail = close then .ok (items, ts.tail)
      else do
        let (x, ts) ← item ts.tail
        commaLoop close trailing item fuel (items ++ [x]) ts
    else .ok (items, ts)

/-- Items separated by commas up to `close`. -/
def delimited {α : Type} (close : TokenKind) (trailing : Bool) (item : Parser α) :
    Parser (List α) := fun ts => do
  let (items, ts) ←
    if peek ts = close then .ok ([], ts)
    else do
      let (x, ts) ← item ts
      commaLoop close trailing item (ts.length + 1) [x] ts
  let ts ← expect close ts
  .ok (items, ts)

/-! ## Operators -/

def pipeOp : TokenKind → Option (Expr → Expr → Expr)
  | .pipe => some .pipe
  | _ => none

/-- The operator of `parse_or`. -/
def orOp : TokenKind → Option (Expr → Expr → Expr)
  | .or_ => some (.binOp .or)
  | _ => none

/-- The operator of `parse_and`. -/
def andOp : TokenKind → Option (Expr → Expr → Expr)
  | .and_ => some (.binOp .and)
  | _ => none

def cmpOp : TokenKind → Option (Expr → Expr → Expr)
  | .eq => some (.binOp .eq)
  | .neq => some (.binOp .neq)
  | .lt => some (.binOp .lt)
  | .le => some (.binOp .le)
  | .gt => some (.binOp .gt)
  | .ge => some (.binOp .ge)
  | _ => none

/-- The operators of `parse_setish`. -/
def setOp : TokenKind → Option (Expr → Expr → Expr)
  | .union => some (.binOp .union)
  | .inter => some (.binOp .inter)
  | .diff => some (.binOp .diff)
  | .bUnion => some (.binOp .bUnion)
  | .bDiff => some (.binOp .bDiff)
  | .in_ => some (.binOp .in_)
  | _ => none

def addOp : TokenKind → Option (Expr → Expr → Expr)
  | .plus => some (.binOp .add)
  | .minus => some (.binOp .sub)
  | .concat => some (.binOp .concat)
  | _ => none

def mulOp : TokenKind → Option (Expr → Expr → Expr)
  | .star => some (.binOp .mul)
  | .slash => some (.binOp .div)
  | _ => none

/-! ## Levels -/

/-- The parsers that the levels call for what is nested in them. -/
structure Rec where
  expr : Parser Expr
  setish : Parser Expr

variable (r : Rec)

def parseMapEntry : Parser (Text × Expr) := fun ts => do
  let (key, ts) ← expectStr (fun _ => .invalidMapKey) ts
  let ts ← expect .arrow ts
  let (value, ts) ← r.expr ts
  .ok ((key, value), ts)

def parseBagkvEntry : Parser (Text × Expr) := fun ts => do
  let (key, ts) ← expectLabel (fun _ => .invalidBagkvKey) ts
  let ts ← expect .arrow ts
  let (value, ts) ← r.expr ts
  .ok ((key, value), ts)

def parseProdField : Parser (Text × Expr) := fun ts => do
  let (name, ts) ← expectIdent ts
  let ts ← expect .colon ts
  let (value, ts) ← r.expr ts
  .ok ((name, value), ts)

/-- The labels up to a closing brace, when nothing else stands there. -/
def selectorLabels : List TokenKind → Option (List Text)
  | .ident name :: ts => (selectorLabels ts).map (name :: ·)
  | .str s :: ts => (selectorLabels ts).map (s :: ·)
  | .rBrace :: _ => some []
  | _ => none

def detectStaticSelectorError (ts : List TokenKind) : Option (ParseError ℕ) :=
  match selectorLabels ts with
  | none => none
  | some labels =>
    if labels.isEmpty then none
    else if labels.Nodup then some .selectorNotStatic
    else some .duplicateLabelInSelector

def decomposeGeneratorExpr : Expr → Option (Text × Expr)
  | .binOp .in_ (.ident name) collection => some (name, collection)
  | _ => none

def expectedGeneratorExprError (ts : List TokenKind) : ParseError ℕ :=
  .expected "generator expression `name in collection`".toList (peek ts) ts.length

def parseGeneratorExpr : Parser (Text × Expr) := fun ts => do
  let (e, ts) ← r.expr ts
  match decomposeGeneratorExpr e with
  | some generator => .ok (generator, ts)
  | none => .error (expectedGeneratorExprError ts)

/-- The predicate of a comprehension, if there is one. -/
def parsePred : Parser (Option Expr)
  | .bar :: ts => do
    let (pred, ts) ← r.expr ts
    .ok (some pred, ts)
  | ts => .ok (none, ts)

def closeComprehension (yieldExpr : Option Expr) (generator : Text × Expr) : Parser Expr :=
  fun ts => do
    let (pred, ts) ← parsePred r ts
    let ts ← expect .rBrace ts
    .ok (.comprehension yieldExpr generator.1 generator.2 pred, ts)

/-- The rest of a comprehension, after what it yields. -/
def parseYielding (yieldExpr : Expr) : Parser Expr := fun ts => do
  let ts ← expect .bar ts
  let (generator, ts) ← parseGeneratorExpr r ts
  closeComprehension r (some yieldExpr) generator ts

/-- Whether the expression tests membership. -/
def isMembership : Expr → Bool
  | .binOp .in_ _ _ => true
  | _ => false

def parseComprehension : Parser Expr
  | .yield_ :: ts => do
    let (yieldExpr, ts) ← r.expr ts
    parseYielding r yieldExpr ts
  | ts => do
    let (first, ts) ← r.expr ts
    match decomposeGeneratorExpr first with
    | some generator => closeComprehension r none generator ts
    | none =>
      if isMembership first then .error (expectedGeneratorExprError ts)
      else parseYielding r first ts

/-- One expression in parentheses, after the keyword. -/
def parseWrapped (f : Expr → Expr) : Parser Expr := fun ts => do
  let ts ← expect .lParen ts
  let (e, ts) ← r.expr ts
  let ts ← expect .rParen ts
  .ok (f e, ts)

def parseCollection {α : Type} (opening closing : TokenKind) (item : Parser α)
    (f : List α → Expr) : Parser Expr := fun ts => do
  let ts ← expect opening ts
  let (items, ts) ← delimited closing true item ts
  .ok (f items, ts)

def parsePrimary : Parser Expr
  | .null :: ts => .ok (.null, ts)
  | .true_ :: ts => .ok (.bool true, ts)
  | .false_ :: ts => .ok (.bool false, ts)
  | .num n :: ts => .ok (.num n, ts)
  | .str s :: ts => .ok (.str s, ts)
  | .bytes :: ts => do
    let pos := ts.length + 1
    let ts ← expect .lParen ts
    let (literal, ts) ← expectStr
      (fun ts => .expected "string literal".toList (peek ts) ts.length) ts
    let ts ← expect .rParen ts
    match parseBytesLiteral literal with
    | .ok bytes => .ok (.bytes bytes, ts)
    | .error reason => .error (.invalidBytesLiteral literal pos reason)
  | .placeholder :: ts =>
    if peek ts = .fatArrow then .error .reservedPlaceholder else .ok (.placeholder, ts)
  | .ident name :: ts =>
    if peek ts = .fatArrow then do
      let (body, ts) ← r.expr ts.tail
      .ok (.lambda name body, ts)
    else .ok (.ident name, ts)
  | .lParen :: ts => do
    let (e, ts) ← r.expr ts
    let ts ← expect .rParen ts
    .ok (e, ts)
  | .seq :: ts => parseCollection .lBrack .rBrack r.expr .seq ts
  | .set :: ts => parseCollection .lBrace .rBrace r.expr .set ts
  | .bag :: ts => parseCollection .lBrace .rBrace r.expr .bag ts
  | .map :: ts => parseCollection .lBrace .rBrace (parseMapEntry r) .map ts
  | .prod :: ts => parseCollection .lBrace .rBrace (parseProdField r) .prod ts
  | .bagKV :: ts => parseCollection .lBrace .rBrace (parseBagkvEntry r) .bagKV ts
  | .some_ :: ts => parseWrapped r .some_ ts
  | .none_ :: ts => .ok (.none_, ts)
  | .ok_ :: ts => parseWrapped r .ok_ ts
  | .fail_ :: ts => do
    let ts ← expect .lParen ts
    let (code, ts) ← r.expr ts
    let ts ← expect .comma ts
    let (msg, ts) ← r.expr ts
    let ts ← expect .rParen ts
    .ok (.fail_ code msg, ts)
  | .lBrace :: ts =>
    match detectStaticSelectorError ts with
    | some error => .error error
    | none => parseComprehension r ts
  | ts => .error (.unexpected (peek ts) ts.length)

/-- The sugar that `parse_postfix` reads after a name. -/
def parseSugar (e : Expr) (ts : List TokenKind) : Except (ParseError ℕ) (Expr × List TokenKind) :=
  match e with
  | .ident name =>
    if name = "one".toList ∧ (peek ts = .qMark ∨ peek ts = .bang) ∧ peek ts.tail = .lParen then do
      let enrName := if peek ts = .qMark then "one?".toList else "one!".toList
      let (args, ts) ← delimited .rParen false r.expr ts.tail.tail
      .ok (.call (.ident enrName) args, ts)
    else if name = "enrich".toList ∧ peek ts = .lBrace then do
      let (fields, ts) ← delimited .rBrace true (parseProdField r) ts.tail
      .ok (.enrich fields, ts)
    else if name = "refine".toList ∧ peek ts = .lBrace then parseComprehension r ts.tail
    else .ok (e, ts)
  | e => .ok (e, ts)

def isSelectorAccess : List TokenKind → Bool
  | .ident _ :: .gt :: _ => true
  | .str _ :: .gt :: _ => true
  | _ => false

/-- The mark after a selector. -/
def selectMode : List TokenKind → SelectMode × List TokenKind
  | .qMark :: ts => (.optional, ts)
  | .bang :: ts => (.required, ts)
  | ts => (.plain, ts)

/-- A selector up to `close`, applied to `e`. -/
def parseSelector (close : TokenKind) (e : Expr) : Parser Expr := fun ts => do
  let (selector, ts) ← expectLabel
    (fun ts => .expected "selector".toList (peek ts) ts.length) ts
  let ts ← expect close ts
  let (mode, ts) := selectMode ts
  .ok (.select e selector mode, ts)

/-- The keyed sugar `R[kR = kL]`, after the opening bracket. -/
def parseKeyed (e : Expr) : Parser Expr := fun ts => do
  let (kR, ts) ← r.setish ts
  let ts ← expect .eq ts
  let (kL, ts) ← r.setish ts
  let ts ← expect .rBrack ts
  .ok (.comprehension none "r".toList e (some (.binOp .eq kR kL)), ts)

/-- One turn of the loop of `parse_postfix`; `none` leaves it. -/
def postfixStep (e : Expr) : List TokenKind → Option (Except (ParseError ℕ) (Expr × List TokenKind))
  | .lt :: ts => if isSelectorAccess ts then some (parseSelector .gt e ts) else none
  | .selL :: ts => some (parseSelector .selR e ts)
  | .lParen :: ts => some do
    let (args, ts) ← delimited .rParen false r.expr ts
    .ok (.call e args, ts)
  | .lBrack :: ts => some (parseKeyed r e ts)
  | _ => none

def postfixLoop : ℕ → Expr → Parser Expr
  | 0, _, _ => .error .depth
  | fuel + 1, e, ts =>
    match postfixStep r e ts with
    | some result => do
      let (e, ts) ← result
      postfixLoop fuel e ts
    | none => .ok (e, ts)

def parsePostfix : Parser Expr := fun ts => do
  let (e, ts) ← parsePrimary r ts
  let (e, ts) ← parseSugar r e ts
  postfixLoop r (ts.length + 1) e ts

def parseUnary : Parser Expr
  | .minus :: ts => do
    let (e, ts) ← parseUnary ts
    .ok (.unOp .neg e, ts)
  | ts => parsePostfix r ts

def parseMul : Parser Expr := leftChain mulOp (parseUnary r)

def parseAdd : Parser Expr := leftChain addOp (parseMul r)

def parseSetish : Parser Expr := leftChain setOp (parseAdd r)

def parseCmp : Parser Expr := fun ts => do
  let (lhs, ts) ← parseSetish r ts
  match cmpOp (peek ts) with
  | some f => do
    let (rhs, ts) ← parseSetish r ts.tail
    .ok (f lhs rhs, ts)
  | none => .ok (lhs, ts)

def parseNot : Parser Expr
  | .not_ :: ts => do
    let (e, ts) ← parseNot ts
    .ok (.unOp .not e, ts)
  | ts => parseCmp r ts

def parseAnd : Parser Expr := leftChain andOp (parseNot r)

def parseOr : Parser Expr := leftChain orOp (parseAnd r)

def parsePipe : Parser Expr := leftChain pipeOp (parseOr r)

/-- The parsers for nested expressions, for nesting below `fuel`. -/
def recAt : ℕ → Rec
  | 0 => ⟨fun _ => .error .depth, fun _ => .error .depth⟩
  | fuel + 1 => ⟨parsePipe (recAt fuel), parseSetish (recAt fuel)⟩

/-! ## Statements -/

def sourceKind (name : Text) : Option SourceKind :=
  if name = "Index".toList then some .index
  else if name = "MultiIndex".toList then some .multiIndex
  else if name = "Dataset".toList then some .dataset
  else none

/-- The type parameters of a `source` declaration. -/
def parseTypeParams : Parser (List Text)
  | .lBrack :: ts => delimited .rBrack true expectIdent ts
  | ts => .ok ([], ts)

/-- A `source` declaration, after the word. -/
def parseSource : Parser Stmt := fun ts => do
  let (name, ts) ← expectIdent ts
  let ts ← expect .colon ts
  let (kindName, ts) ← expectIdent ts
  match sourceKind kindName with
  | none => .error (.expected "Index, MultiIndex, or Dataset".toList (.ident kindName) ts.length)
  | some kind => do
    let (typeParams, ts) ← parseTypeParams ts
    let ts ← expect .semi ts
    .ok (.source name kind typeParams, ts)

def parseLet : Parser Stmt := fun ts =>
  if peek ts = .placeholder then .error .reservedPlaceholder
  else do
    let (name, ts) ← expectIdent ts
    let ts ← expect .eq ts
    let (e, ts) ← r.expr ts
    let ts ← expect .semi ts
    .ok (.let_ name e, ts)

def parseStmt : Parser Stmt := fun ts =>
  if peek ts = .let_ then parseLet r ts.tail
  else if peek ts = .ident "source".toList then parseSource ts.tail
  else do
    let (e, ts) ← r.expr ts
    let ts ← expect .semi ts
    .ok (.expr e, ts)

def programLoop : ℕ → List Stmt → List TokenKind → Except (ParseError ℕ) Program
  | _, stmts, [] => .ok ⟨stmts⟩
  | 0, _, _ => .error .depth
  | fuel + 1, stmts, ts => do
    let (stmt, ts) ← parseStmt r ts
    programLoop fuel (stmts ++ [stmt]) ts

def parseProgram (ts : List TokenKind) : Except (ParseError ℕ) Program :=
  programLoop (recAt (ts.length + 1)) ts.length [] ts

/-- The position of the token with `left` tokens left, of `tokens` before the end at `eof`. -/
def tokenPos (tokens : List Token) (eof left : ℕ) : ℕ :=
  ((tokens.drop (tokens.length - left)).head?.map Token.pos).getD eof

def parse (tokens : List Token) (eof : ℕ) : Except (ParseError ℕ) Program :=
  (parseProgram (tokens.map Token.kind)).mapError (ParseError.locate (tokenPos tokens eof))

end Residiuum.Sda
