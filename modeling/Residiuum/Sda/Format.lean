import Residiuum.Sda.Parser

/-!
# The formatter

`format_program` of `sda-core/src/format.rs`, and the entry points `Program::parse` and
`Program::format` of `sda-core/src/lib.rs`.

* `precedence`, `isRightSensitiveBinary`: the one table that decides on parentheses.
* `formatExpr e minPrec`: the text of an expression where precedence `minPrec` is asked for.
-/

namespace Residiuum.Sda

/-! ## Texts -/

/-- The escape of a character in a string literal. -/
def formatChar (c : Char) : Text :=
  if c = '\\' then ['\\', '\\'] else if c = '"' then ['\\', '"']
  else if c = '\n' then ['\\', 'n'] else if c = '\r' then ['\\', 'r']
  else if c = '\t' then ['\\', 't'] else [c]

def formatString (s : Text) : Text := '"' :: s.flatMap formatChar ++ ['"']

def isIdentifier (T : CharTables) : Text → Bool
  | [] => false
  | c :: cs => T.isWordStart c && cs.all T.isWordChar

def formatSelectorKey (T : CharTables) (key : Text) : Text :=
  if isIdentifier T key then key else formatString key

def formatBinop : BinOpKind → Text
  | .add => "+".toList
  | .sub => "-".toList
  | .mul => "*".toList
  | .div => "/".toList
  | .concat => "++".toList
  | .eq => "=".toList
  | .neq => "!=".toList
  | .lt => "<".toList
  | .le => "<=".toList
  | .gt => ">".toList
  | .ge => ">=".toList
  | .and => "and".toList
  | .or => "or".toList
  | .union => "union".toList
  | .inter => "inter".toList
  | .diff => "diff".toList
  | .bUnion => "bunion".toList
  | .bDiff => "bdiff".toList
  | .in_ => "in".toList

def joinList : List Text → Text
  | [] => []
  | [t] => t
  | t :: ts => t ++ ", ".toList ++ joinList ts

/-! ## Parentheses -/

def BinOpKind.precedence : BinOpKind → ℕ
  | .or => 2
  | .and => 3
  | .eq | .neq | .lt | .le | .gt | .ge => 4
  | .union | .inter | .diff | .bUnion | .bDiff | .in_ => 5
  | .add | .sub | .concat => 6
  | .mul | .div => 7

def precedence : Expr → ℕ
  | .pipe _ _ => 1
  | .binOp op _ _ => op.precedence
  | .unOp _ _ => 8
  | .call _ _ | .select _ _ _ => 9
  | .lambda _ _ => 1
  | _ => 10

def isRightSensitiveBinary : BinOpKind → Bool
  | .sub | .div | .in_ => true
  | _ => false

/-- The precedence asked of the right operand. -/
def rightPrec (op : BinOpKind) : ℕ :=
  if isRightSensitiveBinary op then op.precedence + 1 else op.precedence

def wrapIfNeeded (rendered : Text) (prec minPrec : ℕ) : Text :=
  if prec < minPrec then '(' :: rendered ++ [')'] else rendered

def selectSuffix : SelectMode → Text
  | .plain => []
  | .optional => ['?']
  | .required => ['!']

/-- The sign of a unary operator. -/
def formatUnop : UnOpKind → Text
  | .neg => "-".toList
  | .not => "not ".toList

/-! ## Expressions -/

variable (T : CharTables)

mutual

def formatExpr : Expr → ℕ → Text
  | .null, _ => ['n', 'u', 'l', 'l']
  | .bool true, _ => ['t', 'r', 'u', 'e']
  | .bool false, _ => ['f', 'a', 'l', 's', 'e']
  | .num value, _ => canonicalString value
  | .str value, _ => formatString value
  | .bytes bytes, _ =>
    ['B', 'y', 't', 'e', 's', '('] ++ formatString (encodeBase16 bytes) ++ [')']
  | .ident name, _ => name
  | .placeholder, _ => ['_']
  | .seq items, _ => ['S', 'e', 'q', '['] ++ joinList (formatItems items) ++ [']']
  | .set items, _ => ['S', 'e', 't', '{'] ++ joinList (formatItems items) ++ ['}']
  | .bag items, _ => ['B', 'a', 'g', '{'] ++ joinList (formatItems items) ++ ['}']
  | .map entries, _ => ['M', 'a', 'p', '{'] ++ joinList (formatMapEntries entries) ++ ['}']
  | .prod fields, _ => ['P', 'r', 'o', 'd', '{'] ++ joinList (formatFields fields) ++ ['}']
  | .bagKV entries, _ =>
    ['B', 'a', 'g', 'K', 'V', '{'] ++ joinList (formatBagkvEntries entries) ++ ['}']
  | .some_ value, _ => ['S', 'o', 'm', 'e', '('] ++ formatExpr value 0 ++ [')']
  | .none_, _ => ['N', 'o', 'n', 'e']
  | .ok_ value, _ => ['O', 'k', '('] ++ formatExpr value 0 ++ [')']
  | .fail_ code msg, _ =>
    ['F', 'a', 'i', 'l', '('] ++ formatExpr code 0 ++ [',', ' '] ++ formatExpr msg 0 ++ [')']
  | .binOp op lhs rhs, minPrec =>
    wrapIfNeeded
      (formatExpr lhs op.precedence ++ ' ' :: formatBinop op ++ ' ' ::
        formatExpr rhs (rightPrec op))
      op.precedence minPrec
  | .unOp op inner, minPrec => wrapIfNeeded (formatUnop op ++ formatExpr inner 8) 8 minPrec
  | .pipe lhs rhs, minPrec =>
    wrapIfNeeded (formatExpr lhs 1 ++ ' ' :: ['|', '>'] ++ ' ' :: formatExpr rhs 2) 1 minPrec
  | .lambda param body, minPrec =>
    wrapIfNeeded (param ++ ' ' :: ['=', '>'] ++ ' ' :: formatExpr body 1) 1 minPrec
  | .call callee args, minPrec =>
    wrapIfNeeded (formatExpr callee 9 ++ '(' :: joinList (formatItems args) ++ [')']) 9 minPrec
  | .enrich fields, _ =>
    ['e', 'n', 'r', 'i', 'c', 'h', ' ', '{'] ++ joinList (formatFields fields) ++ ['}']
  | .select target selector mode, minPrec =>
    wrapIfNeeded
      (formatExpr target 9 ++ '<' :: formatString selector ++ '>' :: selectSuffix mode) 9 minPrec
  | .comprehension yieldExpr binding collection pred, _ =>
    '{' :: formatYield yieldExpr ++ binding ++ ' ' :: ['i', 'n'] ++ ' ' ::
      formatExpr collection 0 ++ formatPred pred ++ [' ', '}']
termination_by structural e => e

def formatItems : List Expr → List Text
  | [] => []
  | e :: es => formatExpr e 0 :: formatItems es

def formatMapEntries : List (Text × Expr) → List Text
  | [] => []
  | (key, value) :: es =>
    (formatString key ++ ' ' :: ['-', '>'] ++ ' ' :: formatExpr value 0) :: formatMapEntries es

def formatFields : List (Text × Expr) → List Text
  | [] => []
  | (name, value) :: es => (name ++ [':', ' '] ++ formatExpr value 0) :: formatFields es

def formatBagkvEntries : List (Text × Expr) → List Text
  | [] => []
  | (key, value) :: es =>
    (formatSelectorKey T key ++ ' ' :: ['-', '>'] ++ ' ' :: formatExpr value 0) ::
      formatBagkvEntries es

def formatYield : Option Expr → Text
  | none => [' ']
  | some e => [' ', 'y', 'i', 'e', 'l', 'd', ' '] ++ formatExpr e 0 ++ [' ', '|', ' ']

def formatPred : Option Expr → Text
  | none => []
  | some e => [' ', '|', ' '] ++ formatExpr e 0

end

/-! ## Programs -/

def formatSourceKind : SourceKind → Text
  | .index => "Index".toList
  | .multiIndex => "MultiIndex".toList
  | .dataset => "Dataset".toList

def formatTypeParams (typeParams : List Text) : Text :=
  if typeParams.isEmpty then [] else '[' :: joinList typeParams ++ [']']

def formatStmt : Stmt → Text
  | .let_ name e => "let ".toList ++ name ++ " = ".toList ++ formatExpr T e 0 ++ ";\n".toList
  | .expr e => formatExpr T e 0 ++ ";\n".toList
  | .source name kind typeParams =>
    "source ".toList ++ name ++ " : ".toList ++ formatSourceKind kind ++
      formatTypeParams typeParams ++ ";\n".toList

def Program.format (program : Program) : Text := program.stmts.flatMap (formatStmt T)

/-- Failures of `Program::parse`. -/
inductive SdaError where
  | lex (e : LexError)
  | parse (e : ParseError ℕ)

def normalized (source : Text) : Text :=
  let trimmed := trimEnd source
  if trimmed.getLast? = some ';' then trimmed else trimmed ++ [';']

def Program.parse (source : Text) : Except SdaError Program := do
  let text := normalized source
  let tokens ← (lex T text).mapError .lex
  (Sda.parse tokens text.length).mapError .parse

end Residiuum.Sda
