import Residiuum.Sda.Number

/-!
# Tokens

The lexer of `sda-core/src/lexer.rs`. The Unicode tables of the standard library are a parameter,
of which only the ASCII part and the disjointness from white space are known.

* `scan`: one turn of the lexer's loop, on the characters that are left.
* `lex`: the tokens of a text with the positions they start at.
-/

namespace Residiuum.Sda

/-- `char::is_alphabetic` and `char::is_numeric`. -/
structure CharTables where
  isAlphabetic : Char → Bool
  isNumeric : Char → Bool
  isAlphabetic_ascii : ∀ c, c.toNat < 128 → isAlphabetic c = c.isAlpha
  isNumeric_ascii : ∀ c, c.toNat < 128 → isNumeric c = c.isDigit
  isAlphabetic_space : ∀ c, isWhitespace c = true → isAlphabetic c = false

namespace CharTables

variable (T : CharTables)

def isAlphanumeric (c : Char) : Bool := T.isAlphabetic c || T.isNumeric c

def isWordStart (c : Char) : Bool := T.isAlphabetic c || c == '_'

/-- A character a word can go on with. -/
def isWordChar (c : Char) : Bool := T.isAlphanumeric c || c == '_'

variable {T} {c : Char}

theorem isWordStart_ascii (hascii : c.toNat < 128) (halpha : c.isAlpha = false) (hne : c ≠ '_') :
    T.isWordStart c = false := by
  rw [isWordStart, T.isAlphabetic_ascii c hascii, halpha]
  simpa using hne

theorem isWordChar_ascii (hascii : c.toNat < 128) (halpha : c.isAlpha = false)
    (hdigit : c.isDigit = false) (hne : c ≠ '_') : T.isWordChar c = false := by
  rw [isWordChar, isAlphanumeric, T.isAlphabetic_ascii c hascii, T.isNumeric_ascii c hascii, halpha,
    hdigit]
  simpa using hne

end CharTables

inductive TokenKind where
  | let_
  | yield_
  | null
  | true_
  | false_
  | bytes
  | seq
  | set
  | bag
  | map
  | prod
  | bagKV
  | some_
  | none_
  | ok_
  | fail_
  | union
  | inter
  | diff
  | bUnion
  | bDiff
  | in_
  | and_
  | or_
  | not_
  | arrow
  | fatArrow
  | pipe
  | eq
  | neq
  | lt
  | le
  | gt
  | ge
  | plus
  | minus
  | star
  | slash
  | concat
  | lParen
  | rParen
  | lBrack
  | rBrack
  | lBrace
  | rBrace
  | qMark
  | bang
  | colon
  | comma
  | semi
  | bar
  | selL
  | selR
  | ident (name : Text)
  | str (s : Text)
  | num (n : ExactNum)
  | placeholder
  | eof
  deriving DecidableEq

/-- A token and its place. -/
structure Token where
  kind : TokenKind
  pos : ℕ

/-- Why a text does not lex. -/
inductive LexError where
  | unexpectedChar (c : Char) (pos : ℕ)
  | unterminatedString (pos : ℕ)
  | invalidNumber (literal : Text) (pos : ℕ) (source : ParseNumError)

/-! ## Words, numbers and strings -/

/-- The words that are not identifiers, in lower case. -/
def keywords : List (Text × TokenKind) :=
  [("let".toList, .let_), ("yield".toList, .yield_), ("null".toList, .null),
    ("true".toList, .true_), ("false".toList, .false_), ("bytes".toList, .bytes),
    ("seq".toList, .seq), ("set".toList, .set), ("bag".toList, .bag), ("map".toList, .map),
    ("prod".toList, .prod), ("bagkv".toList, .bagKV), ("some".toList, .some_),
    ("none".toList, .none_), ("ok".toList, .ok_), ("fail".toList, .fail_),
    ("union".toList, .union), ("inter".toList, .inter), ("diff".toList, .diff),
    ("bunion".toList, .bUnion), ("bdiff".toList, .bDiff), ("in".toList, .in_),
    ("and".toList, .and_), ("or".toList, .or_), ("not".toList, .not_)]

/-- A word is a keyword in any case, or an identifier. -/
def wordKind (word : Text) : TokenKind :=
  match keywords.find? fun k => k.1 == word.map Char.toLower with
  | some k => k.2
  | none => .ident word

/-- The exponent of a number, if one follows. -/
def scanExponent : Text → Text × Text
  | [] => ([], [])
  | e :: cs =>
    if e = 'e' ∨ e = 'E' then
      let sign := cs.take (if cs.head? = some '+' ∨ cs.head? = some '-' then 1 else 0)
      let rest := cs.drop sign.length
      (e :: sign ++ rest.takeWhile Char.isDigit, rest.dropWhile Char.isDigit)
    else ([], e :: cs)

/-- The characters of a number, and what follows. -/
def scanNumber (cs : Text) : Text × Text :=
  let (exponent, rest) := scanExponent (cs.dropWhile isDecimalChar)
  (cs.takeWhile isDecimalChar ++ exponent, rest)

/-- What the character after a backslash stands for. -/
def unescapeChar (c : Char) : Text :=
  if c = 'n' then ['\n'] else if c = 't' then ['\t'] else if c = 'r' then ['\r']
  else if c = '"' then ['"'] else if c = '\\' then ['\\'] else ['\\', c]

/-- The string up to its closing quote, and what follows; `none` when it is not closed. -/
def scanString : Text → Option (Text × Text)
  | [] => none
  | c :: cs =>
    if c = '"' then some ([], cs)
    else if c = '\\' then
      match cs with
      | [] => none
      | e :: cs => (scanString cs).map fun sr => (unescapeChar e ++ sr.1, sr.2)
    else (scanString cs).map fun sr => (c :: sr.1, sr.2)

/-- A symbol that `next` makes another one. -/
def pairSymbol (next : Char) (long short : TokenKind) : Text → TokenKind × Text
  | [] => (short, [])
  | c :: cs => if c = next then (long, cs) else (short, c :: cs)

/-- The symbol that starts with `c`, and what follows. -/
def scanSymbol (c : Char) (cs : Text) : Option (TokenKind × Text) :=
  match c with
  | '→' => some (.arrow, cs)
  | '↦' => some (.fatArrow, cs)
  | '∈' => some (.in_, cs)
  | '∧' => some (.and_, cs)
  | '∨' => some (.or_, cs)
  | '¬' => some (.not_, cs)
  | '⟨' => some (.selL, cs)
  | '⟩' => some (.selR, cs)
  | '∣' => some (.bar, cs)
  | '∪' => some (.union, cs)
  | '∩' => some (.inter, cs)
  | '\\' => some (.diff, cs)
  | '⊎' => some (.bUnion, cs)
  | '⊖' => some (.bDiff, cs)
  | '≠' => some (.neq, cs)
  | '≤' => some (.le, cs)
  | '≥' => some (.ge, cs)
  | '•' => some (.placeholder, cs)
  | '-' => some (pairSymbol '>' .arrow .minus cs)
  | '=' => some (pairSymbol '>' .fatArrow .eq cs)
  | '!' => some (pairSymbol '=' .neq .bang cs)
  | '<' => some (pairSymbol '=' .le .lt cs)
  | '>' => some (pairSymbol '=' .ge .gt cs)
  | '|' => some (pairSymbol '>' .pipe .bar cs)
  | '+' => some (pairSymbol '+' .concat .plus cs)
  | '*' => some (.star, cs)
  | '/' => some (.slash, cs)
  | '(' => some (.lParen, cs)
  | ')' => some (.rParen, cs)
  | '[' => some (.lBrack, cs)
  | ']' => some (.rBrack, cs)
  | '{' => some (.lBrace, cs)
  | '}' => some (.rBrace, cs)
  | '?' => some (.qMark, cs)
  | ':' => some (.colon, cs)
  | ',' => some (.comma, cs)
  | ';' => some (.semi, cs)
  | _ => none

/-- One turn of the loop: a token or none, and the characters that are left. -/
abbrev Scanned : Type := Option TokenKind × Text

/-- One turn of the loop, at the character `c` at position `start`. -/
def scan (T : CharTables) (start : ℕ) (c : Char) (cs : Text) : Except LexError Scanned :=
  if isWhitespace c then .ok (none, cs)
  else if c = ';' ∧ cs.head? = some ';' then .ok (none, cs.dropWhile (· != '\n'))
  else if c.isDigit ∨ (c = '.' ∧ cs.head?.any Char.isDigit) then
    let (literal, rest) := scanNumber (c :: cs)
    match parseLiteral literal with
    | .ok n => .ok (some (.num n), rest)
    | .error source => .error (.invalidNumber literal start source)
  else if c = '"' then
    match scanString cs with
    | some (s, rest) => .ok (some (.str s), rest)
    | none => .error (.unterminatedString start)
  else if T.isWordStart c then
    if c = '_' ∧ cs.head?.all fun next => !T.isWordChar next then .ok (some .placeholder, cs)
    else .ok (some (wordKind (c :: cs.takeWhile T.isWordChar)), cs.dropWhile T.isWordChar)
  else
    match scanSymbol c cs with
    | some (kind, rest) => .ok (some kind, rest)
    | none => .error (.unexpectedChar c start)

/-- The loop of the lexer, from position `pos`; every turn leaves fewer characters than `fuel`. -/
def lexLoop (T : CharTables) : ℕ → ℕ → Text → Except LexError (List Token)
  | _, _, [] => .ok []
  | 0, _, _ => .ok []
  | fuel + 1, pos, c :: cs => do
    let (kind, rest) ← scan T pos c cs
    let tokens ← lexLoop T fuel (pos + ((c :: cs).length - rest.length)) rest
    .ok ((kind.map fun kind => ⟨kind, pos⟩).toList ++ tokens)

/-- `lex`, without the end marker. -/
def lex (T : CharTables) (src : Text) : Except LexError (List Token) := lexLoop T src.length 0 src

end Residiuum.Sda
