import Residiuum.Sda.ParseSound
import Residiuum.Sda.Relex
import Residiuum.Sda.ReparseExpr

/-!
# Formatting and reading back

`Program::parse` of the text that `Program::format` writes, for the tree of a text that
`Program::parse` accepted. The names and numbers of such a tree are those of the lexer's tokens, its
formatted text lexes to its printed tokens, and these parse to the tree, as long as the tree is
printable.

* **`format_reparses`**: a printable tree is read back.
* **`format_loses_trees`**: texts whose tree is not read back.
-/

namespace Residiuum.Sda

open Bool DescentLib List

variable {T : CharTables}

/-- The formatter keeps the program: it has a statement, and its statements are kept. -/
def Program.Printable (T : CharTables) (program : Program) : Prop :=
  program.stmts ≠ [] ∧ ∀ stmt ∈ program.stmts, PrintableStmt T stmt

theorem mapError_eq_ok {ε ε' α : Type} {f : ε → ε'} {x : Except ε α} {a : α}
    (h : x.mapError f = .ok a) : x = .ok a := by
  cases x with
  | error e => cases h
  | ok b => exact congrArg Except.ok (Except.ok.inj h)

theorem named_of_parse {src : Text} {program : Program} (h : Program.parse T src = .ok program) :
    ∀ stmt ∈ program.stmts, NamedStmt T stmt := by
  obtain ⟨tokens, hlex, hparse⟩ := ByteLib.bind_eq_ok.mp h
  have hread := mapError_eq_ok (mapError_eq_ok hparse)
  have hsound := parseProgram_sound (lex_tokens (mapError_eq_ok hlex))
  rw [hread] at hsound
  exact hsound.of_ok

/-- **A printable program is read back** from its formatted text. -/
theorem format_reparses {src : Text} {program : Program} (h : Program.parse T src = .ok program)
    (hp : program.Printable T) : Program.parse T (program.format T) = .ok program := by
  have hnamed := named_of_parse h
  obtain ⟨tokens, hlex, hkinds⟩ := lex_format hp.1 hnamed hp.2
  have hparse : parseProgram (tokens.map Token.kind) = .ok program := by
    rw [hkinds]
    exact parseProgram_tokens hnamed hp.2
  rw [Program.parse]
  rw [hlex, Except.mapError, ok_bind, Sda.parse, hparse]
  rfl

/-- `char::is_alphabetic` below U+0100. -/
def latinAlphabetic (c : Char) : Bool :=
  let n := c.toNat
  c.isAlpha || n == 0xAA || n == 0xB5 || n == 0xBA ||
    (0xC0 ≤ n && n ≤ 0xFF && n != 0xD7 && n != 0xF7)

/-- `char::is_numeric` below U+0100. -/
def latinNumeric (c : Char) : Bool :=
  let n := c.toNat
  c.isDigit || n == 0xB2 || n == 0xB3 || n == 0xB9 || (0xBC ≤ n && n ≤ 0xBE)

/-- The tables below U+0100. -/
def latin : CharTables where
  isAlphabetic := latinAlphabetic
  isNumeric := latinNumeric
  isAlphabetic_ascii := by
    intro c hc
    have hne : ∀ n ≥ 128, (c.toNat == n) = false := fun n hn => beq_eq_false_iff_ne.mpr (by omega)
    simp [latinAlphabetic, show ¬ 0xC0 ≤ c.toNat by omega, hne 0xAA, hne 0xB5, hne 0xBA]
  isNumeric_ascii := by
    intro c hc
    have hne : ∀ n ≥ 128, (c.toNat == n) = false := fun n hn => beq_eq_false_iff_ne.mpr (by omega)
    simp [latinNumeric, show ¬ 0xBC ≤ c.toNat by omega, hne 0xB2, hne 0xB3, hne 0xB9]
  isAlphabetic_space := by
    intro c hc
    simp only [isWhitespace, or_eq_true, and_eq_true, decide_eq_true_eq, beq_iff_eq] at hc
    have halpha : c.isAlpha = false := by
      rw [eq_false_iff]
      intro h
      have := isAlpha_toNat h
      omega
    simp only [latinAlphabetic, halpha, Bool.false_or, or_eq_false_iff, and_eq_false_iff,
      beq_eq_false_iff_ne, bne_eq_false_iff_eq, decide_eq_false_iff_not]
    omega

/-- The tree of `let f = x => (x + 1) * 2; f |> { y in s | not y }`. -/
def keptProgram : Program :=
  ⟨[.let_ "f".toList (.lambda "x".toList
      (.binOp .mul (.binOp .add (.ident "x".toList) (.num 1)) (.num 2))),
    .expr (.pipe (.ident "f".toList) (.comprehension none "y".toList (.ident "s".toList)
      (some (.unOp .not (.ident "y".toList)))))]⟩

theorem kept_parse : Program.parse latin
    "let f = x => (x + 1) * 2; f |> { y in s | not y }".toList = .ok keptProgram := rfl

theorem kept_printable : keptProgram.Printable latin := by
  have hleaf : ∀ {e : Expr}, PrintableNode latin e → e.operands = [] → Printable latin e :=
    fun hnode hops => .intro hnode (by rw [hops]; exact forall_mem_nil _)
  have hname : ∀ name, Printable latin (.ident name) := fun _ => hleaf trivial rfl
  have hexact : ∀ {q : ExactNum}, q.den = 2 ^ 0 * 5 ^ 0 → Exact q := fun h =>
    (exact_of_den h).mpr ⟨rfl, by decide⟩
  have hone : Printable latin (.num 1) := hleaf (hexact rfl) rfl
  have htwo : Printable latin (.num 2) := hleaf (hexact rfl) rfl
  have hsum : Printable latin (.binOp .add (.ident "x".toList) (.num 1)) :=
    .intro ⟨.inr (by decide), .inr (by decide)⟩
      (forall_mem_cons.mpr ⟨hname _, forall_mem_singleton.mpr hone⟩)
  have hproduct :
      Printable latin (.binOp .mul (.binOp .add (.ident "x".toList) (.num 1)) (.num 2)) :=
    .intro ⟨.inl (by decide), .inr (by decide)⟩
      (forall_mem_cons.mpr ⟨hsum, forall_mem_singleton.mpr htwo⟩)
  have hnot : Printable latin (.unOp .not (.ident "y".toList)) :=
    .intro trivial (forall_mem_singleton.mpr (hname _))
  have hset : Printable latin (.comprehension none "y".toList (.ident "s".toList)
      (some (.unOp .not (.ident "y".toList)))) :=
    .intro (show 7 ≤ 11 by decide)
      (forall_mem_cons.mpr ⟨hname _, forall_mem_singleton.mpr hnot⟩)
  refine ⟨cons_ne_nil _ _, forall_mem_cons.mpr ⟨?_, forall_mem_singleton.mpr ⟨?_, ?_⟩⟩⟩
  · exact .intro trivial (forall_mem_singleton.mpr hproduct)
  · exact .intro rfl (forall_mem_cons.mpr ⟨hname _, forall_mem_singleton.mpr hset⟩)
  · decide

theorem kept_program_reparses : Program.parse latin (keptProgram.format latin) = .ok keptProgram :=
  format_reparses kept_parse kept_printable

/-- The text is accepted with this tree, and its formatted text is refused or has another tree. -/
def LosesTree (src formatted : String) : Prop :=
  ∃ program, Program.parse latin src.toList = .ok program ∧
    program.format latin = formatted.toList ∧ Program.parse latin formatted.toList ≠ .ok program

/-- A text that the formatter changes, whose formatted text the formatter changes again or the
parser refuses. -/
theorem losesTree_of_format {src formatted : String}
    (hformat : (Program.parse latin src.toList).toOption.map (Program.format latin) =
      some formatted.toList)
    (hagain : (Program.parse latin formatted.toList).toOption.map (Program.format latin) ≠
      some formatted.toList) : LosesTree src formatted := by
  cases hparse : Program.parse latin src.toList with
  | error e =>
    rw [hparse] at hformat
    cases hformat
  | ok program =>
    rw [hparse] at hformat
    refine ⟨program, hparse, Option.some.inj hformat, fun h => hagain ?_⟩
    rw [h]
    exact hformat

/-- **Texts whose tree is not read back**: operators of one level, `not` and a comparison under a
comparison, a function before a pipe, the collection of a comprehension, a keyword as a key, the
word of a declaration, no statement at all, and a number that is written inexactly. -/
theorem format_loses_trees :
    LosesTree "a ++ (b + c)" "a ++ b + c;\n" ∧ LosesTree "(not a) = b" "not a = b;\n" ∧
      LosesTree "(a = b) = c" "a = b = c;\n" ∧ LosesTree "(x => x) |> f" "x => x |> f;\n" ∧
      LosesTree "\x7b x in (a union b) \x7d" "\x7b x in a union b \x7d;\n" ∧
      LosesTree "BagKV\x7b\"map\" -> a\x7d" "BagKV\x7bmap -> a\x7d;\n" ∧
      LosesTree "(source)" "source;\n" ∧ LosesTree ";;" "" ∧ LosesTree "0.5" "0.2;\n" := by
  refine ⟨⟨_, rfl, rfl, fun h => ?_⟩, ⟨_, rfl, rfl, fun h => ?_⟩, ?_, ⟨_, rfl, rfl, fun h => ?_⟩,
    ?_, ?_, ?_, ?_, ?_⟩
  all_goals first
    | cases h
    | exact losesTree_of_format (by decide +kernel) (by decide +kernel)

end Residiuum.Sda
