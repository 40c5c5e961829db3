import Residiuum.Sda.Number

/-!
# Syntax trees

The trees of `sda-core/src/ast.rs`. `Expr.ind` is the induction principle the proofs use: every
part of an expression is in `Expr.parts`.
-/

namespace Residiuum.Sda

open List

/-- Binary operators. -/
inductive BinOpKind where
  | add
  | sub
  | mul
  | div
  | concat
  | eq
  | neq
  | lt
  | le
  | gt
  | ge
  | and
  | or
  | union
  | inter
  | diff
  | bUnion
  | bDiff
  | in_
  deriving DecidableEq, Repr

/-- Unary operators. -/
inductive UnOpKind where
  | neg
  | not
  deriving DecidableEq, Repr

/-- How a selector treats a missing field. -/
inductive SelectMode where
  | plain
  | optional
  | required
  deriving DecidableEq, Repr

inductive Expr where
  | null
  | bool (b : Bool)
  | num (n : ExactNum)
  | str (s : Text)
  | bytes (b : List UInt8)
  | ident (name : Text)
  | placeholder
  | seq (items : List Expr)
  | set (items : List Expr)
  | bag (items : List Expr)
  | map (entries : List (Text × Expr))
  | prod (fields : List (Text × Expr))
  | bagKV (entries : List (Text × Expr))
  | some_ (e : Expr)
  | none_
  | ok_ (e : Expr)
  | fail_ (code msg : Expr)
  | binOp (op : BinOpKind) (lhs rhs : Expr)
  | unOp (op : UnOpKind) (e : Expr)
  | pipe (lhs rhs : Expr)
  | lambda (param : Text) (body : Expr)
  | call (callee : Expr) (args : List Expr)
  | select (target : Expr) (selector : Text) (mode : SelectMode)
  | enrich (fields : List (Text × Expr))
  | comprehension (yieldExpr : Option Expr) (binding : Text) (collection : Expr)
      (pred : Option Expr)

/-- What a `source` declaration claims about its keys. -/
inductive SourceKind where
  | index
  | multiIndex
  | dataset
  deriving DecidableEq, Repr

inductive Stmt where
  | let_ (name : Text) (e : Expr)
  | expr (e : Expr)
  | source (name : Text) (kind : SourceKind) (typeParams : List Text)

structure Program where
  stmts : List Stmt

def Expr.parts : Expr → List Expr
  | .seq items | .set items | .bag items => items
  | .map es | .prod es | .bagKV es | .enrich es => es.map Prod.snd
  | .some_ e | .ok_ e | .unOp _ e | .lambda _ e | .select e _ _ => [e]
  | .fail_ a b | .binOp _ a b | .pipe a b => [a, b]
  | .call callee args => callee :: args
  | .comprehension y _ c p => y.toList ++ c :: p.toList
  | .null | .bool _ | .num _ | .str _ | .bytes _ | .ident _ | .placeholder | .none_ => []

variable {p : Expr}

theorem sizeOf_of_mem_snd {es : List (Text × Expr)} (h : p ∈ es.map Prod.snd) :
    sizeOf p < sizeOf es := by
  obtain ⟨⟨k, e⟩, he, rfl⟩ := mem_map.mp h
  have := sizeOf_lt_of_mem he
  simp only [Prod.mk.sizeOf_spec] at this
  dsimp only
  omega

theorem sizeOf_of_mem_toList {o : Option Expr} (h : p ∈ o.toList) : sizeOf p < sizeOf o := by
  cases o with
  | none => cases h
  | some e =>
    obtain rfl : p = e := by simpa using h
    simp

theorem Expr.sizeOf_part {e p : Expr} (h : p ∈ e.parts) : sizeOf p < sizeOf e := by
  cases e with
  | null | bool | num | str | bytes | ident | placeholder | none_ => cases h
  | seq items | set items | bag items =>
    have : sizeOf p < sizeOf items := sizeOf_lt_of_mem h
    simp only [seq.sizeOf_spec, set.sizeOf_spec, bag.sizeOf_spec]
    omega
  | map es | prod es | bagKV es | enrich es =>
    have : sizeOf p < sizeOf es := sizeOf_of_mem_snd h
    simp only [map.sizeOf_spec, prod.sizeOf_spec, bagKV.sizeOf_spec, enrich.sizeOf_spec]
    omega
  | some_ e | ok_ e | unOp _ e | lambda _ e | select e _ _ =>
    obtain rfl := mem_singleton.mp h
    simp only [some_.sizeOf_spec, ok_.sizeOf_spec, unOp.sizeOf_spec, lambda.sizeOf_spec,
      select.sizeOf_spec]
    omega
  | fail_ a b | binOp _ a b | pipe a b =>
    simp only [parts, mem_cons, not_mem_nil, or_false] at h
    simp only [fail_.sizeOf_spec, binOp.sizeOf_spec, pipe.sizeOf_spec]
    rcases h with rfl | rfl <;> omega
  | call callee args =>
    simp only [call.sizeOf_spec]
    rcases mem_cons.mp h with rfl | h
    · omega
    · have := sizeOf_lt_of_mem h
      omega
  | comprehension y _ c q =>
    simp only [comprehension.sizeOf_spec]
    rcases mem_append.mp h with h | h
    · have := sizeOf_of_mem_toList h
      omega
    · rcases mem_cons.mp h with rfl | h
      · omega
      · have := sizeOf_of_mem_toList h
        omega

theorem Expr.ind {P : Expr → Prop} (step : ∀ e, (∀ p ∈ e.parts, P p) → P e) (e : Expr) : P e :=
  step e fun p hp =>
    have := Expr.sizeOf_part hp
    Expr.ind step p
termination_by sizeOf e

end Residiuum.Sda
