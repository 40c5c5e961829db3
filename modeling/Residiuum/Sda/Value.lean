import Residiuum.Lib.Matching
import Residiuum.Sda.Ast

/-!
# Values and their equality

The values of `sda-core/src/lib.rs` and the equality the evaluator compares them with. Each kind of
collection has a comparison loop of its own.

* `Value.parts`, `Value.ind`: the direct parts of a value, and induction over them.
-/

namespace Residiuum.Sda

open List MatchLib

/-- Values of the language. -/
inductive Value where
  | null
  | bool (b : Bool)
  | num (n : ExactNum)
  | str (s : Text)
  | bytes (b : List UInt8)
  | seq (items : List Value)
  | set (items : List Value)
  | bag (items : List Value)
  | map (entries : List (Text × Value))
  | prod (fields : List (Text × Value))
  | bagKV (pairs : List (Value × Value))
  | bind (key val : Value)
  | some_ (v : Value)
  | none_
  | ok_ (v : Value)
  | fail_ (code msg : Text)
  | lambda (param : Text) (body : Expr) (env : List (Text × Value))

/-! ## Equality -/

mutual

def Value.eq : Value → Value → Bool
  | .null, .null => true
  | .bool a, .bool b => a == b
  | .num a, .num b => a == b
  | .str a, .str b => a == b
  | .bytes a, .bytes b => a == b
  | .seq a, .seq b => Value.seqEqual a b
  | .set a, .set b => a.length == b.length && Value.setEqual a b
  | .bag a, .bag b => a.length == b.length && Value.multisetEqual a (b.map fun x => (false, x))
  | .map a, .map b => a.length == b.length && Value.kvExtensionalEqual a b
  | .prod a, .prod b => a.length == b.length && Value.kvExtensionalEqual a b
  | .bagKV a, .bagKV b => a.length == b.length && Value.bagkvEqual a (b.map fun x => (false, x))
  | .bind k1 v1, .bind k2 v2 => k1.eq k2 && v1.eq v2
  | .some_ a, .some_ b => a.eq b
  | .none_, .none_ => true
  | .ok_ a, .ok_ b => a.eq b
  | .fail_ c1 m1, .fail_ c2 m2 => c1 == c2 && m1 == m2
  | _, _ => false
termination_by structural x => x

def Value.seqEqual : List Value → List Value → Bool
  | [], [] => true
  | a :: as, b :: bs => a.eq b && Value.seqEqual as bs
  | _, _ => false

/-- The loop of `set_equal`: every left value equals some right value. -/
def Value.setEqual : List Value → List Value → Bool
  | [], _ => true
  | a :: as, right => (right.any fun b => a.eq b) && Value.setEqual as right

/-- The loop of `multiset_equal`, with the flags of `matched` beside the right values. -/
def Value.multisetEqual : List Value → List (Bool × Value) → Bool
  | [], _ => true
  | a :: as, right =>
    match markFirst (fun b => a.eq b) right with
    | some right => Value.multisetEqual as right
    | none => false

def Value.kvExtensionalEqual : List (Text × Value) → List (Text × Value) → Bool
  | [], _ => true
  | (key, a) :: as, right =>
    ((right.find? fun e => e.1 == key).any fun e => a.eq e.2) && Value.kvExtensionalEqual as right

def Value.bagkvEqual : List (Value × Value) → List (Bool × (Value × Value)) → Bool
  | [], _ => true
  | (k, a) :: as, right =>
    match markFirst (fun e => k.eq e.1 && a.eq e.2) right with
    | some right => Value.bagkvEqual as right
    | none => false

end

namespace Value

theorem seqEqual_iff {a b : List Value} :
    seqEqual a b = true ↔ List.Forall₂ (fun x y => x.eq y = true) a b := by
  induction a generalizing b with
  | nil => cases b <;> simp [seqEqual]
  | cons x a ih => cases b <;> simp [seqEqual, ih]

theorem setEqual_eq (a b : List Value) : setEqual a b = a.all fun x => b.any (x.eq ·) := by
  induction a with
  | nil => rfl
  | cons x a ih => rw [setEqual, ih, all_cons]

theorem multisetEqual_eq (a : List Value) (b : List (Bool × Value)) :
    multisetEqual a b = matchAll Value.eq a b := by
  induction a generalizing b with
  | nil => rfl
  | cons x a ih =>
    rw [multisetEqual, matchAll]
    cases markFirst (fun y => x.eq y) b with
    | none => rfl
    | some b => exact ih b

theorem kvExtensionalEqual_eq (a b : List (Text × Value)) : kvExtensionalEqual a b =
    a.all fun x => (b.find? fun y => y.1 == x.1).any fun y => x.2.eq y.2 := by
  induction a with
  | nil => rfl
  | cons x a ih => rw [kvExtensionalEqual, ih, all_cons]

theorem bagkvEqual_eq (a : List (Value × Value)) (b : List (Bool × (Value × Value))) :
    bagkvEqual a b = matchAll (fun x y => x.1.eq y.1 && x.2.eq y.2) a b := by
  induction a generalizing b with
  | nil => rfl
  | cons x a ih =>
    rw [bagkvEqual, matchAll]
    cases markFirst (fun y => x.1.eq y.1 && x.2.eq y.2) b with
    | none => rfl
    | some b => exact ih b

/-! ## Parts -/

/-- The direct parts of a value; the environment of a function is not one. -/
def parts : Value → List Value
  | .seq items | .set items | .bag items => items
  | .map es | .prod es => es.map Prod.snd
  | .bagKV ps => ps.map Prod.fst ++ ps.map Prod.snd
  | .bind k v => [k, v]
  | .some_ v | .ok_ v => [v]
  | .null | .bool _ | .num _ | .str _ | .bytes _ | .none_ | .fail_ _ _ | .lambda _ _ _ => []

theorem sizeOf_part {v p : Value} (h : p ∈ v.parts) : sizeOf p < sizeOf v := by
  cases v with
  | null | bool | num | str | bytes | none_ | fail_ | lambda => cases h
  | seq items | set items | bag items =>
    have : sizeOf p < sizeOf items := sizeOf_lt_of_mem h
    simp only [seq.sizeOf_spec, set.sizeOf_spec, bag.sizeOf_spec]
    omega
  | map es | prod es =>
    obtain ⟨⟨k, e⟩, he, rfl⟩ := mem_map.mp h
    have := sizeOf_lt_of_mem he
    simp only [Prod.mk.sizeOf_spec] at this
    simp only [map.sizeOf_spec, prod.sizeOf_spec]
    omega
  | bagKV ps =>
    simp only [bagKV.sizeOf_spec]
    rcases mem_append.mp h with h | h
    all_goals
      obtain ⟨⟨k, e⟩, he, rfl⟩ := mem_map.mp h
      have := sizeOf_lt_of_mem he
      simp only [Prod.mk.sizeOf_spec] at this
      dsimp only
      omega
  | bind k v =>
    simp only [parts, mem_cons, not_mem_nil, or_false] at h
    simp only [bind.sizeOf_spec]
    rcases h with rfl | rfl <;> omega
  | some_ v | ok_ v =>
    obtain rfl := mem_singleton.mp h
    simp only [some_.sizeOf_spec, ok_.sizeOf_spec]
    omega

theorem ind {P : Value → Prop} (step : ∀ v, (∀ p ∈ v.parts, P p) → P v) (v : Value) : P v :=
  step v fun p hp =>
    have := sizeOf_part hp
    ind step p
termination_by sizeOf v

/-- `p` holds of the value and of every part, at every depth. -/
inductive Every (p : Value → Prop) : Value → Prop
  | intro {v : Value} : p v → (∀ w ∈ v.parts, Every p w) → Every p v

variable {v w : Value} {p : Value → Prop}

theorem Every.here (h : Every p v) : p v := by
  cases h with
  | intro hv _ => exact hv

theorem Every.part (h : Every p v) (hw : w ∈ v.parts) : Every p w := by
  cases h with
  | intro _ hparts => exact hparts w hw

def NoFn : Value → Prop
  | .lambda _ _ _ => False
  | _ => True

/-- The members of a set, or the keys of a map or product, are distinct. -/
def Separate : Value → Prop
  | .set items => items.Pairwise fun a b => a.eq b = false
  | .map es | .prod es => (es.map Prod.fst).Nodup
  | _ => True

/-- A value without functions, with distinct keys and members at every depth. -/
def Plain (v : Value) : Prop := Every (fun w => NoFn w ∧ Separate w) v

theorem Plain.noFn (h : Plain v) : NoFn v := (Every.here h).1

theorem Plain.separate (h : Plain v) : Separate v := (Every.here h).2

theorem Plain.part (h : Plain v) (hw : w ∈ v.parts) : Plain w := Every.part h hw

end Value

end Residiuum.Sda
