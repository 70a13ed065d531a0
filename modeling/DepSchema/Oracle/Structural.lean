/-
DepSchema.Oracle.Structural — equality without a solver.

The structural oracle calls two expressions equal when they are the same after folding. A positive
answer is always right; expressions that are equal by algebra only, such as `n + 1` and `1 + n`,
are called unequal. It never fails and accepts every declaration, the last one of a name counting.
-/
import DepSchema.Query
import DepSchema.Oracle.Sameness

namespace DepSchema

namespace Structural

/-- Whether two expressions are the same after folding. -/
def equal (expected got : Expr) : Bool := expected.fold.sameAs got.fold

/-- The oracle that compares folded expressions. -/
def oracle : Oracle
  | _, .equal expected got _ => .ok (equal expected got)
  | _, _ => .ok true

/-- The last declaration of a type among the queries. -/
def sort? (past : List Query) (name : Symbol) : Option Datatype :=
  past.reverse.findSome? fun
    | .datatype d => if d.name = name then some d else none
    | _ => none

/-- The last declaration of a function among the queries. -/
def function? (past : List Query) (name : Symbol) : Option SortedFunction :=
  past.reverse.findSome? fun
    | .function d => if d.name = name then some d else none
    | _ => none

end Structural

end DepSchema
