/-
DepSchema.Expr.Variables — the variables that occur in an expression.

Names of types, constructors, functions and fields are not variables; neither is the name of a
field after a variable.
-/
import DepSchema.Expr

namespace DepSchema.Expr

mutual

/-- The variables of an expression, from left to right, with repetitions. -/
def vars : Expr → List Symbol
  | binary _ _ l r => vars l ++ vars r
  | unary _ _ x => vars x
  | type _ _ ps => varsAll ps
  | access a => [a.var.name]
  | scalar _ _ => []
  | constructed _ _ fs => varsFields fs
  | collection _ es => varsAll es
  | call _ _ as => varsAll as
termination_by structural e => e

/-- The variables of several expressions. -/
def varsAll : List Expr → List Symbol
  | [] => []
  | e :: es => vars e ++ varsAll es
termination_by structural es => es

/-- The variables of the values of several fields. -/
def varsFields : List (Named Expr) → List Symbol
  | [] => []
  | f :: fs => vars f.val ++ varsFields fs
termination_by structural fs => fs

end

end DepSchema.Expr
