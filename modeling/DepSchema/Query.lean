/-
DepSchema.Query — what the checks ask an equality oracle.

Whether two expressions are equal for all values of their variables is left to an oracle. It is
told each declared type and each function between sorts, and then asked about pairs of expressions
in the scope in which they stand. An oracle may remember: its answer is a function of all queries
made before. It may also fail, and then the check fails.
-/
import DepSchema.Scopes
import DepSchema.Sort
import DepSchema.Declaration
import DepSchema.Expr.Variables

namespace DepSchema

/-- What a name in scope stands for. -/
inductive Binding where
  /-- A value of that type. -/
  | value (type : TypeExpr)
  /-- A function of that type. -/
  | function (type : FunctionType)
  deriving Repr

/-- The sort of a bound name. A function has none. -/
def Binding.sort? : Binding → Option ValueSort
  | value type => type.sort?
  | function _ => none

/-- The sort of a variable in a scope. -/
def Scopes.sortOf? (scope : Scopes Binding) (var : Symbol) : Option ValueSort :=
  (scope.find? var).bind Binding.sort?

/-- One call of the oracle. -/
inductive Query where
  /-- Declares a type. -/
  | datatype (decl : Datatype)
  /-- Declares a function. -/
  | function (decl : SortedFunction)
  /-- Whether two expressions are equal for all values of the variables in scope. -/
  | equal (expected got : Expr) (scope : Scopes Binding)
  deriving Repr

/-- The variables of two compared expressions, each once, in the order in which they occur. -/
def Query.vars : Query → List Symbol
  | equal expected got _ => (expected.vars ++ got.vars).eraseDups
  | _ => []

/-- An oracle that gives no answer. -/
structure OracleFailure where
  message : String
  span : Option Span
  deriving Repr, DecidableEq

/-- A procedure that answers queries, given the queries before. Either answer to a declaration
accepts it. -/
abbrev Oracle := List Query → Query → Except OracleFailure Bool

/-- The oracle that fails at the query with `k` queries before it and else answers like `o`. -/
def Oracle.failingAt (o : Oracle) (k : Nat) (e : OracleFailure) : Oracle :=
  fun past q => if past.length = k then .error e else o past q

end DepSchema
