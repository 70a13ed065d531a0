/-
DepSchema.Sort — the types of values as an equality oracle sees them.

A sort forgets what a type depends on: a declared type is known by its name, an array by the sort
of its elements. A type has no sort when it is a collection whose elements are not a type.
-/
import DepSchema.Expr

namespace DepSchema

/-- The sort of a value. -/
inductive ValueSort where
  | int | unsigned | float | bool | string
  /-- The values of a declared type. -/
  | named (type : Symbol)
  | array (element : ValueSort)
  | set (element : ValueSort)
  deriving Repr, DecidableEq

/-- Whether a name occurs anywhere in the sort. -/
def ValueSort.mentions (name : Symbol) : ValueSort → Bool
  | named type => type == name
  | array element => element.mentions name
  | set element => element.mentions name
  | _ => false

mutual

/-- The sort of the values of a type; none for an expression that is not a type. -/
def Expr.sort? : Expr → Option ValueSort
  | .type _ i ps =>
    if i.name = .int then some .int
    else if i.name = .unsigned then some .unsigned
    else if i.name = .float then some .float
    else if i.name = .bool then some .bool
    else if i.name = .string then some .string
    else if i.name = .array then (Expr.elementSort? ps).map .array
    else if i.name = .set then (Expr.elementSort? ps).map .set
    else some (.named i.name)
  | _ => none
termination_by structural e => e

/-- The sort of the first of several parameters. -/
def Expr.elementSort? : List Expr → Option ValueSort
  | [] => none
  | e :: _ => e.sort?
termination_by structural es => es

end

/-- The sort of the values of a type. -/
def TypeExpr.sort? (t : TypeExpr) : Option ValueSort := t.toExpr.sort?

/-- A constructor with the sorts of its fields. -/
structure Variant where
  name : Symbol
  fields : List (Symbol × ValueSort)
  deriving Repr, DecidableEq

/-- A declared type with its constructors. -/
structure Datatype where
  name : Symbol
  ctors : List Variant
  deriving Repr, DecidableEq

/-- A function between sorts. -/
structure SortedFunction where
  name : Symbol
  params : List ValueSort
  result : ValueSort
  deriving Repr, DecidableEq

end DepSchema
