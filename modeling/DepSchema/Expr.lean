/-
DepSchema.Expr — expressions of the schema language.

Types are applied to expressions, so one tree serves for both: `Array(Int, n + 1)` is a type whose
second parameter is a value. A `TypeExpr` is an expression known to be a type, an `Access` one
known to be a variable with a chain of fields behind it.
-/
import DepSchema.Span
import DepSchema.Binary64

namespace DepSchema

/-! ## §1. Operators and literals. -/

/-- The operators between two values. The last three work on collections, `mem` asks for membership.
-/
inductive BinaryOp where
  | add | sub | mul | div | and | or | mem | union | inter | diff
  deriving Repr, DecidableEq

/-- The operator as it is written. -/
def BinaryOp.text : BinaryOp → String
  | add => "+"
  | sub => "-"
  | mul => "*"
  | div => "/"
  | and => "&"
  | or => "|"
  | mem => "in"
  | union => "\\/"
  | inter => "/\\"
  | diff => "\\"

/-- The operators before one value. -/
inductive UnaryOp where
  | neg | not
  deriving Repr, DecidableEq

/-- The operator as it is written. -/
def UnaryOp.text : UnaryOp → String
  | neg => "-"
  | not => "!"

/-- A literal. Integers have 64 bits, with or without a sign. -/
inductive Scalar where
  | bool (value : Bool)
  | int (value : Int64)
  | unsigned (value : UInt64)
  | float (value : Binary64)
  | string (value : String)
  deriving Repr, DecidableEq

/-- The builtin type that a literal belongs to. -/
def Scalar.type : Scalar → Symbol
  | bool _ => .bool
  | int _ => .int
  | unsigned _ => .unsigned
  | float _ => .float
  | string _ => .string

/-! ## §2. Expressions. -/

/-- A variable and the fields taken from it, as in `x.f.g`. -/
structure Access where
  span : Span
  var : Ident
  fields : List Ident
  deriving Repr, DecidableEq

/-- An expression. `constructed` is a value written with its constructor, as in `Point{x: 1}`;
`collection` is `[a, b]`, an array or a set; `call` may supply fewer arguments than the function
has parameters. -/
inductive Expr where
  | binary (span : Span) (op : BinaryOp) (left right : Expr)
  | unary (span : Span) (op : UnaryOp) (operand : Expr)
  | type (span : Span) (ident : Ident) (params : List Expr)
  | access (access : Access)
  | scalar (span : Span) (value : Scalar)
  | constructed (span : Span) (ctor : Ident) (fields : List (Named Expr))
  | collection (span : Span) (elements : List Expr)
  | call (span : Span) (function : Ident) (args : List Expr)
  deriving Repr

/-- A type applied to its parameters. -/
structure TypeExpr where
  span : Span
  ident : Ident
  params : List Expr
  deriving Repr

namespace Access

/-- The access with one more field behind it. -/
def field (a : Access) (f : Ident) : Access := { a with fields := a.fields ++ [f] }

/-- A variable alone, with no field taken from it. -/
def isVar (a : Access) : Bool := a.fields.isEmpty

/-- The access of a variable alone. -/
def ofVar (v : Ident) : Access := ⟨v.span, v, []⟩

end Access

namespace TypeExpr

/-- A type is an expression. -/
def toExpr (t : TypeExpr) : Expr := .type t.span t.ident t.params

/-- The name of the type, without its parameters. -/
def name (t : TypeExpr) : Symbol := t.ident.name

/-- A builtin type without parameters, at some place. -/
def builtin (name : Symbol) (span : Span) : TypeExpr := ⟨span, ⟨name, span⟩, []⟩

end TypeExpr

namespace Expr

/-- The place of an expression itself. -/
def span : Expr → Span
  | binary s _ _ _ => s
  | unary s _ _ => s
  | type s _ _ => s
  | access a => a.span
  | scalar s _ => s
  | constructed s _ _ => s
  | collection s _ => s
  | call s _ _ => s

/-- The same expression at another place; what is inside keeps its own. -/
def withSpan (s : Span) : Expr → Expr
  | binary _ op l r => binary s op l r
  | unary _ op x => unary s op x
  | type _ i ps => type s i ps
  | access a => access { a with span := s }
  | scalar _ v => scalar s v
  | constructed _ c fs => constructed s c fs
  | collection _ es => collection s es
  | call _ f as => call s f as

/-- The variable with its fields that an expression is, if it is one. -/
def access? : Expr → Option Access
  | access a => some a
  | _ => none

/-- The type that an expression is, if it is one. -/
def type? : Expr → Option TypeExpr
  | type s i ps => some ⟨s, i, ps⟩
  | _ => none

/-- The literal that an expression is, if it is one. -/
def scalar? : Expr → Option Scalar
  | scalar _ v => some v
  | _ => none

/-- A variable alone: what a pattern binds rather than compares. -/
def bareVar? : Expr → Option Ident
  | access a => if a.isVar then some a.var else none
  | _ => none

/-- A variable alone, as an expression. -/
def ofVar (v : Ident) : Expr := access (Access.ofVar v)

end Expr

end DepSchema
