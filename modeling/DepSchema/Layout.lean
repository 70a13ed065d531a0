/-
DepSchema.Layout — building a schema without a text.

A schema that is put together by hand still needs a place for every node. `Layout` keeps a symbol
table and a cursor on an imaginary text: each name and each node is given the span that starts at
the cursor and is as long as its writing, and the cursor moves on by that length and one more.
-/
import DepSchema.Schema
import DepSchema.Symbol.Table
import DepSchema.Decimal.Form

namespace DepSchema

/-- The table of names and the cursor. -/
structure Layout where
  table : SymbolTable
  cursor : Nat
  deriving Repr

/-- A part of a schema that is still to be given its names and places. -/
abbrev Placed (α : Type) := StateM Layout α

namespace Placed

/-- Builds something on a table, from the start of the text. -/
def runOn {α : Type} (x : Placed α) (table : SymbolTable) : α × SymbolTable :=
  let (a, layout) := x.run ⟨table, 0⟩
  (a, layout.table)

/-! ## §1. Names and spans. -/

/-- The next span of that length. -/
def next (length : Nat) : Placed Span :=
  modifyGet fun l => (⟨l.cursor, length⟩, { l with cursor := l.cursor + length + 1 })

/-- The handle of a name that is written nowhere. -/
def symbol (text : String) : Placed Symbol :=
  modifyGet fun l => let (s, table) := l.table.intern text; (s, { l with table })

/-- A name at its own place. -/
def ident (text : String) : Placed Ident := do
  let name ← symbol text
  let span ← next text.utf8ByteSize
  pure ⟨name, span⟩

/-! ## §2. Expressions. Parts are built before the whole. -/

/-- The width of a literal. -/
def literalWidth : Scalar → Nat
  | .bool b => if b then 4 else 5
  | .int v => (toString v.toInt).utf8ByteSize
  | .unsigned v => (toString v.toNat).utf8ByteSize + 1
  | .float v => (Form.plain.text v).utf8ByteSize
  | .string s => s.utf8ByteSize + 2

/-- A literal. -/
def scalar (v : Scalar) : Placed Expr := do
  pure (.scalar (← next (literalWidth v)) v)

/-- A type at the place of its name. -/
def type (name : String) (params : List Expr) : Placed TypeExpr := do
  let i ← ident name
  pure ⟨i.span, i, params⟩

/-- A variable and its fields from a text with points between them. -/
def access (path : String) : Placed Access := do
  match ← (path.splitOn ".").mapM ident with
  | var :: fields => pure ⟨var.span, var, fields⟩
  | [] => pure (Access.ofVar (← ident path))

/-- An operator between two operands, as wide as the operator. -/
def binary (op : BinaryOp) (left right : Expr) : Placed Expr := do
  pure (.binary (← next op.text.utf8ByteSize) op left right)

/-- An operator before an operand. -/
def unary (op : UnaryOp) (operand : Expr) : Placed Expr := do
  pure (.unary (← next 1) op operand)

/-- A constructed value at the place of its constructor, which is written before the field names. -/
def constructed (ctor : String) (fields : List (String × Expr)) : Placed Expr := do
  let c ← ident ctor
  let fields ← fields.mapM fun (name, value) => do pure (⟨← ident name, value⟩ : Named Expr)
  pure (.constructed c.span c fields)

/-- A collection, as wide as its two brackets. -/
def collection (elements : List Expr) : Placed Expr := do
  pure (.collection (← next 2) elements)

/-- A call at the place of the function name. -/
def call (function : String) (args : List Expr) : Placed Expr := do
  let f ← ident function
  pure (.call f.span f args)

/-! ## §3. Declarations. -/

/-- A dependency or a field. -/
def field (name : String) (type : TypeExpr) : Placed Variable := do
  pure ⟨← ident name, type⟩

/-- A rule input that takes any value. -/
def anyInput : Placed RuleInput := do pure (.any (← next 1))

/-- A constructor of an enum. -/
def constructor (name : String) (fields : List Variable) : Placed Constructor := do
  pure ⟨← ident name, fields⟩

/-- A message. -/
def message (name : String) (deps fields : List Variable) : Placed Message := do
  pure ⟨← ident name, deps, fields⟩

/-- An enum. -/
def enum (name : String) (deps : List Variable) (rules : List Rule) : Placed Enum := do
  pure ⟨← ident name, deps, rules⟩

/-- A parameter of a function. -/
def parameter (name : String) (type : ParameterType) : Placed Parameter := do
  pure ⟨← ident name, type⟩

/-- A function, with or without a body. -/
def function (name : String) (params : List Parameter) (result : TypeExpr) (body : Option Expr) :
    Placed FunctionDef := do
  pure ⟨← ident name, params, result, body⟩

end Placed

end DepSchema
