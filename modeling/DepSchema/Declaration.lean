/-
DepSchema.Declaration — what a schema declares.

A message is a record: its fields may depend on its type dependencies and on the fields before
them. An enum picks its constructors by matching its type parameters against rules. A function
maps values and functions to a value.
-/
import DepSchema.Expr

namespace DepSchema

/-! ## §1. Variables. -/

/-- A dependency of a type or a field, with its type. -/
structure Variable where
  name : Ident
  type : TypeExpr
  deriving Repr

/-- The first variable of that name. -/
def Variable.find? (vars : List Variable) (name : Symbol) : Option Variable :=
  vars.find? fun v => v.name.name == name

/-! ## §2. Types. -/

/-- One variant of an enum. -/
structure Constructor where
  ident : Ident
  fields : List Variable
  deriving Repr

/-- The name of a constructor. -/
def Constructor.name (c : Constructor) : Symbol := c.ident.name

/-- What a rule expects of one type parameter. -/
inductive RuleInput where
  /-- Any value. -/
  | any (span : Span)
  /-- A value to match; a variable alone binds what stands there. -/
  | value (value : Expr)
  deriving Repr

/-- One row of an enum: the constructors that exist when the inputs match. -/
structure Rule where
  inputs : List RuleInput
  constructors : List Constructor
  deriving Repr

/-- The constructor of that name in a rule. -/
def Rule.constructor? (r : Rule) (name : Symbol) : Option Constructor :=
  r.constructors.find? fun c => c.name == name

theorem Rule.isSome_constructor? {r : Rule} {name : Symbol} :
    (r.constructor? name).isSome ↔ ∃ c ∈ r.constructors, c.name = name := by
  simp [constructor?, List.find?_isSome]

/-- A record with type dependencies. -/
structure Message where
  ident : Ident
  deps : List Variable
  fields : List Variable
  deriving Repr

/-- The first field of that name. -/
def Message.field? (m : Message) (name : Symbol) : Option Variable := Variable.find? m.fields name

/-- A type with constructors, chosen by rules for its dependencies. -/
structure Enum where
  ident : Ident
  deps : List Variable
  rules : List Rule
  deriving Repr

namespace Enum

/-- The constructors of all rules, in order. -/
def constructors (e : Enum) : List Constructor := e.rules.flatMap Rule.constructors

/-- The first constructor of that name. -/
def constructor? (e : Enum) (name : Symbol) : Option Constructor :=
  e.constructors.find? fun c => c.name == name

end Enum

/-- A declared type. -/
inductive TypeDef where
  | message (m : Message)
  | enum (e : Enum)
  deriving Repr

/-! ## §3. Functions. -/

/-- The type of a parameter: a type of values, or a function type with parameters of its own. -/
inductive ParameterType where
  | value (type : TypeExpr)
  | function (params : List (Named ParameterType)) (result : TypeExpr)
  deriving Repr

/-- A parameter of a function, with its type. -/
abbrev Parameter := Named ParameterType

/-- The parameters and the result type of a function. -/
structure FunctionType where
  params : List Parameter
  result : TypeExpr
  deriving Repr

/-- A function of the schema. One without a body is known by its type only. -/
structure FunctionDef where
  ident : Ident
  params : List Parameter
  result : TypeExpr
  body : Option Expr
  deriving Repr

namespace FunctionDef

/-- The name of a function. -/
def name (f : FunctionDef) : Symbol := f.ident.name

/-- The type of a function. -/
def signature (f : FunctionDef) : FunctionType := ⟨f.params, f.result⟩

end FunctionDef

/-! ## §4. Kinds of names. -/

/-- What a name is declared as. -/
inductive NameKind where
  | message | enum | constructor | function | dependency | field | parameter
  deriving Repr, DecidableEq

/-- The kind as it is written. -/
def NameKind.text : NameKind → String
  | message => "message"
  | enum => "enum"
  | constructor => "constructor"
  | function => "function"
  | dependency => "dependency"
  | field => "field"
  | parameter => "parameter"

namespace TypeDef

/-- The name of a type, where it is declared. -/
def ident : TypeDef → Ident
  | message m => m.ident
  | enum e => e.ident

/-- The name of a type. -/
def name (d : TypeDef) : Symbol := d.ident.name

/-- The dependencies that a use of the type gives parameters for. -/
def deps : TypeDef → List Variable
  | message m => m.deps
  | enum e => e.deps

/-- What the name of the type is declared as. -/
def kind : TypeDef → NameKind
  | message _ => .message
  | enum _ => .enum

/-- The constructors of a type. A message is its own only constructor. -/
def constructors : TypeDef → List Constructor
  | message m => [⟨m.ident, m.fields⟩]
  | enum e => e.constructors

/-- The first constructor of that name. -/
def constructor? (d : TypeDef) (name : Symbol) : Option Constructor :=
  d.constructors.find? fun c => c.name == name

end TypeDef

end DepSchema
