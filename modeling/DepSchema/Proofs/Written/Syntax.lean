/-
DepSchema.Proofs.Written.Syntax — declarations as they are written, and their layouts.

A written declaration has its names as texts and no places. To lay it out over a symbol table is
to replace each text by the handle that the table gives it, and to put every node somewhere. A
collection of written declarations may be laid out in many ways: over any table that knows its
names, at any places, and in any order.

Main definition: `LaidOut`.
-/
import DepSchema.Proofs.Interning
import DepSchema.Proofs.Registry

namespace DepSchema

namespace Written

/-- The identifier has the handle that the table gives to the text. -/
def Spells (t : SymbolTable) (text : String) (i : Ident) : Prop := t.find? text = some i.name

instance (t : SymbolTable) (text : String) (i : Ident) : Decidable (Spells t text i) :=
  inferInstanceAs (Decidable (_ = _))

/-! ## §1. Expressions and types. -/

/-- An expression without places. -/
inductive Expr where
  | binary (op : BinaryOp) (left right : Expr)
  | unary (op : UnaryOp) (operand : Expr)
  | type (name : String) (params : List Expr)
  | access (var : String) (fields : List String)
  | scalar (value : Scalar)
  | constructed (ctor : String) (fields : List (String × Expr))
  | collection (elements : List Expr)
  | call (function : String) (args : List Expr)

namespace Expr

mutual

/-- The expression is laid out over a table. -/
inductive Laid (t : SymbolTable) : Expr → DepSchema.Expr → Prop
  | binary {op l r l' r'} (span : Span) (left : Laid t l l') (right : Laid t r r') :
    Laid t (.binary op l r) (.binary span op l' r')
  | unary {op x x'} (span : Span) (operand : Laid t x x') :
    Laid t (.unary op x) (.unary span op x')
  | type {name i ps ps'} (span : Span) (ident : Spells t name i) (params : LaidAll t ps ps') :
    Laid t (.type name ps) (.type span i ps')
  | access {var fields} {a : Access} (ident : Spells t var a.var)
    (path : List.Forall₂ (Spells t) fields a.fields) : Laid t (.access var fields) (.access a)
  | scalar (span : Span) (v : Scalar) : Laid t (.scalar v) (.scalar span v)
  | constructed {ctor c fs fs'} (span : Span) (ident : Spells t ctor c)
    (values : LaidFields t fs fs') : Laid t (.constructed ctor fs) (.constructed span c fs')
  | collection {es es'} (span : Span) (elements : LaidAll t es es') :
    Laid t (.collection es) (.collection span es')
  | call {name f as as'} (span : Span) (ident : Spells t name f) (args : LaidAll t as as') :
    Laid t (.call name as) (.call span f as')

/-- Several expressions are laid out one by one. -/
inductive LaidAll (t : SymbolTable) : List Expr → List DepSchema.Expr → Prop
  | nil : LaidAll t [] []
  | cons {e e' es es'} (head : Laid t e e') (tail : LaidAll t es es') :
    LaidAll t (e :: es) (e' :: es')

/-- The values of fields are laid out with the names of the fields. -/
inductive LaidFields (t : SymbolTable) : List (String × Expr) → List (Named DepSchema.Expr) → Prop
  | nil : LaidFields t [] []
  | cons {name i e e' fs fs'} (ident : Spells t name i) (head : Laid t e e')
    (tail : LaidFields t fs fs') : LaidFields t ((name, e) :: fs) (⟨i, e'⟩ :: fs')

end

end Expr

/-- A type without places. -/
structure TypeExpr where
  name : String
  params : List Expr

/-- The type is laid out over a table. -/
structure TypeExpr.Laid (t : SymbolTable) (w : TypeExpr) (e : DepSchema.TypeExpr) : Prop where
  ident : Spells t w.name e.ident
  params : Expr.LaidAll t w.params e.params

/-! ## §2. Types that are declared. -/

/-- A dependency or a field without places. -/
structure Variable where
  name : String
  type : TypeExpr

/-- The dependency or field is laid out over a table. -/
structure Variable.Laid (t : SymbolTable) (w : Variable) (v : DepSchema.Variable) : Prop where
  ident : Spells t w.name v.name
  type : w.type.Laid t v.type

/-- A variant of an enum without places. -/
structure Constructor where
  name : String
  fields : List Variable

/-- The variant is laid out over a table. -/
structure Constructor.Laid (t : SymbolTable) (w : Constructor) (c : DepSchema.Constructor) :
    Prop where
  ident : Spells t w.name c.ident
  fields : List.Forall₂ (Variable.Laid t) w.fields c.fields

/-- An input of a rule without places. -/
inductive RuleInput where
  | any
  | value (e : Expr)

/-- The input is laid out over a table. -/
inductive RuleInput.Laid (t : SymbolTable) : RuleInput → DepSchema.RuleInput → Prop
  | any (span : Span) : Laid t .any (.any span)
  | value {w e} (expr : Expr.Laid t w e) : Laid t (.value w) (.value e)

/-- A row of an enum without places. -/
structure Rule where
  inputs : List RuleInput
  constructors : List Constructor

/-- The row is laid out over a table. -/
structure Rule.Laid (t : SymbolTable) (w : Rule) (r : DepSchema.Rule) : Prop where
  inputs : List.Forall₂ (RuleInput.Laid t) w.inputs r.inputs
  constructors : List.Forall₂ (Constructor.Laid t) w.constructors r.constructors

/-! ## §3. Declarations. -/

/-- The type of a parameter without places. -/
inductive ParameterType where
  | value (type : TypeExpr)
  | function (params : List (String × ParameterType)) (result : TypeExpr)

namespace ParameterType

mutual

/-- The type of a parameter is laid out over a table. -/
inductive Laid (t : SymbolTable) : ParameterType → DepSchema.ParameterType → Prop
  | value {w e} (type : TypeExpr.Laid t w e) : Laid t (.value w) (.value e)
  | function {ps ps' w e} (params : LaidAll t ps ps') (result : TypeExpr.Laid t w e) :
    Laid t (.function ps w) (.function ps' e)

/-- Parameters are laid out with their names. -/
inductive LaidAll (t : SymbolTable) :
    List (String × ParameterType) → List (Named DepSchema.ParameterType) → Prop
  | nil : LaidAll t [] []
  | cons {name i p p' ps ps'} (ident : Spells t name i) (head : Laid t p p')
    (tail : LaidAll t ps ps') : LaidAll t ((name, p) :: ps) (⟨i, p'⟩ :: ps')

end

end ParameterType

/-- A declaration without places. -/
inductive Declaration where
  | message (name : String) (deps fields : List Variable)
  | enum (name : String) (deps : List Variable) (rules : List Rule)
  | function (name : String) (params : List (String × ParameterType)) (result : TypeExpr)
    (body : Option Expr)

/-- The declaration is laid out over a table. -/
inductive Declaration.Laid (t : SymbolTable) : Declaration → DepSchema.Declaration → Prop
  | message {name vs ws} {m : Message} (ident : Spells t name m.ident)
    (deps : List.Forall₂ (Variable.Laid t) vs m.deps)
    (fields : List.Forall₂ (Variable.Laid t) ws m.fields) :
    Laid t (.message name vs ws) (.type (.message m))
  | enum {name vs rs} {e : Enum} (ident : Spells t name e.ident)
    (deps : List.Forall₂ (Variable.Laid t) vs e.deps)
    (rules : List.Forall₂ (Rule.Laid t) rs e.rules) : Laid t (.enum name vs rs) (.type (.enum e))
  | function {name ps w e} {f : FunctionDef} (ident : Spells t name f.ident)
    (params : ParameterType.LaidAll t ps f.params) (result : w.Laid t f.result)
    (body : Option.Rel (Expr.Laid t) e f.body) : Laid t (.function name ps w e) (.function f)

/-- The declarations lay out the written ones, each of them once and in whatever order, over a
table that interning gives. -/
structure LaidOut (ws : List Declaration) (t : SymbolTable) (ds : List DepSchema.Declaration) :
    Prop where
  table : t.Sound
  laid : ∃ ws', ws'.Perm ws ∧ List.Forall₂ (Declaration.Laid t) ws' ds

end Written

end DepSchema
