/-
DepSchema.Substitution — replacing variables by expressions.

Bindings live in scopes. `add` first applies the bindings that are already there to the new
expression, so that what is stored is never substituted again; `bind` stores an expression as
it is. A variable with fields behind it is replaced by following the fields into the expression
that the variable stands for, which can fail.
-/
import DepSchema.Scopes
import DepSchema.Expr.Print

namespace DepSchema

/-! ## §1. Following fields. -/

/-- Why a field cannot be taken from an expression. -/
inductive AccessFault where
  /-- The expression is a literal. -/
  | scalar
  /-- The expression is a constructed value without that field. -/
  | missing
  /-- The expression is neither a value with fields nor a variable. -/
  | illFormed
  deriving Repr, DecidableEq

/-- A field that cannot be taken. -/
structure AccessError where
  fault : AccessFault
  field : Ident
  deriving Repr, DecidableEq

/-- What the error says, without the field. -/
def AccessFault.text : AccessFault → String
  | scalar => "field access on a scalar value"
  | missing => "constructed value has no such field"
  | illFormed => "field access on an expression that is neither a value nor a variable"

/-- The expression that a chain of fields leads to. -/
def Expr.follow : Expr → List Ident → Except AccessError Expr
  | e, [] => .ok e
  | .access a, fields => .ok (.access { a with fields := a.fields ++ fields })
  | .constructed _ _ inits, f :: rest =>
    match Named.find? inits f.name with
    | some value => value.follow rest
    | none => .error ⟨.missing, f⟩
  | .scalar _ _, f :: _ => .error ⟨.scalar, f⟩
  | _, f :: _ => .error ⟨.illFormed, f⟩
termination_by structural _ fields => fields

/-! ## §2. Substitution. -/

/-- The expressions that variables stand for. -/
structure Substitution where
  scopes : Scopes Expr
  deriving Repr

namespace Substitution

/-- One scope without bindings. -/
def empty : Substitution := ⟨.single⟩

/-- Opens a scope. -/
def push (s : Substitution) : Substitution := ⟨s.scopes.push⟩

/-- Closes the innermost scope. The outermost one stays. -/
def pop (s : Substitution) : Substitution := if s.scopes.depth > 1 then ⟨s.scopes.pop⟩ else s

/-- What a variable stands for. -/
def find? (s : Substitution) (name : Symbol) : Option Expr := s.scopes.find? name

/-- Binds a variable to an expression as it is. The expression must not mention bound names that
are meant to be replaced. -/
def bind (s : Substitution) (name : Symbol) (e : Expr) : Substitution := ⟨s.scopes.bind name e⟩

mutual

/-- The expression with every bound variable replaced. -/
def apply (s : Substitution) : Expr → Except AccessError Expr
  | .scalar span v => .ok (.scalar span v)
  | .access a =>
    match s.find? a.var.name with
    | some bound => bound.follow a.fields
    | none => .ok (.access a)
  | .binary span op l r => do
    let l ← apply s l
    let r ← apply s r
    pure (.binary span op l r)
  | .unary span op x => do pure (.unary span op (← apply s x))
  | .type span i ps => do pure (.type span i (← applyAll s ps))
  | .constructed span c fs => do pure (.constructed span c (← applyFields s fs))
  | .collection span es => do pure (.collection span (← applyAll s es))
  | .call span f as => do pure (.call span f (← applyAll s as))
termination_by structural e => e

/-- Several expressions, up to the first that fails. -/
def applyAll (s : Substitution) : List Expr → Except AccessError (List Expr)
  | [] => .ok []
  | e :: es => do
    let e ← apply s e
    let es ← applyAll s es
    pure (e :: es)
termination_by structural es => es

/-- The values of several fields, up to the first that fails. -/
def applyFields (s : Substitution) : List (Named Expr) → Except AccessError (List (Named Expr))
  | [] => .ok []
  | f :: fs => do
    let value ← apply s f.val
    let fs ← applyFields s fs
    pure (⟨f.name, value⟩ :: fs)
termination_by structural fs => fs

end

/-- A type with its parameters substituted. The name of a type is never replaced. -/
def applyType (s : Substitution) (t : TypeExpr) : Except AccessError TypeExpr := do
  pure ⟨t.span, t.ident, ← s.applyAll t.params⟩

/-- Binds a variable to an expression under the bindings that are already there. -/
def add (s : Substitution) (name : Symbol) (e : Expr) : Except AccessError Substitution := do
  pure (s.bind name (← s.apply e))

/-- The bindings as text, those of the outermost scope first. -/
def text (t : SymbolTable) (s : Substitution) : String :=
  commaSeparated (s.scopes.toList.map fun (name, e) => t.text name ++ " := " ++ e.text t)

end Substitution

end DepSchema
