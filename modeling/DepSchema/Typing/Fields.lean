/-
DepSchema.Typing.Fields — the types of variables and of their fields.

The type of `x.f` is the type that the message of `x` declares for `f`, where the message's
dependencies are the parameters of the type of `x` and each field before `f` is that field of `x`.
-/
import DepSchema.Typing.Check

namespace DepSchema.Typing

open Check

/-- The substitution that gives each dependency of a type the parameter at its place. -/
def bindDeps (deps : List Variable) (params : List Expr) : Substitution :=
  (deps.zip params).foldl (fun σ (dep, param) => σ.bind dep.name.name param) .empty

/-- The type of a field of the value that `base` leads to and that has the type `type`. -/
def fieldType (base : Access) (type : TypeExpr) (field : Ident) : Check TypeExpr := do
  match (← schema).type? type.name with
  | none => fail field.span (.fieldsOfBuiltin type.name)
  | some (.enum _) => fail field.span (.fieldsOfEnum type.name)
  | some (.message m) =>
    let declared ← getSome field.span (.noSuchField field.name m.ident.name) (m.field? field.name)
    let earlier := m.fields.takeWhile fun v => v.name.name != field.name
    let σ := earlier.foldl (fun σ v => σ.bind v.name.name (.access (base.field v.name)))
      (bindDeps m.deps type.params)
    under σ declared.type

/-- The type that a chain of fields leads to. -/
def fieldsType (base : Access) (type : TypeExpr) : List Ident → Check TypeExpr
  | [] => pure type
  | f :: fs => do fieldsType (base.field f) (← fieldType base type f) fs

/-- What a variable with its fields stands for. -/
def accessType (a : Access) : Check Binding := do
  let binding ← getSome a.var.span (.undefinedVariable a.var.name) (← meaning? a.var.name)
  if a.isVar then pure binding
  else
    match binding with
    | .value type => do pure (.value (← fieldsType (.ofVar a.var) type a.fields))
    | .function _ => fail a.span (.fieldsOfFunction a.var.name)

/-- The type of a function that is called by name: of one in scope, or else of the schema. -/
def calleeType (callee : Ident) : Check FunctionType := do
  match ← meaning? callee.name with
  | some (.function ft) => pure ft
  | some (.value type) => fail callee.span (.notFunction callee.name type)
  | none =>
    let f ← getSome callee.span (.undefinedFunction callee.name) ((← schema).function? callee.name)
    pure f.signature

end DepSchema.Typing
