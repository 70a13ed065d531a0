/-
DepSchema.Typing.Declarations — the declarations of a schema.

Types are checked in visit order and each is declared to the oracle as soon as its fields are known
to be well-formed. When all types are done the functions are declared, those between sorts, and
then checked. The first fault ends the run.
-/
import DepSchema.Typing.Values

namespace DepSchema.Typing

open Check

/-! ## §1. Well-formed types. -/

/-- Asks for a number of parameters. -/
def requireParams (t : TypeExpr) (arity : Nat) : Check Unit :=
  if t.params.length = arity then pure ()
  else fail t.span (.parameterCount t.name arity t.params.length)

/-- Asks for a length of an array: an unsigned value. -/
def requireFormedLength (params : List Expr) : Check Unit :=
  match params[1]? with
  | some length => checkValue length (.builtin .unsigned length.span)
  | none => pure ()

/-- Checks the parameters of a declared type against its dependencies, each dependency standing
for its parameter in those after it. -/
def checkParams (σ : Substitution) : List Variable → List Expr → Check Unit
  | dep :: deps, param :: params => do
    checkValue param (← under σ dep.type)
    checkParams (σ.bind dep.name.name param) deps params
  | _, _ => pure ()

mutual

/-- Checks that an expression that is a type is a well-formed one. -/
def requireFormedExpr : Expr → Check Unit
  | .type span i ps => do
    let type : TypeExpr := ⟨span, i, ps⟩
    if i.name.isScalar then requireParams type 0
    else if i.name = .array then
      requireParams type 2
      requireFormedElement type ps
      requireFormedLength ps
    else if i.name = .set then
      requireParams type 1
      requireFormedElement type ps
    else
      let deps ← getSome i.span (.undefinedType i.name) ((← schema).deps? i.name)
      requireParams type deps.length
      checkParams .empty deps ps
  | _ => pure ()
termination_by structural e => e

/-- Checks the first parameter of a collection type, the type of its elements. -/
def requireFormedElement (collection : TypeExpr) : List Expr → Check Unit
  | [] => fail collection.span (.noParameter collection 0)
  | e :: _ =>
    match e.type? with
    | some _ => requireFormedExpr e
    | none => fail e.span (.parameterNotType collection.name 0 e)
termination_by structural es => es

end

/-- Checks that a type is well-formed. -/
def requireFormed (t : TypeExpr) : Check Unit := requireFormedExpr t.toExpr

/-! ## §2. Types. -/

/-- Checks dependencies or fields, each in scope for those after it. -/
def introduceVariables : List Variable → Check Unit
  | [] => pure ()
  | v :: vs => do
    let type ← underCurrent v.type
    requireFormed type
    introduce v.name.name (.value type)
    introduceVariables vs

/-- Reads the inputs of a rule against the dependencies at their places. Each input then stands
for its dependency; a variable alone is bound. -/
def checkInputs : List RuleInput → List Variable → Check Unit
  | .any _ :: inputs, _ :: deps => checkInputs inputs deps
  | .value p :: inputs, dep :: deps => do
    let type ← underCurrent dep.type
    match p.bareVar? with
    | some v => introduce v.name (.value type)
    | none => readInput (checkValue p type)
    replace dep.name.name p
    checkInputs inputs deps
  | _, _ => pure ()

/-- Checks constructors, the fields of each in a scope of their own. -/
def checkConstructors : List Constructor → Check Unit
  | [] => pure ()
  | c :: cs => do
    inScope (introduceVariables c.fields)
    checkConstructors cs

/-- Checks a rule: its inputs, then its constructors in the scope that the inputs leave. -/
def checkRule (e : Enum) (rule : Rule) : Check Unit := do
  if rule.inputs.length ≠ e.deps.length then
    fail e.ident.span (.inputCount e.ident.name e.deps.length rule.inputs.length)
  inScope do
    checkInputs rule.inputs e.deps
    checkConstructors rule.constructors

/-- Checks rules in order. -/
def checkRules (e : Enum) : List Rule → Check Unit
  | [] => pure ()
  | rule :: rules => do
    checkRule e rule
    checkRules e rules

/-- The sorts of some fields. -/
def sortedFields : List Variable → Check (List (Symbol × ValueSort))
  | [] => pure []
  | v :: vs => do
    let sort ← getSome v.name.span (.unencodableField v.name.name v.type) v.type.sort?
    let sorts ← sortedFields vs
    pure ((v.name.name, sort) :: sorts)

/-- The declarations of some constructors. -/
def variants : List Constructor → Check (List Variant)
  | [] => pure []
  | c :: cs => do
    let fields ← sortedFields c.fields
    let decls ← variants cs
    pure (⟨c.name, fields⟩ :: decls)

/-- Checks a type and declares it to the oracle. -/
def checkTypeDef (d : TypeDef) : Check Unit := do
  inScope do
    introduceVariables d.deps
    match d with
    | .message m => introduceVariables m.fields
    | .enum e => checkRules e e.rules
  let ctors ← variants d.constructors
  let _ ← ask (.datatype ⟨d.name, ctors⟩)

/-! ## §3. Functions. -/

mutual

/-- Checks the type of a parameter and gives what the parameter is bound to. -/
def checkParameter : ParameterType → Check Binding
  | .value t => do
    let type ← underCurrent t
    requireFormed type
    pure (.value type)
  | .function ps result => do
    inScope do
      introduceParameters ps
      requireFormed (← underCurrent result)
    pure (.function ⟨ps, result⟩)
termination_by structural t => t

/-- Checks parameters, each in scope for those after it. -/
def introduceParameters : List (Named ParameterType) → Check Unit
  | [] => pure ()
  | p :: ps => do
    introduce p.name.name (← checkParameter p.val)
    introduceParameters ps
termination_by structural ps => ps

end

/-- Checks a function: its parameters, the result type in their scope, then the body. -/
def checkFunctionDef (f : FunctionDef) : Check Unit := do
  note (.functionStarted f.name)
  inScope do
    introduceParameters f.params
    let result ← underCurrent f.result
    requireFormed result
    match f.body with
    | some body => checkValue body result
    | none => pure ()

/-- The sort of a parameter. A function has none. -/
def parameterSort? : Parameter → Option ValueSort
  | ⟨_, .value type⟩ => type.sort?
  | ⟨_, .function _ _⟩ => none

/-- A function between sorts, if the result and all parameters have one. -/
def sortedFunction? (f : FunctionDef) : Option SortedFunction := do
  let params ← f.params.mapM parameterSort?
  pure ⟨f.name, params, ← f.result.sort?⟩

/-- Declares a function to the oracle, if it is one between sorts. Where the first parameter
without a sort is a function, it is noted that the function stays undeclared. -/
def declareIfSorted (f : FunctionDef) : Check Unit :=
  match f.params.find? fun p => (parameterSort? p).isNone with
  | some ⟨_, .function _ _⟩ => note (.higherOrderUndeclared f.name)
  | _ =>
    match sortedFunction? f with
    | some decl => do let _ ← ask (.function decl)
    | none => pure ()

/-! ## §4. Schemas. -/

/-- Checks the types of the visit order. -/
def checkTypes : List Symbol → Check Unit
  | [] => pure ()
  | name :: names => do
    match (← schema).type? name with
    | none => failUnlocated (.orderUndeclared name)
    | some d =>
      note (.typeStarted name d.kind)
      checkTypeDef d
    checkTypes names

/-- Checks everything that the schema declares. -/
def checkSchema : Check Unit := do
  let s ← schema
  if s.visitOrder.length ≠ s.types.length then
    failUnlocated (.orderIncomplete s.types.length s.visitOrder.length)
  checkTypes s.visitOrder
  s.functions.forM declareIfSorted
  s.functions.forM checkFunctionDef

end Typing

/-- The check of a schema in its visit order, and the state in which it ends. -/
def Schema.typing (oracle : Oracle) (s : Schema) : Except Diagnostic Unit × Checking :=
  Typing.checkSchema ⟨s, oracle⟩ .start

end DepSchema
