/-
DepSchema.Typing.Values — values against the types expected of them.

`checkValue e t` passes when `e` is a value of type `t`. Literals, constructed values and
collections are checked part by part; a variable or a call has a type of its own, which is compared
with the expected one. The length of an array is kept as an expression, a sum where arrays are
joined, and the oracle compares it with the length that the type asks for.
-/
import DepSchema.Typing.Types
import DepSchema.Typing.Fields
import DepSchema.Typing.Rules

namespace DepSchema

/-- The types whose values an operator works on. -/
def BinaryOp.operandTypes : BinaryOp → List Symbol
  | add => [.int, .unsigned, .string, .float]
  | sub | mul => [.int, .unsigned, .float]
  | div => [.float]
  | and | or | mem => [.bool]
  | inter | diff => [.set]
  | union => [.array, .set]

/-- The types whose values an operator works on. -/
def UnaryOp.operandTypes : UnaryOp → List Symbol
  | neg => [.int, .float]
  | not => [.bool]

namespace Typing

open Check

/-! ## §1. Parts of the check that do not look into the value. -/

/-- Compares what a variable or a call stands for with an expected type. -/
def requireValue (expected : TypeExpr) (actual : Binding) (span : Span) : Check Unit :=
  match actual with
  | .value type => requireSameType expected type span
  | .function _ => fail span (.functionAsValue expected)

/-- The length that an array type asks for. -/
def expectedLength (expected : TypeExpr) : Check Expr :=
  getSome expected.span (.parameterCount .array 2 expected.params.length) expected.params[1]?

/-- Asks whether an array is as long as expected. -/
def requireLength (expected got : Expr) (span : Span) : Check Unit := do
  unless ← askEqual expected got do fail span (.arraySize expected got)

/-- The length of an array literal. -/
def literalLength (span : Span) (elements : List Expr) : Expr :=
  .scalar span (.unsigned (UInt64.ofNat elements.length))

/-- The length of an array that a variable or a call stands for. -/
def lengthOfBinding (element : TypeExpr) (actual : Binding) (span : Span) : Check Expr := do
  match actual with
  | .function _ => fail span (.functionAsArray element)
  | .value type =>
    if type.name ≠ .array then fail span (.notArrayType element type)
    else
      requireSameType element (← elementType type 0) span
      getSome span (.arrayWithoutLength type) type.params[1]?

/-- The type of a call with `count` arguments: the result type if all are there, otherwise the
type of a function of the remaining parameters. `arguments` checks the arguments against the
parameters and gives the substitution for them and the parameters that remain. -/
def callType (span : Span) (callee : Ident) (count : Nat)
    (arguments : List Parameter → Check (Substitution × List Parameter)) : Check Binding := do
  let signature ← calleeType callee
  if count > signature.params.length then
    fail span (.tooManyArguments callee.name signature.params.length count)
  let (σ, remaining) ← arguments signature.params
  let result ← under σ signature.result
  if remaining.isEmpty then pure (.value result)
  else pure (.function ⟨← underParameters σ remaining, result⟩)

/-- Checks the declared fields of a constructor in order. `check` checks the supplied value of a
field against its type; inside a rule input a variable alone is bound instead. -/
def checkFields (span : Span) (ctor : Ident) (inits : List (Named Expr))
    (check : Symbol → TypeExpr → Check Unit) (σ : Substitution) : List Variable → Check Unit
  | [] => pure ()
  | field :: fields => do
    let name := field.name.name
    let value ← getSome span (.fieldMissing name ctor.name) (Named.find? inits name)
    let type ← under σ field.type
    match value.bareVar?, ← isReadingInput with
    | some v, true => introduce v.name (.value type)
    | _, _ => check name type
    checkFields span ctor inits check (σ.bind name value) fields

/-- Checks a constructed value. `check` is as for `checkFields`. -/
def checkConstructed (span : Span) (ctor : Ident) (inits : List (Named Expr)) (expected : TypeExpr)
    (check : Symbol → TypeExpr → Check Unit) : Check Unit := do
  let (owner, declared) ←
    getSome ctor.span (.undefinedConstructor ctor.name) ((← schema).constructor? ctor.name)
  if owner.name ≠ expected.name then fail span (.valueMismatch expected owner.name)
  if owner.deps.length ≠ expected.params.length then
    fail expected.span (.parameterCount owner.name owner.deps.length expected.params.length)
  let σ := bindDeps owner.deps expected.params
  let σ ← match owner with
    | .enum e => dispatch e ctor expected.params σ
    | .message _ => pure σ
  if inits.length ≠ declared.fields.length then
    fail span (.fieldCount ctor.name declared.fields.length inits.length)
  checkFields span ctor inits check σ declared.fields

/-! ## §2. The check itself. -/

mutual

/-- Checks a value against a type. -/
def checkValue : Expr → TypeExpr → Check Unit
  | .type span i ps, expected => fail span (.typeAsValue expected ⟨span, i, ps⟩)
  | .binary span op l r, expected =>
    if op = .union ∧ expected.name = .array then do
      let element ← elementType expected 0
      let length ← expectedLength expected
      let left ← lengthOf l element
      let right ← lengthOf r element
      requireLength length (.binary span .add left right) span
    else if ¬ expected.name ∈ op.operandTypes then fail span (.unsupportedBinary op expected)
    else if op = .mem then note .membershipUnchecked
    else do
      checkValue l expected
      checkValue r expected
  | .unary span op x, expected =>
    if ¬ expected.name ∈ op.operandTypes then fail span (.unsupportedUnary op expected)
    else checkValue x expected
  | .access a, expected => do requireValue expected (← accessType a) a.span
  | .scalar span v, expected =>
    if v.type = expected.name ∧ expected.params.isEmpty then pure ()
    else fail span (.valueMismatch expected v.type)
  | .constructed span ctor inits, expected =>
    checkConstructed span ctor inits expected (checkField inits)
  | .collection span es, expected =>
    if expected.name = .set then do checkElements es (← elementType expected 0)
    else if expected.name = .array then do
      let element ← elementType expected 0
      let length ← expectedLength expected
      checkElements es element
      requireLength length (literalLength span es) span
    else fail span (.collectionAsValue expected (.collection span es))
  | .call span f as, expected => do
    requireValue expected (← callType span f as.length (checkArguments as .empty)) span
termination_by structural e => e

/-- The length of an array with elements of a given type. -/
def lengthOf : Expr → TypeExpr → Check Expr
  | .collection span es, element => do
    checkElements es element
    pure (literalLength span es)
  | .binary span op l r, element =>
    if op = .union then do
      let left ← lengthOf l element
      let right ← lengthOf r element
      pure (.binary span .add left right)
    else fail span (.notArray (.binary span op l r))
  | .access a, element => do lengthOfBinding element (← accessType a) a.span
  | .call span f as, element => do
    lengthOfBinding element (← callType span f as.length (checkArguments as .empty)) span
  | e, _ => fail e.span (.notArray e)
termination_by structural e => e

/-- The type of an argument that is to be a function. -/
def functionOf : Expr → Check FunctionType
  | .access a =>
    if a.isVar then calleeType a.var else fail a.span (.expressionAsFunction (.access a))
  | .call span f as => do
    match ← callType span f as.length (checkArguments as .empty) with
    | .function ft => pure ft
    | .value type => fail span (.valueAsFunction type)
  | e => fail e.span (.expressionAsFunction e)
termination_by structural e => e

/-- Checks arguments against parameters, each parameter standing for its argument in those after
it. The result is the substitution for them and the parameters without an argument. -/
def checkArguments : List Expr → Substitution → List Parameter →
    Check (Substitution × List Parameter)
  | arg :: args, σ, p :: ps => do
    match p.val with
    | .value type => checkValue arg (← under σ type)
    | .function qs result =>
      let expected ← underFunction σ ⟨qs, result⟩
      requireSameFunctionType expected (← functionOf arg) arg.span
    checkArguments args (σ.bind p.name.name arg) ps
  | _, σ, ps => pure (σ, ps)
termination_by structural args => args

/-- Checks the elements of a collection. -/
def checkElements : List Expr → TypeExpr → Check Unit
  | [], _ => pure ()
  | e :: es, element => do
    checkValue e element
    checkElements es element
termination_by structural es => es

/-- Checks the value that is supplied for a field. -/
def checkField : List (Named Expr) → Symbol → TypeExpr → Check Unit
  | [], _, _ => pure ()
  | f :: fs, name, type =>
    if f.name.name = name then checkValue f.val type else checkField fs name type
termination_by structural fs => fs

end

end Typing

end DepSchema
