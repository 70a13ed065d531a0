/-
DepSchema.Typing.Types — equality of types.

Two types are equal when they have the same name and their parameters are equal in pairs: types
compared in the same way, values by the oracle. Two function types are equal when their parameters
and results are, after the parameters of one are renamed to those of the other.
-/
import DepSchema.Typing.Check

namespace DepSchema.Typing

open Check

/-! ## §1. Types of values. -/

/-- A parameter of a collection type that must be a type. -/
def elementType (t : TypeExpr) (index : Nat) : Check TypeExpr := do
  let param ← getSome t.span (.noParameter t index) t.params[index]?
  getSome param.span (.parameterNotType t.name index param) param.type?

/-- The part of the comparison of types that leaves their parameters out. -/
def requireSameHead (expected got : TypeExpr) (span : Span) : Check Unit := do
  if expected.name ≠ got.name then fail span (.typeMismatch expected got)
  if expected.params.length ≠ got.params.length then
    fail span (.parameterCount expected.name expected.params.length got.params.length)

mutual

/-- Whether two parameters are equal. Two types that differ are reported at once. -/
def sameParam (span : Span) : Expr → Expr → Check Bool
  | .type s i ps, got =>
    match got.type? with
    | some t => do
      requireSameHead ⟨s, i, ps⟩ t span
      requireSameParams span ps t.params 0
      pure true
    | none => pure false
  | expected, got => if got.type?.isSome then pure false else askEqual expected got
termination_by structural e => e

/-- Compares the parameters from one place on. -/
def requireSameParams (span : Span) : List Expr → List Expr → Nat → Check Unit
  | e :: es, g :: gs, index => do
    unless ← sameParam span e g do fail span (.parameterMismatch index e g)
    requireSameParams span es gs (index + 1)
  | _, _, _ => pure ()
termination_by structural es => es

end

/-- Compares two types; a difference is reported at the place of what has the second one. -/
def requireSameType (expected got : TypeExpr) (span : Span) : Check Unit := do
  requireSameHead expected got span
  requireSameParams span expected.params got.params 0

/-! ## §2. Function types. -/

/-- Compares the results of two function types. `parameters` compares the parameters and gives
the renaming; it runs in a scope of its own. -/
def requireSameSignature (span : Span) (arity : Nat) (result : TypeExpr) (got : FunctionType)
    (parameters : Check Substitution) : Check Unit := do
  if arity ≠ got.params.length then fail span (.functionArity arity got.params.length)
  inScope do
    let rename ← parameters
    requireSameType result (← under rename got.result) span

mutual

/-- Compares the type of a parameter with that at the same place, under a renaming of the
parameters before, and gives what the parameter is bound to. -/
def requireSameParameter (span : Span) :
    ParameterType → ParameterType → Nat → Substitution → Check Binding
  | .value expected, .value got, _, rename => do
    requireSameType expected (← under rename got) span
    pure (.value expected)
  | .function ps result, .function qs got, _, _ => do
    requireSameSignature span ps.length result ⟨qs, got⟩ (requireSameParameters span ps qs 0 .empty)
    pure (.function ⟨ps, result⟩)
  | _, _, index, _ => fail span (.parameterKind index)
termination_by structural t => t

/-- Compares parameters from one place on and renames those of the second type to those of the
first. -/
def requireSameParameters (span : Span) :
    List (Named ParameterType) → List (Named ParameterType) → Nat → Substitution →
      Check Substitution
  | e :: es, g :: gs, index, rename => do
    introduce e.name.name (← requireSameParameter span e.val g.val index rename)
    requireSameParameters span es gs (index + 1) (rename.bind g.name.name (.ofVar e.name))
  | _, _, _, rename => pure rename
termination_by structural es => es

end

/-- Compares two function types up to the names of their parameters. -/
def requireSameFunctionType (expected got : FunctionType) (span : Span) : Check Unit :=
  requireSameSignature span expected.params.length expected.result got
    (requireSameParameters span expected.params got.params 0 .empty)

mutual

/-- The type of a parameter under a substitution. -/
def underParameter (σ : Substitution) : ParameterType → Check ParameterType
  | .value t => do pure (.value (← under σ t))
  | .function ps result => do
    let ps ← underParameters σ ps
    pure (.function ps (← under σ result))
termination_by structural t => t

/-- Parameters under a substitution. -/
def underParameters (σ : Substitution) : List (Named ParameterType) → Check (List Parameter)
  | [] => pure []
  | p :: ps => do
    let type ← underParameter σ p.val
    let ps ← underParameters σ ps
    pure (⟨p.name, type⟩ :: ps)
termination_by structural ps => ps

end

/-- A function type under a substitution. -/
def underFunction (σ : Substitution) (ft : FunctionType) : Check FunctionType := do
  let params ← underParameters σ ft.params
  pure ⟨params, ← under σ ft.result⟩

end DepSchema.Typing
