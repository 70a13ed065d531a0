/-
DepSchema.Typing.Rules — which constructors an enum has for given parameters.

The rules of an enum are tried in order. The first one whose inputs all match the actual parameters
decides: its constructors exist, no others do. A constructed pattern matches a value of the same
constructor field by field, or any value of a message type through its fields; what else is to be
compared is left to the oracle.
-/
import DepSchema.Typing.Check

namespace DepSchema.Typing

open Check

/-- Matches by asking the oracle whether the two are equal. -/
def matchByOracle (σ : Substitution) (pattern actual : Expr) : Check (Option Substitution) := do
  match actual with
  | .constructed _ _ _ => pure none
  | _ =>
    let equal ← askEqual pattern actual
    note (.patternCompared pattern actual equal)
    pure (if equal then some σ else none)

mutual

/-- Matches an actual value against a pattern. The result is the substitution with what the
pattern binds, or none if the two do not match. -/
def matchExpr (σ : Substitution) (actual : Expr) : Expr → Check (Option Substitution)
  | .access a =>
    if a.isVar then pure (some (σ.bind a.var.name actual))
    else matchByOracle σ (.access a) actual
  | .constructed _ ctor inits => do
    match actual with
    | .constructed _ c values =>
      if c.name = ctor.name then matchInits σ (fun f => Named.find? values f.name) inits
      else pure none
    | .access a =>
      match (← schema).constructor? ctor.name with
      | some (.message _, _) => matchInits σ (fun f => some (.access (a.field f))) inits
      | _ => pure none
    | _ => pure none
  | pattern => matchByOracle σ pattern actual
termination_by structural pattern => pattern

/-- Matches fields in order. `valueOf` gives the actual value of a field. -/
def matchInits (σ : Substitution) (valueOf : Ident → Option Expr) :
    List (Named Expr) → Check (Option Substitution)
  | [] => pure (some σ)
  | f :: fs =>
    match valueOf f.name with
    | none => pure none
    | some value => do
      match ← matchExpr σ value f.val with
      | none => pure none
      | some σ => matchInits σ valueOf fs
termination_by structural fs => fs

end

/-- Matches actual parameters against inputs, in order. -/
def matchInputs (σ : Substitution) : List RuleInput → List Expr → Check (Option Substitution)
  | .any _ :: inputs, _ :: params => matchInputs σ inputs params
  | .value p :: inputs, param :: params => do
    match ← matchExpr σ param p with
    | none => pure none
    | some σ => matchInputs σ inputs params
  | _, _ => pure (some σ)

/-- Matches actual parameters against a rule. -/
def matchRule (σ : Substitution) (rule : Rule) (params : List Expr) :
    Check (Option Substitution) :=
  if rule.inputs.length = params.length then matchInputs σ rule.inputs params else pure none

/-- Tries rules in order, from the one with number `index` on. The first that matches has to
offer the constructor; the result is the substitution with what that rule binds. -/
def dispatchFrom (enum : Symbol) (ctor : Ident) (params : List Expr) (σ : Substitution) :
    List Rule → Nat → Check Substitution
  | [], _ => fail ctor.span (.constructorUnavailable ctor.name)
  | rule :: rules, index => do
    match ← matchRule σ rule params with
    | none =>
      note (.ruleSkipped enum index)
      dispatchFrom enum ctor params σ rules (index + 1)
    | some bound =>
      note (.ruleMatched enum index ctor.name)
      if (rule.constructor? ctor.name).isSome then pure bound
      else fail ctor.span (.constructorUnavailable ctor.name)

/-- Finds the rule of an enum for some parameters and asks it for a constructor. -/
def dispatch (e : Enum) (ctor : Ident) (params : List Expr) (σ : Substitution) :
    Check Substitution :=
  dispatchFrom e.ident.name ctor params σ e.rules 0

end DepSchema.Typing
