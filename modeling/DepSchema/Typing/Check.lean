/-
DepSchema.Typing.Check — checks that keep a scope, ask an oracle and may fail.

A `Check` reads the schema and the oracle and works on a `Checking`: the names in scope, the
substitution in force, whether a rule input is being read, the queries made and the log. A failed
check leaves the state that it reached, so the queries and the log of a failure are there too.
-/
import DepSchema.Event
import DepSchema.Schema

namespace DepSchema

/-- What every check can read. -/
structure Setting where
  schema : Schema
  oracle : Oracle

/-- The state of a run of checks. -/
structure Checking where
  scopes : Scopes Binding
  substitution : Substitution
  /-- Whether a rule input is being read: there a variable alone, as the value of a field, is
  bound and not looked up. -/
  readingInput : Bool
  /-- The queries made so far, in order. -/
  queries : List Query
  /-- What was noted so far, the newest first. -/
  events : List Event

/-- One empty scope, nothing substituted, nothing asked. -/
def Checking.start : Checking := ⟨.single, .empty, false, [], []⟩

/-- The state with one more event. -/
def Checking.note (s : Checking) (e : Event) : Checking := { s with events := e :: s.events }

/-- A check that gives an `α` or fails with a diagnostic. -/
def Check (α : Type) := Setting → Checking → Except Diagnostic α × Checking

namespace Check

variable {α β : Type}

instance : Monad Check where
  pure a := fun _ s => (.ok a, s)
  bind x f := fun c s =>
    match x c s with
    | (.ok a, s) => f a c s
    | (.error d, s) => (.error d, s)

/-! ## §1. Failing, reading, noting. -/

/-- Fails with a cause, reported at a place. -/
def fail (span : Span) (cause : Cause) : Check α := fun _ s => (.error (.located span cause), s)

/-- Fails with a cause that has no place. -/
def failUnlocated (cause : Cause) : Check α := fun _ s => (.error (.unlocated cause), s)

/-- The schema that is checked. -/
def schema : Check Schema := fun c s => (.ok c.schema, s)

/-- Whether a rule input is being read. -/
def isReadingInput : Check Bool := fun _ s => (.ok s.readingInput, s)

/-- Adds an event to the log. -/
def note (e : Event) : Check Unit := fun _ s => (.ok (), s.note e)

/-- What an option holds; if nothing, the check fails. -/
def getSome (span : Span) (cause : Cause) : Option α → Check α
  | some a => pure a
  | none => fail span cause

/-- The result of a substitution; if it failed, the check fails. -/
def ofSubstitution (r : Except AccessError α) : Check α :=
  fun _ s => (r.mapError .ofSubstitution, s)

/-! ## §2. Scopes. -/

/-- What a name in scope stands for. -/
def meaning? (name : Symbol) : Check (Option Binding) := fun _ s => (.ok (s.scopes.find? name), s)

/-- Binds a name in the innermost scope. -/
def introduce (name : Symbol) (b : Binding) : Check Unit :=
  fun _ s => (.ok (), { s with scopes := s.scopes.bind name b })

/-- Runs a check in a scope of its own, for names and for the substitution. The scope is closed
whether or not the check fails. -/
def inScope (x : Check α) : Check α := fun c s =>
  let scopes := s.scopes.push
  let (r, s) := x c
    ({ s with scopes, substitution := s.substitution.push }.note (.typeScopePushed scopes.depth))
  let scopes := s.scopes.pop
  (r, { s with scopes, substitution := s.substitution.pop }.note (.typeScopePopped scopes.depth))

/-- Runs a check as part of a rule input. -/
def readInput (x : Check α) : Check α := fun c s =>
  let (r, t) := x c { s with readingInput := true }
  (r, { t with readingInput := s.readingInput })

/-! ## §3. Substitution. -/

/-- A type under a substitution. -/
def under (σ : Substitution) (t : TypeExpr) : Check TypeExpr := ofSubstitution (σ.applyType t)

/-- A type under the substitution in force. -/
def underCurrent (t : TypeExpr) : Check TypeExpr :=
  fun c s => under s.substitution t c s

/-- Adds a binding to the substitution in force. -/
def replace (name : Symbol) (e : Expr) : Check Unit := fun _ s =>
  match s.substitution.add name e with
  | .ok substitution => (.ok (), { s with substitution }.note (.substitutionAdded name e))
  | .error err => (.error (.ofSubstitution err), s)

/-! ## §4. The oracle. -/

/-- Asks the oracle. A failure of the oracle is a failure of the check. -/
def ask (q : Query) : Check Bool := fun c s =>
  let t := { s with queries := s.queries ++ [q] }
  match c.oracle s.queries q with
  | .ok answer => (.ok answer, t.note (.answered q answer))
  | .error e => (.error (.ofOracle e), t)

/-- Whether the oracle finds two expressions equal in the scope as it is. -/
def askEqual (expected got : Expr) : Check Bool := fun c s => ask (.equal expected got s.scopes) c s

end Check

end DepSchema
