/-
DepSchema.Event — the log of a run.

Every stage notes what it does, in order, as events. An event keeps the names and expressions that
it is about; `Event.record` writes it as a level, a message and fields of text.
-/
import DepSchema.Diagnostic
import DepSchema.Oracle.Structural
import DepSchema.Profile

namespace DepSchema

/-- What a stage can note. -/
inductive Event where
  /- settings -/
  | profileUnknown (text : String)
  | profileUnused (profile : Profile)
  /- names -/
  | nameScopePushed (depth : Nat)
  | nameScopePopped (depth : Nat)
  | nameAdded (name : Symbol) (kind : NameKind)
  | aliasAdded (name : Symbol)
  | nameFault (diagnostic : Diagnostic)
  | namesFailed (count : Nat)
  /- order of types -/
  | mentionFound (source target : Symbol)
  | cycleFound (path : List Symbol)
  | orderFailed (count : Nat)
  /- types -/
  | typeStarted (name : Symbol) (kind : NameKind)
  | functionStarted (name : Symbol)
  | typeScopePushed (depth : Nat)
  | typeScopePopped (depth : Nat)
  | substitutionAdded (name : Symbol) (value : Expr)
  | membershipUnchecked
  | higherOrderUndeclared (function : Symbol)
  | ruleSkipped (enum : Symbol) (index : Nat)
  | ruleMatched (enum : Symbol) (index : Nat) (ctor : Symbol)
  | patternCompared (pattern actual : Expr) (equal : Bool)
  | answered (query : Query) (answer : Bool)
  | typingFailed (diagnostic : Diagnostic)
  | schemaChecked (types functions : Nat)
  deriving Repr

/-- How much attention an event asks for. -/
inductive Level where
  | warn | debug | trace
  deriving Repr, DecidableEq

/-- The level as it is written. -/
def Level.text : Level → String
  | warn => "WARN"
  | debug => "DEBUG"
  | trace => "TRACE"

/-- An event as text. -/
structure Record where
  level : Level
  message : String
  fields : List (String × String)
  deriving Repr, DecidableEq

/-- A truth value in a field. -/
private def flagText (b : Bool) : String := if b then "true" else "false"

/-- What is noted about an answered query: expressions are noted as they were compared, folded. -/
def Query.record (t : SymbolTable) (answer : Bool) : Query → Record
  | .datatype d =>
    ⟨.debug, "declared sort", [("sort", t.text d.name), ("constructors", toString d.ctors.length)]⟩
  | .function d => ⟨.debug, "declared function", [("function", t.text d.name)]⟩
  | .equal expected got _ =>
    ⟨.debug, "structural comparison",
      [("expected", expected.fold.text t), ("got", got.fold.text t), ("equal", flagText answer)]⟩

/-- The text of an event. A name fault is noted in its own words. -/
def Event.record (t : SymbolTable) : Event → Record
  | profileUnknown text =>
    ⟨.warn, "unknown " ++ Profile.environmentKey ++ ", using default profile", [("value", text)]⟩
  | profileUnused p =>
    ⟨.trace, "solver profile unused without the z3 feature", [("profile", p.name)]⟩
  | nameScopePushed depth => ⟨.trace, "pushed name scope", [("depth", toString depth)]⟩
  | nameScopePopped depth => ⟨.trace, "popped name scope", [("depth", toString depth)]⟩
  | nameAdded n kind => ⟨.trace, "added name", [("name", t.text n), ("kind", kind.text)]⟩
  | aliasAdded n => ⟨.trace, "added alias", [("name", t.text n)]⟩
  | nameFault d => ⟨.debug, d.message t, []⟩
  | namesFailed count => ⟨.debug, "name resolution failed", [("count", toString count)]⟩
  | mentionFound source target =>
    ⟨.trace, "dependency edge", [("from", t.text source), ("to", t.text target)]⟩
  | cycleFound path => ⟨.debug, "dependency cycle", [("path", cycleText t path)]⟩
  | orderFailed count => ⟨.debug, "positivity check failed", [("count", toString count)]⟩
  | typeStarted n kind => ⟨.debug, "checking type", [("name", t.text n), ("kind", kind.text)]⟩
  | functionStarted n => ⟨.debug, "checking function", [("function", t.text n)]⟩
  | typeScopePushed depth => ⟨.trace, "pushed type scope", [("depth", toString depth)]⟩
  | typeScopePopped depth => ⟨.trace, "popped type scope", [("depth", toString depth)]⟩
  | substitutionAdded n e =>
    ⟨.trace, "added substitution", [("name", t.text n), ("value", e.text t)]⟩
  | membershipUnchecked => ⟨.trace, "operands of `in` are not checked", []⟩
  | higherOrderUndeclared f =>
    ⟨.trace, "higher-order function is not declared to the oracle", [("function", t.text f)]⟩
  | ruleSkipped e i =>
    ⟨.trace, "rule does not match", [("enum_name", t.text e), ("rule", toString i)]⟩
  | ruleMatched e i c =>
    ⟨.debug, "rule matched",
      [("enum_name", t.text e), ("rule", toString i), ("constructor", t.text c)]⟩
  | patternCompared pattern actual equal =>
    ⟨.trace, "pattern compared by oracle",
      [("pattern", pattern.text t), ("actual", actual.text t), ("equal", flagText equal)]⟩
  | answered q answer => q.record t answer
  | typingFailed d => ⟨.debug, "type checking failed", [("error", d.message t)]⟩
  | schemaChecked types functions =>
    ⟨.debug, "schema checked", [("types", toString types), ("functions", toString functions)]⟩

end DepSchema
