/-
DepSchema.Pipeline — the three stages one after the other.

Names first, then the order of the types, then the types themselves. A stage that finds a fault
ends the run; only the type check asks the oracle. The order of the types is noted in the schema
as soon as it is found and stays there whether or not the type check passes.
-/
import DepSchema.Resolution
import DepSchema.VisitOrder
import DepSchema.Typing.Declarations

namespace DepSchema

/-- The outcome of a run. -/
structure Run where
  /-- Success, or at least one fault. -/
  result : Except (List Diagnostic) Unit
  /-- The schema afterwards. -/
  schema : Schema
  /-- What the oracle was asked. -/
  queries : List Query
  /-- The log. -/
  events : List Event

namespace Schema

/-- The type check, as the last stage of a run. `before` was noted in the stages before it. -/
def typeStage (oracle : Oracle) (before : List Event) (s : Schema) : Run :=
  let (result, state) := s.typing oracle
  let events := before ++ state.events.reverse
  match result with
  | .ok () =>
    ⟨.ok (), s, state.queries, events ++ [.schemaChecked s.visitOrder.length s.functions.length]⟩
  | .error d => ⟨.error [d], s, state.queries, events ++ [.typingFailed d]⟩

/-- The order of the types and what follows. -/
def orderStage (t : SymbolTable) (oracle : Oracle) (before : List Event) (s : Schema) : Run :=
  let events := before ++ s.orderEvents t
  match s.typeOrder t with
  | .ok order => (s.withOrder order).typeStage oracle events
  | .error d => ⟨.error [d], s, [], events ++ [.orderFailed 1]⟩

/-- All stages with an oracle. -/
def checkWith (t : SymbolTable) (oracle : Oracle) (s : Schema) : Run :=
  match s.nameFaults with
  | [] => s.orderStage t oracle s.resolution
  | faults => ⟨.error faults, s, [], s.resolution ++ [.namesFailed faults.length]⟩

/-- All stages with the structural oracle. The profile concerns a solver and is only noted. -/
def check (t : SymbolTable) (profile : Profile) (s : Schema) : Run :=
  let run := s.checkWith t Structural.oracle
  { run with events := .profileUnused profile :: run.events }

/-- All stages with the structural oracle and the profile that the environment names. -/
def checkIn (t : SymbolTable) (environment : Option String) (s : Schema) : Run :=
  let run := s.check t (Profile.ofEnvironment environment)
  let unknown := (Profile.unknownIn environment).toList.map Event.profileUnknown
  { run with events := unknown ++ run.events }

end Schema

end DepSchema
