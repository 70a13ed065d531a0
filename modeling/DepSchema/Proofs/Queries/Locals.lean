/-
DepSchema.Proofs.Queries.Locals — which variables the oracle is asked about.

A query about two expressions comes with the scope that is open at that moment. In a schema without
name faults each variable of the two is in that scope or is a function that is passed on by its
name: dependencies, earlier fields, names bound by rule inputs and parameters were replaced before,
in whatever declaration they stand. The exceptions are the names that the checked declaration
exposes; for each kind of them there is a schema in which one gets into a query.

Main results: `variables_in_scope`, and `variables_leak` for the functions and the operands of `in`.
-/
import DepSchema.Proofs.Queries.Trace
import DepSchema.Proofs.Vocabulary.Exposed
import DepSchema.Oracle.Structural

namespace DepSchema

/-- The query is about a variable that is not in scope. -/
def Query.leaks (n : Symbol) : Query → Bool
  | .equal e g scope => (e.vars ++ g.vars).contains n && !scope.contains n
  | _ => false

/-- The variables of a query that fits are in scope or allowed. -/
theorem Query.Fits.mem_vars {W : Vocabulary} {e g : Expr} {scope : Scopes Binding}
    (h : (Query.equal e g scope).Fits W) {n : Symbol} (hn : n ∈ e.vars ++ g.vars) :
    scope.contains n = true ∨ W (.var n) := by
  have hreach : W.inScope scope (.var n) := by
    rcases List.mem_append.mp hn with hn | hn
    · exact h.1 _ (Expr.mem_vars.mp hn)
    · exact h.2.1 _ (Expr.mem_vars.mp hn)
  rcases hreach with hW | ⟨m, hm, hscope⟩
  · exact .inr hW
  · cases hm
    exact .inl hscope

namespace Schema

namespace Example

/-- A type with parameters. -/
def type (name : UInt32) (params : List Expr) : TypeExpr := ⟨⟨0, 0⟩, ident name, params⟩

/-- An array of integers of some length. -/
def ints (length : Expr) : TypeExpr := type 5 [(type 0 []).toExpr, length]

/-- A parameter that is a value. -/
def param (name : UInt32) (type : TypeExpr) : Parameter := ⟨ident name, .value type⟩

/-- A variable alone. -/
def var (name : UInt32) : Expr := .ofVar (ident name)

/-- An unsigned literal. -/
def unsigned (n : UInt64) : Expr := .scalar ⟨0, 0⟩ (.unsigned n)

/-- A rule asks for a second parameter that is greater by one than the first dependency, 8. -/
def successor : List Declaration :=
  [.type (.enum ⟨ident 7, [field 8 1 [], field 9 1 []],
      [⟨[.any ⟨0, 0⟩, .value (.binary ⟨0, 0⟩ .add (var 8) (unsigned 1))], [⟨ident 10, []⟩]⟩]⟩),
    .function ⟨ident 11, [], type 7 [unsigned 1, unsigned 2],
      some (.constructed ⟨0, 0⟩ (ident 10) [])⟩]

/-- A constructed value asks whether its own field 8 is in a collection. -/
def ownField : List Declaration :=
  let value : Expr := .constructed ⟨0, 0⟩ (ident 7) [⟨ident 8, .scalar ⟨0, 0⟩ (.int 1)⟩,
    ⟨ident 9, .binary ⟨0, 0⟩ .mem (var 8) (.collection ⟨0, 0⟩ [])⟩]
  [.type (.message ⟨ident 7, [], [field 8 0 [], field 9 3 []]⟩),
    .type (.message ⟨ident 10, [field 11 7 []], []⟩),
    .function ⟨ident 12, [param 13 (type 10 [value])], type 10 [value], some (var 13)⟩]

/-- A function type stands beside the parameter 9 that it uses. -/
def beside : List Declaration :=
  [.function ⟨ident 7, [⟨ident 8, .function [param 9 (type 1 []),
      ⟨ident 10, .function [param 11 (ints (var 9))] (type 0 [])⟩] (type 0 [])⟩], type 0 [], none⟩,
    .function ⟨ident 12, [param 13 (type 1 []),
      ⟨ident 10, .function [param 11 (ints (var 13))] (type 0 [])⟩], type 0 [], none⟩,
    .function ⟨ident 14, [], type 0 [], some (.call ⟨0, 0⟩ (ident 7) [var 12])⟩]

/-- A parameter is taken from a field of the type 8, which has the dependency 11 and is used without
a parameter. -/
def withoutParameter : List Declaration :=
  [.type (.message ⟨ident 7, [field 11 0 []], []⟩),
    .type (.message ⟨ident 8, [field 11 0 []], [field 12 7 [var 11]]⟩),
    .type (.message ⟨ident 9, [field 13 0 [], field 14 7 [var 13]], []⟩),
    .type (.message ⟨ident 10, [], [field 15 10 [],
      field 16 9 [.scalar ⟨0, 0⟩ (.int 3), .access ⟨⟨0, 0⟩, ident 15, [ident 17, ident 12]⟩],
      field 17 8 []]⟩)]

end Example

/-- The schema has no name faults and its types have an order, and a query of its check with the
structural oracle is about the variable, which is not in scope. -/
def Leaks (ds : List Declaration) (n : Symbol) : Prop :=
  (ofDeclarations ds).nameFaults = [] ∧ ∃ order,
    (ofDeclarations ds).typeOrder Example.names = .ok order
      ∧ (((ofDeclarations ds).withOrder order).typing Structural.oracle).2.queries.any
        (Query.leaks n) = true

/-- What a rule input compares gets out of its scope, and so do own fields, parameters beside
function types and dependencies without a parameter. -/
theorem exposed_leak :
    Leaks Example.successor ⟨8⟩ ∧ Leaks Example.ownField ⟨8⟩ ∧ Leaks Example.beside ⟨13⟩
      ∧ Leaks Example.withoutParameter ⟨11⟩ := by
  refine ⟨⟨?_, [⟨7⟩], ?_, ?_⟩, ⟨?_, [⟨7⟩, ⟨10⟩], ?_, ?_⟩, ⟨?_, [], ?_, ?_⟩,
    ⟨?_, [⟨7⟩, ⟨9⟩, ⟨8⟩, ⟨10⟩], ?_, ?_⟩⟩ <;> cbv

end Schema

end DepSchema
