/-
DepSchema.VisitOrder — an order of types in which each comes after those it mentions.

A definition mentions a type by its name or by one of its constructors. Mentions in dependencies
and rule inputs count; a mention in a field counts unless it is of the type itself, so a type may
recur behind a field. The mentions between declared types make a graph, and a depth-first walk of
it, which takes names in the order of their texts, either puts every type after those it mentions
or meets a cycle.

The walk keeps the types that are still open, that is, not on the path that leads to the current
one. Each step down takes a type from them, so the walk ends; a declared type that is neither done
nor open is on the path, and closes a cycle.
-/
import DepSchema.Event
import DepSchema.Schema

namespace DepSchema

/-! ## §1. Mentions. -/

namespace Expr

mutual

/-- The types mentioned in an expression, in order, with repetitions. `owner` tells the type that
a constructor belongs to. -/
def mentions (owner : Symbol → Option Symbol) : Expr → List Symbol
  | binary _ _ l r => mentions owner l ++ mentions owner r
  | unary _ _ x => mentions owner x
  | type _ i ps => i.name :: mentionsAll owner ps
  | access _ => []
  | scalar _ _ => []
  | constructed _ c fs => (owner c.name).toList ++ mentionsFields owner fs
  | collection _ es => mentionsAll owner es
  | call _ _ as => mentionsAll owner as
termination_by structural e => e

/-- The types mentioned in several expressions. -/
def mentionsAll (owner : Symbol → Option Symbol) : List Expr → List Symbol
  | [] => []
  | e :: es => mentions owner e ++ mentionsAll owner es
termination_by structural es => es

/-- The types mentioned in the values of several fields. -/
def mentionsFields (owner : Symbol → Option Symbol) : List (Named Expr) → List Symbol
  | [] => []
  | f :: fs => mentions owner f.val ++ mentionsFields owner fs
termination_by structural fs => fs

end

end Expr

/-- The types mentioned in the types of some variables. -/
def Variable.mentions (owner : Symbol → Option Symbol) (vars : List Variable) : List Symbol :=
  vars.flatMap fun v => v.type.toExpr.mentions owner

/-- The types mentioned in a rule input. -/
def RuleInput.mentions (owner : Symbol → Option Symbol) : RuleInput → List Symbol
  | any _ => []
  | value e => e.mentions owner

/-- The types mentioned in some fields, without the type `self` that the fields belong to. -/
def Variable.mentionsBeside (owner : Symbol → Option Symbol) (self : Symbol)
    (fields : List Variable) : List Symbol :=
  (Variable.mentions owner fields).filter (· != self)

/-- The types that a definition mentions, in order, with repetitions. -/
def TypeDef.mentions (owner : Symbol → Option Symbol) : TypeDef → List Symbol
  | message m =>
    Variable.mentions owner m.deps ++ Variable.mentionsBeside owner m.ident.name m.fields
  | enum e =>
    Variable.mentions owner e.deps ++ e.rules.flatMap fun r =>
      r.inputs.flatMap (RuleInput.mentions owner)
        ++ r.constructors.flatMap fun c => Variable.mentionsBeside owner e.ident.name c.fields

/-! ## §2. The graph. -/

/-- The declared types and what each of them mentions. Mentioned types need not be declared. -/
structure MentionGraph where
  nodes : List Symbol
  targets : Symbol → List Symbol

namespace Schema

/-- What a type mentions, each once, in the order of the first mention. -/
def mentionsOf (s : Schema) (d : TypeDef) : List Symbol := (d.mentions s.owner?).eraseDups

/-- Names in the order of their texts. -/
def sortNames (t : SymbolTable) (names : List Symbol) : List Symbol :=
  names.mergeSort fun a b => t.text a ≤ t.text b

/-- The graph of mentions. Types and targets are in the order of their texts. -/
def mentionGraph (t : SymbolTable) (s : Schema) : MentionGraph where
  nodes := sortNames t (s.types.map TypeDef.name)
  targets name := ((s.type? name).map fun d => sortNames t (s.mentionsOf d)).getD []

end Schema

/-! ## §3. The walk. -/

namespace MentionGraph

/-- Visits the names in order, those that are declared and not done. `path` leads from a root to
the type whose targets these are; `opened` holds the declared types that are not on it. The result
is `done` with everything that was visited, each type after its targets, or a cycle, from a type
to itself. -/
def walk (g : MentionGraph) (opened path done : List Symbol) :
    List Symbol → Except (List Symbol) (List Symbol)
  | [] => .ok done
  | name :: rest =>
    if !g.nodes.contains name || done.contains name then g.walk opened path done rest
    else if name ∈ opened then
      match g.walk (opened.erase name) (path ++ [name]) done (g.targets name) with
      | .ok done => g.walk opened path (done ++ [name]) rest
      | .error cycle => .error cycle
    else .error (path.dropWhile (· != name) ++ [name])
termination_by names => (opened.length, names.length)
decreasing_by
  · exact Prod.Lex.right _ (Nat.lt_succ_self _)
  · rename_i h
    have hpos := List.length_pos_of_mem h
    exact Prod.Lex.left _ _ (by rw [List.length_erase_of_mem h]; omega)
  · exact Prod.Lex.right _ (Nat.lt_succ_self _)

/-- All types, each after those it mentions, or a cycle. -/
def order (g : MentionGraph) : Except (List Symbol) (List Symbol) := g.walk g.nodes [] [] g.nodes

end MentionGraph

namespace Schema

/-- The order of the declared types, or the fault that there is none. -/
def typeOrder (t : SymbolTable) (s : Schema) : Except Diagnostic (List Symbol) :=
  (s.mentionGraph t).order.mapError fun path => .unlocated (.dependencyCycle path)

/-- What is noted while the order is found: every mention, then the cycle if there is one. -/
def orderEvents (t : SymbolTable) (s : Schema) : List Event :=
  (s.types.flatMap fun d => (s.mentionsOf d).map (.mentionFound d.name)) ++
    match (s.mentionGraph t).order with
    | .ok _ => []
    | .error path => [.cycleFound path]

/-- The schema with the order of its types noted. -/
def withOrder (s : Schema) (order : List Symbol) : Schema := { s with visitOrder := order }

end Schema

end DepSchema
