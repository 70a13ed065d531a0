/-
DepSchema.Schema — a schema as a whole.

Types and functions are kept in the order of their names' handles. The first declaration of a name
stays; a later one is refused and only noted in `refused`. Each constructor belongs to the type
that declared it first.
-/
import DepSchema.Declaration

namespace DepSchema

/-- Inserts an item into a list ordered by key, before the items with a greater key. -/
def insertByKey {α : Type} (key : α → Symbol) (x : α) : List α → List α
  | [] => [x]
  | y :: ys => if (key x).slot < (key y).slot then x :: y :: ys else y :: insertByKey key x ys

/-- The declarations of a schema, and what the checks know about them. -/
structure Schema where
  /-- The declared types, ordered by name. -/
  types : List TypeDef
  /-- The declared functions, ordered by name. -/
  functions : List FunctionDef
  /-- The type that each constructor belongs to. -/
  owners : List (Symbol × Symbol)
  /-- An order of the types in which each comes after those it needs. -/
  visitOrder : List Symbol
  /-- The declarations that were refused, in the order in which they came. -/
  refused : List (Ident × NameKind)
  deriving Repr

namespace Schema

/-- The schema that declares nothing. -/
def empty : Schema := ⟨[], [], [], [], []⟩

/-! ## §1. Look-ups. -/

/-- The declared type of that name. -/
def type? (s : Schema) (name : Symbol) : Option TypeDef := s.types.find? fun d => d.name == name

/-- The declared function of that name. -/
def function? (s : Schema) (name : Symbol) : Option FunctionDef :=
  s.functions.find? fun f => f.name == name

/-- The type that a constructor belongs to. -/
def owner? (s : Schema) (ctor : Symbol) : Option Symbol := s.owners.lookup ctor

/-- The dependencies of a declared type. -/
def deps? (s : Schema) (name : Symbol) : Option (List Variable) := (s.type? name).map TypeDef.deps

/-- A constructor with the type it belongs to. -/
def constructor? (s : Schema) (name : Symbol) : Option (TypeDef × Constructor) := do
  let d ← s.type? (← s.owner? name)
  let c ← d.constructor? name
  pure (d, c)

/-! ## §2. Adding declarations. -/

/-- Gives a constructor to a type, unless it belongs to one already. -/
def claim (type : Symbol) (s : Schema) (ctor : Symbol) : Schema :=
  if (s.owner? ctor).isSome then s else { s with owners := s.owners ++ [(ctor, type)] }

/-- Adds a type, unless its name is taken by another one. -/
def addType (s : Schema) (d : TypeDef) : Schema :=
  if (s.type? d.name).isSome then { s with refused := s.refused ++ [(d.ident, d.kind)] }
  else
    let s := (d.constructors.map Constructor.name).foldl (claim d.name) s
    { s with types := insertByKey TypeDef.name d s.types }

/-- Adds a function, unless its name is taken by another one. -/
def addFunction (s : Schema) (f : FunctionDef) : Schema :=
  if (s.function? f.name).isSome then { s with refused := s.refused ++ [(f.ident, .function)] }
  else { s with functions := insertByKey FunctionDef.name f s.functions }

/-- Gives a constructor to a type, taking it from the one that it belongs to. -/
def setOwner (s : Schema) (ctor type : Symbol) : Schema :=
  { s with owners := (ctor, type) :: s.owners.filter fun p => p.1 != ctor }

end Schema

end DepSchema
