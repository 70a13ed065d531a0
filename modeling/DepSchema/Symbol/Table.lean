/-
DepSchema.Symbol.Table — the table that gives names their handles.

A table is the list of the names it has met, in order of first meeting; the handle of a name is
its position. Interning a name that is present changes nothing, interning a new one appends it, so
no handle ever changes its meaning. A new table holds the seven builtin types.
-/
import DepSchema.Symbol

namespace DepSchema

/-- The names met so far, each in its slot. -/
structure SymbolTable where
  names : List String
  deriving Repr, DecidableEq

namespace SymbolTable

/-- The names of the builtin types, in the order of their slots. -/
def builtinNames : List String := ["Int", "Unsigned", "Float", "Bool", "String", "Array", "Set"]

/-- The table that has met nothing but the builtin types. -/
def initial : SymbolTable := ⟨builtinNames⟩

/-- The handle of a name that the table has met. -/
def find? (t : SymbolTable) (text : String) : Option Symbol :=
  (t.names.idxOf? text).map Symbol.ofSlot

/-- The handle of a name, and the table after meeting it. -/
def intern (t : SymbolTable) (text : String) : Symbol × SymbolTable :=
  match t.find? text with
  | some s => (s, t)
  | none => (Symbol.ofSlot t.names.length, ⟨t.names ++ [text]⟩)

/-- What stands for a handle that the table never gave out. -/
def unknown : String := "<?>"

/-- The name behind a handle. -/
def text (t : SymbolTable) (s : Symbol) : String := t.names[s.slot]?.getD unknown

/-- The number of names met so far. -/
def size (t : SymbolTable) : Nat := t.names.length

/-- Whether no name was met. -/
def isEmpty (t : SymbolTable) : Bool := t.names.isEmpty

end SymbolTable

end DepSchema
