/-
DepSchema.Symbol — names as handles.

A schema mentions the same few names many times, so a name is carried around as the number of its
slot in a symbol table (`DepSchema.Symbol.Table`) and two names are equal when their handles are.
The first seven slots of every table belong to the builtin types; `isScalar`,
`isCollection` and `isBuiltin` can therefore be read off the handle alone.
-/
namespace DepSchema

/-- The handle of a name: the number of its slot in a symbol table, 32 bits wide. -/
structure Symbol where
  index : UInt32
  deriving Repr, DecidableEq

namespace Symbol

/-! ## §1. The builtin types. -/

def int : Symbol := ⟨0⟩
def unsigned : Symbol := ⟨1⟩
def float : Symbol := ⟨2⟩
def bool : Symbol := ⟨3⟩
def string : Symbol := ⟨4⟩
def array : Symbol := ⟨5⟩
def set : Symbol := ⟨6⟩

/-- The builtin types in the order of their slots. -/
def builtins : List Symbol := [int, unsigned, float, bool, string, array, set]

/-- The types whose values are literals: `Int`, `Unsigned`, `Float`, `Bool` and `String`. -/
def isScalar (s : Symbol) : Bool := s.index ≤ string.index

/-- The types of collections: `Array` and `Set`. -/
def isCollection (s : Symbol) : Bool := s == array || s == set

/-- The types that every schema has without declaring them. -/
def isBuiltin (s : Symbol) : Bool := s.index ≤ set.index

/-! ## §2. Order. -/

/-- Names are ordered by slot, so a name that was met earlier comes first. -/
instance : Ord Symbol := ⟨fun a b => compare a.index b.index⟩

/-- The slot of a name, as a number without bound. -/
def slot (s : Symbol) : Nat := s.index.toNat

/-- The handle of a slot. Slots from 2^32 on share the handles of earlier ones. -/
def ofSlot (n : Nat) : Symbol := ⟨n.toUInt32⟩

end Symbol

end DepSchema
