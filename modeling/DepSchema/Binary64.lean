/-
DepSchema.Binary64 — floating-point literals by their bit patterns.

A literal is kept as its 64 bits, so that two literals are equal exactly when their bits are: a
negative zero differs from a positive one and a NaN equals itself. Arithmetic rounds to nearest
with ties to even. An operation on a NaN gives the first NaN among its operands, made quiet; an
operation that is invalid on numbers gives `invalid`.
-/
namespace DepSchema

/-- A binary64 value, by its bits: sign, eleven bits of exponent, fifty-two of fraction. -/
structure Binary64 where
  bits : UInt64
  deriving Repr, DecidableEq

namespace Binary64

/-! ## §1. Fields of the pattern. -/

/-- The mask of the sign bit. -/
def signBit : UInt64 := 0x8000000000000000

/-- The mask of the exponent field; alone it is the pattern of positive infinity. -/
def exponentMask : UInt64 := 0x7FF0000000000000

/-- The mask of the fraction field. -/
def fractionMask : UInt64 := 0x000FFFFFFFFFFFFF

/-- The bit that tells a quiet NaN from a signalling one. -/
def quietBit : UInt64 := 0x0008000000000000

/-- Whether the sign bit is set. -/
def isNegative (x : Binary64) : Bool := x.bits &&& signBit != 0

/-- The exponent field, 1023 more than the exponent. -/
def biasedExponent (x : Binary64) : Nat := ((x.bits &&& exponentMask) >>> 52).toNat

/-- The fraction field. -/
def fraction (x : Binary64) : Nat := (x.bits &&& fractionMask).toNat

/-- Neither a NaN nor an infinity. -/
def isFinite (x : Binary64) : Bool := x.bits &&& exponentMask != exponentMask

/-- Whether the pattern stands for no number. -/
def isNaN (x : Binary64) : Bool := !x.isFinite && x.fraction != 0

/-- Whether the pattern is one of the two zeros. -/
def isZero (x : Binary64) : Bool := x.bits == 0 || x.bits == signBit

/-! ## §2. Arithmetic. -/

/-- The NaN that an operation gives when it has no number to give, as in `0 / 0`. -/
def invalid : Binary64 := ⟨signBit ||| exponentMask ||| quietBit⟩

/-- The quiet form of a NaN. -/
def quiet (x : Binary64) : Binary64 := ⟨x.bits ||| quietBit⟩

/-- An operation on numbers, taken over to bit patterns. -/
def lift (op : Float → Float → Float) (x y : Binary64) : Binary64 :=
  if x.isNaN then x.quiet
  else if y.isNaN then y.quiet
  else
    let r := op (Float.ofBits x.bits) (Float.ofBits y.bits)
    if r.isNaN then invalid else ⟨r.toBits⟩

def add : Binary64 → Binary64 → Binary64 := lift (· + ·)
def sub : Binary64 → Binary64 → Binary64 := lift (· - ·)
def mul : Binary64 → Binary64 → Binary64 := lift (· * ·)
def div : Binary64 → Binary64 → Binary64 := lift (· / ·)

/-- The other sign, of any pattern. -/
def neg (x : Binary64) : Binary64 := ⟨x.bits ^^^ signBit⟩

end Binary64

end DepSchema
