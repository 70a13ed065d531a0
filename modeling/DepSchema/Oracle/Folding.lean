/-
DepSchema.Oracle.Folding — computing what is constant.

`Expr.fold` works from the leaves up and replaces an operator between literals by the literal that
it gives. Integers are computed exactly and stay unfolded where the result does not fit: two
unsigned operands give an unsigned result if they can, all else gives a signed one. Floats are
computed as binary64, strings are concatenated, truth values joined by and, or and not.
-/
import DepSchema.Expr

namespace DepSchema

namespace Scalar

/-- The number that an integer literal stands for. -/
def integer? : Scalar → Option Int
  | int v => some v.toInt
  | unsigned v => some v.toNat
  | _ => none

/-- Whether a literal is an unsigned integer. -/
def isUnsigned : Scalar → Bool
  | unsigned _ => true
  | _ => false

/-- The signed literal of a number between -2^63 and 2^63 - 1. -/
def signedOf? (n : Int) : Option Scalar :=
  if -0x8000000000000000 ≤ n ∧ n < 0x8000000000000000 then some (int (Int64.ofInt n)) else none

/-- The unsigned literal of a number between 0 and 2^64 - 1. -/
def unsignedOf? (n : Int) : Option Scalar :=
  if 0 ≤ n ∧ n < 0x10000000000000000 then some (unsigned (UInt64.ofNat n.toNat)) else none

end Scalar

/-- What an operator does to whole numbers. -/
def BinaryOp.onIntegers? : BinaryOp → Option (Int → Int → Int)
  | .add => some (· + ·)
  | .sub => some (· - ·)
  | .mul => some (· * ·)
  | _ => none

/-- What an operator gives for two literals, if that is a literal again. -/
def BinaryOp.eval? (op : BinaryOp) (a b : Scalar) : Option Scalar :=
  match a.integer?, b.integer? with
  | some m, some n => do
    let r := (← op.onIntegers?) m n
    if a.isUnsigned && b.isUnsigned then Scalar.unsignedOf? r <|> Scalar.signedOf? r
      else Scalar.signedOf? r
  | _, _ =>
    match op, a, b with
    | .add, .float x, .float y => some (.float (x.add y))
    | .sub, .float x, .float y => some (.float (x.sub y))
    | .mul, .float x, .float y => some (.float (x.mul y))
    | .div, .float x, .float y => some (.float (x.div y))
    | .add, .string x, .string y => some (.string (x ++ y))
    | .and, .bool x, .bool y => some (.bool (x && y))
    | .or, .bool x, .bool y => some (.bool (x || y))
    | _, _, _ => none

/-- What an operator gives for a literal, if that is a literal again. -/
def UnaryOp.eval? (op : UnaryOp) (a : Scalar) : Option Scalar :=
  match op, a with
  | .neg, .int v => Scalar.signedOf? (-v.toInt)
  | .neg, .unsigned v =>
    if v.toNat < 0x8000000000000000 then Scalar.signedOf? (-v.toNat) else none
  | .neg, .float x => some (.float x.neg)
  | .not, .bool b => some (.bool !b)
  | _, _ => none

namespace Expr

/-- An operator applied to folded operands. -/
def evalBinary (span : Span) (op : BinaryOp) (l r : Expr) : Expr :=
  match l.scalar?, r.scalar? with
  | some a, some b =>
    match op.eval? a b with
    | some v => scalar span v
    | none => binary span op l r
  | _, _ => binary span op l r

/-- An operator applied to a folded operand. -/
def evalUnary (span : Span) (op : UnaryOp) (x : Expr) : Expr :=
  match x.scalar?.bind op.eval? with
  | some v => scalar span v
  | none => unary span op x

mutual

/-- The expression with every constant part computed. A literal takes the place of its operator. -/
def fold : Expr → Expr
  | binary span op l r => evalBinary span op (fold l) (fold r)
  | unary span op x => evalUnary span op (fold x)
  | type span i ps => type span i (foldAll ps)
  | access a => access a
  | scalar span v => scalar span v
  | constructed span c fs => constructed span c (foldFields fs)
  | collection span es => collection span (foldAll es)
  | call span f as => call span f (foldAll as)
termination_by structural e => e

/-- Several expressions, folded. -/
def foldAll : List Expr → List Expr
  | [] => []
  | e :: es => fold e :: foldAll es
termination_by structural es => es

/-- The values of several fields, folded. -/
def foldFields : List (Named Expr) → List (Named Expr)
  | [] => []
  | f :: fs => ⟨f.name, fold f.val⟩ :: foldFields fs
termination_by structural fs => fs

end

end Expr

end DepSchema
