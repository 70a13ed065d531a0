/-
DepSchema.Decimal.Shortest — the fewest digits that read back.

A binary64 value stands for all reals that round to it, an interval around it. Among the decimals
in that interval `shortest` takes one with the fewest digits, of these the nearest to the value,
and of two equally near the larger. The search is exact: for one digit, two, and so on, it tests
the two neighbours of the value on the grid of decimals with that many digits. If any point of a
grid lies in the interval, one of these two does.
-/
import DepSchema.Binary64

namespace DepSchema

/-- The number `digits * 10^exponent`. -/
structure Decimal where
  digits : Nat
  exponent : Int
  deriving Repr, DecidableEq

namespace Decimal

/-- The same number with the trailing zeros of its digits moved into the exponent. -/
def strip (d : Decimal) : Decimal :=
  if h : d.digits ≠ 0 ∧ d.digits % 10 = 0 then
    strip ⟨d.digits / 10, d.exponent + 1⟩
  else d
termination_by d.digits
decreasing_by exact Nat.div_lt_self (by omega) (by omega)

/-- The decimal digits, most significant first. -/
def digitChars (d : Decimal) : List Char := Nat.toDigits 10 d.digits

end Decimal

/-! ## §1. A positive value and its interval. -/

/-- The positive number `mantissa * 2^exponent` on the grid of binary64 values. -/
structure Dyadic where
  mantissa : Nat
  exponent : Int
  /-- The gap to the value below is half the gap to the value above. -/
  narrowBelow : Bool
  deriving Repr, DecidableEq

/-- The magnitude of a finite value. -/
def Binary64.magnitude (x : Binary64) : Dyadic :=
  let e := x.biasedExponent
  if e = 0 then ⟨x.fraction, -1074, false⟩
  else ⟨0x10000000000000 + x.fraction, (e : Int) - 1075, x.fraction == 0 && e > 1⟩

namespace Dyadic

/-- Compares `d` with the point `n * 2^(exponent - 2)`, a quarter unit of `v` each. -/
def compareAt (v : Dyadic) (d : Decimal) (n : Nat) : Ordering :=
  compare (4 * d.digits * Nat.pow 10 d.exponent.toNat * Nat.pow 2 (-v.exponent).toNat)
    (n * Nat.pow 2 v.exponent.toNat * Nat.pow 10 (-d.exponent).toNat)

/-- Whether `d` is among the reals that round to `v`: between the points halfway to its
neighbours, which count exactly when the mantissa is even. -/
def readsBack (v : Dyadic) (d : Decimal) : Bool :=
  let below := v.compareAt d (4 * v.mantissa - (if v.narrowBelow then 1 else 2))
  let above := v.compareAt d (4 * v.mantissa + 2)
  if v.mantissa % 2 = 0 then below != .lt && above != .gt else below == .gt && above == .lt

/-! ## §2. The search. -/

/-- The position of the point before the leading digit: the least `k` with the value below
`10^k`. -/
def scale (v : Dyadic) : Int :=
  let (num, den) := (v.mantissa * Nat.pow 2 v.exponent.toNat, Nat.pow 2 (-v.exponent).toNat)
  if den ≤ num then (Nat.toDigits 10 (num / den)).length
  else 1 - ((Nat.toDigits 10 ((den - 1) / num)).length : Int)

/-- The greatest decimal with last place `10^place` that is not above the value. -/
def floorAt (v : Dyadic) (place : Int) : Decimal :=
  ⟨v.mantissa * Nat.pow 2 v.exponent.toNat * Nat.pow 10 (-place).toNat
    / (Nat.pow 2 (-v.exponent).toNat * Nat.pow 10 place.toNat), place⟩

/-- The neighbour of the value on the grid of `place` that reads back, the nearer one if both
do, and the upper one if they are equally near. -/
def nearestAt? (v : Dyadic) (place : Int) : Option Decimal :=
  let lower := v.floorAt place
  let upper : Decimal := ⟨lower.digits + 1, place⟩
  match v.readsBack lower, v.readsBack upper with
  | true, true =>
    -- twice the value against the sum of the two
    let middle : Decimal := ⟨2 * lower.digits + 1, place⟩
    if v.compareAt middle (8 * v.mantissa) == .gt then some lower else some upper
  | true, false => some lower
  | false, true => some upper
  | false, false => none

/-- The value itself, written out. -/
def exact (v : Dyadic) : Decimal :=
  ⟨v.mantissa * Nat.pow 2 v.exponent.toNat * Nat.pow 5 (-v.exponent).toNat, min v.exponent 0⟩

/-- The shortest decimal that reads back. Seventeen digits always suffice. -/
def shortest (v : Dyadic) : Decimal :=
  let grids := (List.range 17).map fun n => v.scale - (n + 1 : Nat)
  ((grids.findSome? v.nearestAt?).getD v.exact).strip

end Dyadic

end DepSchema
