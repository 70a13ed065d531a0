/-
DepSchema.Decimal.Form — how a floating-point literal is written.

`Dyadic.shortest` fixes the digits; a `Form` fixes where the point goes and when an exponent is
used. Two forms occur: `Form.shown`, in which expressions are printed, and `Form.plain`, whose
width is the width of a literal in the written schema.
-/
import DepSchema.Decimal.Shortest

namespace DepSchema

/-- The decisions that the digits leave open. -/
structure Form where
  /-- Whether a number with leading digit at `10^e` is written without an exponent. -/
  positional : Int → Bool
  /-- Whether a whole number ends in `.0`. -/
  pointZero : Bool

namespace Form

/-- Literals as they are shown: positional from 10^-4 up to 10^16, otherwise with an exponent,
and whole numbers end in `.0`. -/
def shown : Form := ⟨fun e => -4 ≤ e && e < 16, true⟩

/-- Literals as they are written: always positional, whole numbers without a point. -/
def plain : Form := ⟨fun _ => true, false⟩

/-- Digits `cs` with the point after the first `k` of them, and zeros where there are none. -/
def point (f : Form) (cs : List Char) (k : Int) : List Char :=
  if k ≤ 0 then '0' :: '.' :: (List.replicate (-k).toNat '0' ++ cs)
  else if cs.length ≤ k then
    cs ++ List.replicate (k.toNat - cs.length) '0' ++ (if f.pointZero then ['.', '0'] else [])
  else cs.take k.toNat ++ '.' :: cs.drop k.toNat

/-- Digits `cs` with the point after the first one, and the exponent `e` of ten. -/
def scientific (cs : List Char) (e : Int) : List Char :=
  match cs with
  | c :: r@(_ :: _) => c :: '.' :: r ++ 'e' :: (toString e).toList
  | cs => cs ++ 'e' :: (toString e).toList

/-- A positive number. -/
def number (f : Form) (d : Decimal) : List Char :=
  let cs := d.digitChars
  let k := (cs.length : Int) + d.exponent
  if f.positional (k - 1) then f.point cs k else scientific cs (k - 1)

/-- The text of a literal. A NaN has no sign. -/
def text (f : Form) (x : Binary64) : String :=
  if x.isNaN then "NaN"
  else
    let magnitude :=
      if !x.isFinite then "inf".toList
      else if x.isZero then f.point ['0'] 1
      else f.number x.magnitude.shortest
    String.ofList (if x.isNegative then '-' :: magnitude else magnitude)

end Form

end DepSchema
