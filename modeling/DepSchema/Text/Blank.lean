/-
DepSchema.Text.Blank — white space and trimming.

The property White_Space of Unicode: twenty-five characters in ten ranges.
-/
import DepSchema.Text.Ranges

namespace DepSchema.Text

/-- The code points of white space. -/
def blank : Ranges :=
  [(0x9, 0xD), (0x20, 0x20), (0x85, 0x85), (0xA0, 0xA0), (0x1680, 0x1680), (0x2000, 0x200A),
   (0x2028, 0x2029), (0x202F, 0x202F), (0x205F, 0x205F), (0x3000, 0x3000)]

/-- The text without the white space at its two ends. -/
def trim (cs : List Char) : List Char :=
  ((cs.dropWhile blank.contains).reverse.dropWhile blank.contains).reverse

/-- The text with the letters from `A` to `Z` made small; other letters stay. -/
def lowerAscii (cs : List Char) : List Char :=
  cs.map fun c => if 'A' ≤ c && c ≤ 'Z' then Char.ofNat (c.toNat + 32) else c

end DepSchema.Text
