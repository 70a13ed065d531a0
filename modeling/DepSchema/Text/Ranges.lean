/-
DepSchema.Text.Ranges — sets of characters as ranges of code points.
-/
namespace DepSchema.Text

/-- A set of code points: closed ranges, ascending and apart. -/
abbrev Ranges := List (Nat × Nat)

/-- Whether a character is in the set. -/
def Ranges.contains (rs : Ranges) (c : Char) : Bool :=
  rs.any fun r => r.1 ≤ c.toNat && c.toNat ≤ r.2

/-- Whether the ranges ascend and leave a gap between any two. -/
def Ranges.ascending : Ranges → Bool
  | [] => true
  | [r] => r.1 ≤ r.2
  | r :: s :: rest => r.1 ≤ r.2 && r.2 + 1 < s.1 && Ranges.ascending (s :: rest)

end DepSchema.Text
