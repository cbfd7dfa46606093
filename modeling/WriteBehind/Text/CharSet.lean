/-!
# Sets of characters

The classes of characters that texts are read and written by: sets kept as the
closed intervals of their code points.
-/

namespace WriteBehind.Text

/-- A set of characters, given by closed intervals of code points. -/
structure CharSet where
  ranges : Array (Nat × Nat)

/-- Whether a character is in a set. -/
def CharSet.contains (s : CharSet) (c : Char) : Bool :=
  s.ranges.any fun range => range.1 ≤ c.toNat && c.toNat ≤ range.2

end WriteBehind.Text
