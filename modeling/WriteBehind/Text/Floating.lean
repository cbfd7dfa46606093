import WriteBehind.Binary64
import WriteBehind.Text.Integer

/-!
# Floating-point numbers in text

Decimal notation: a sign or none, digits with a point among or around them, and
an exponent.  At least one digit stands before the exponent.  The names of
infinity and of not-a-number are read in any case.
-/

namespace WriteBehind.Text

/-- The exponent of a number, zero where there is none. -/
def exponent? : List Char → Option Int
  | [] => some 0
  | c :: cs =>
    if c == 'e' || c == 'E' then
      match cs with
      | '-' :: ds => (natural? ds).map fun n => -(n : Int)
      | '+' :: ds => (natural? ds).map fun n => (n : Int)
      | ds => (natural? ds).map fun n => (n : Int)
    else none

/-- The magnitude that a list of characters is. -/
def magnitude? (cs : List Char) : Option Binary64 :=
  let name := (String.ofList cs).map Char.toLower
  if name = "inf" || name = "infinity" then some .infinity
  else if name = "nan" then some .nan
  else
    let whole := cs.takeWhile Char.isDigit
    let rest := cs.drop whole.length
    let hasPoint := rest.head? == some '.'
    let fraction := if hasPoint then (rest.drop 1).takeWhile Char.isDigit else []
    let rest := if hasPoint then rest.drop (fraction.length + 1) else rest
    if whole.isEmpty && fraction.isEmpty then none
    else
      (exponent? rest).map fun exponent =>
        .ofDecimal ⟨digitsValue (whole ++ fraction), exponent - fraction.length⟩

/-- The floating-point number that a text is. -/
def float? (s : String) : Option Binary64 :=
  match s.toList with
  | '-' :: cs => (magnitude? cs).map (·.withSign true)
  | '+' :: cs => magnitude? cs
  | cs => magnitude? cs

end WriteBehind.Text
