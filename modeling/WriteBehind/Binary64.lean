/-!
# Binary floating-point numbers

Numbers of the 64-bit binary format, kept as their bits.  A finite number is
`m · 2 ^ q` for natural `m`, and all that is decided about it (its shortest
decimal, its rounding to an integer) is decided on `m` and `q` in exact
arithmetic.
-/

namespace WriteBehind

/-- A 64-bit binary floating-point number. -/
structure Binary64 where
  bits : UInt64
deriving DecidableEq, Repr

/-- The decimal number `digits · 10 ^ exponent`. -/
structure Decimal where
  digits : Nat
  exponent : Int
deriving DecidableEq, Repr

/-- Which of two decimals is taken when both are as near. -/
inductive Tie where
  /-- The one with an even last digit. -/
  | toEven
  /-- The larger one. -/
  | up
deriving DecidableEq, Repr

/-- A decimal without zeros at its end; `fuel` bounds their number. -/
def Decimal.strip : Nat → Decimal → Decimal
  | 0, d => d
  | fuel + 1, d =>
    if d.digits != 0 && d.digits % 10 == 0 then
      Decimal.strip fuel ⟨d.digits / 10, d.exponent + 1⟩
    else d

namespace Binary64

/-- Whether the sign bit is set. -/
def negative (x : Binary64) : Bool := x.bits.toNat >>> 63 == 1

/-- The eleven bits of the exponent. -/
def exponentBits (x : Binary64) : Nat := (x.bits.toNat >>> 52) % 0x800

/-- The 52 bits of the fraction. -/
def fractionBits (x : Binary64) : Nat := x.bits.toNat % 0x10000000000000

/-- Neither infinite nor not-a-number. -/
def isFinite (x : Binary64) : Bool := x.exponentBits != 2047

/-- Not a number. -/
def isNaN (x : Binary64) : Bool := x.exponentBits == 2047 && x.fractionBits != 0

/-- Positive or negative zero. -/
def isZero (x : Binary64) : Bool := x.exponentBits == 0 && x.fractionBits == 0

/-- The natural number `m` of the magnitude `m · 2 ^ q`. -/
def mantissa (x : Binary64) : Nat :=
  if x.exponentBits = 0 then x.fractionBits else x.fractionBits + 0x10000000000000

/-- The exponent `q` of the magnitude `m · 2 ^ q`. -/
def scale (x : Binary64) : Int :=
  if x.exponentBits = 0 then -1074 else (x.exponentBits : Int) - 1075

/-- Equality of numbers: both zeros are equal, and not-a-number equals nothing. -/
def same (x y : Binary64) : Bool :=
  !x.isNaN && !y.isNaN && (x == y || x.isZero && y.isZero)

/-- Positive infinity. -/
def infinity : Binary64 := ⟨0x7ff0000000000000⟩

/-- Not a number. -/
def nan : Binary64 := ⟨0x7ff8000000000000⟩

/-- The number with the opposite sign. -/
def neg (x : Binary64) : Binary64 := ⟨x.bits ^^^ 0x8000000000000000⟩

/-- The number of decimal digits of a natural number. -/
def decimalLength (n : Nat) : Nat := (Nat.toDigits 10 n).length

/-- The number nearest to a decimal.  Far exponents decide without arithmetic. -/
def ofDecimal (d : Decimal) : Binary64 :=
  let top : Int := decimalLength d.digits + d.exponent
  if d.digits = 0 || top < -400 then ⟨0⟩
  else if 400 < top then infinity
  else if d.exponent < 0 then
    ⟨(Float.ofScientific d.digits true d.exponent.natAbs).toBits⟩
  else
    ⟨(Float.ofScientific d.digits false d.exponent.natAbs).toBits⟩

/-- A number or its opposite. -/
def withSign (negative : Bool) (x : Binary64) : Binary64 :=
  if negative then x.neg else x

/-- A number divided by a power of ten.  Powers beyond the largest finite one are
taken in turns, of which few leave anything of a number below `2 ^ 64`. -/
def shrink : Nat → Float → Nat → Binary64
  | 0, _, _ => ⟨0⟩
  | turns + 1, x, power =>
    if power ≤ 308 then ⟨(x / Float.ofScientific 1 false power).toBits⟩
    else shrink turns (x / Float.ofScientific 1 false 308) (power - 308)

/-- A number below `2 ^ 64` scaled by a power of ten.  The number and the power
are rounded, and so is their product or quotient; no result is infinite. -/
def scaled? (n : Nat) (exponent : Int) : Option Binary64 :=
  let x := Float.ofNat n
  if exponent < 0 then some (shrink 4 x exponent.natAbs)
  else if 308 < exponent then if n = 0 then some ⟨0⟩ else none
  else
    let y : Binary64 := ⟨(x * Float.ofScientific 1 false exponent.natAbs).toBits⟩
    if y.isFinite then some y else none

/-! ## Shortest decimals

The reals that round to `m · 2 ^ q` are those between the midpoints to its two
neighbours.  They are written over the common denominator `4`, since the lower
midpoint is only a quarter away when `m` starts a new power of two. -/

/-- `n · 2 ^ q` as a fraction of natural numbers. -/
def fraction (n : Nat) (q : Int) : Nat × Nat :=
  if 0 ≤ q then (n <<< q.natAbs, 1) else (n, 1 <<< q.natAbs)

/-- Compares the decimal `d · 10 ^ k` with a fraction. -/
def compareDecimal (d : Nat) (k : Int) (f : Nat × Nat) : Ordering :=
  if 0 ≤ k then
    compare (d * Nat.pow 10 k.natAbs * f.2) f.1
  else
    compare (d * f.2) (f.1 * Nat.pow 10 k.natAbs)

/-- The integral part of a fraction divided by `10 ^ k`. -/
def floorAt (f : Nat × Nat) (k : Int) : Nat :=
  if 0 ≤ k then f.1 / (f.2 * Nat.pow 10 k.natAbs) else f.1 * Nat.pow 10 k.natAbs / f.2

/-- Whether `2 d + 1` half steps of `10 ^ k` exceed, meet or miss a fraction. -/
def compareHalf (d : Nat) (k : Int) (f : Nat × Nat) : Ordering :=
  compareDecimal (2 * d + 1) k (2 * f.1, f.2)

/-- The decimal of a grid `10 ^ k` that rounds to the number `m · 2 ^ q`: the
nearer of the two neighbours, the rule for ties deciding when both are as near. -/
def onGrid? (tie : Tie) (m : Nat) (q : Int) (boundary : Bool) (k : Int) : Option Decimal :=
  let value := fraction (4 * m) (q - 2)
  let low := fraction (if boundary then 4 * m - 1 else 4 * m - 2) (q - 2)
  let high := fraction (4 * m + 2) (q - 2)
  let closed := m % 2 == 0
  let inside (d : Nat) : Bool :=
    (compareDecimal d k low == .gt && compareDecimal d k high == .lt) ||
      closed && (compareDecimal d k low == .eq || compareDecimal d k high == .eq)
  let d := floorAt value k
  let nearer : Nat :=
    match compareHalf d k value with
    | .gt => d
    | .lt => d + 1
    | .eq => if tie = .toEven && d % 2 == 0 then d else d + 1
  let farther := if nearer = d then d + 1 else d
  if inside nearer then some ⟨nearer, k⟩
  else if inside farther then some ⟨farther, k⟩
  else none

/-- The decimal with the fewest digits that reads back as the magnitude of a
finite number.  Grids are tried from one digit to seventeen. -/
def shortest (x : Binary64) (tie : Tie) : Decimal :=
  if x.mantissa = 0 then ⟨0, 0⟩
  else
    let m := x.mantissa
    let q := x.scale
    let top : Int := (decimalLength (floorAt (fraction m q) (-330)) : Int) - 330
    let boundary := m == 0x10000000000000 && x.exponentBits != 1
    let grid? := (List.range 17).findSome? fun (n : Nat) => onGrid? tie m q boundary (top - 1 - n)
    Decimal.strip 20 (grid?.getD ⟨m, q⟩)

/-- The magnitude rounded to the nearest integer, a half away from zero. -/
def roundMagnitude (x : Binary64) : Nat :=
  let f := fraction x.mantissa x.scale
  (2 * f.1 + f.2) / (2 * f.2)

/-! ## Texts -/

/-- A run of zeros. -/
def zeros (n : Nat) : String := String.ofList (List.replicate n '0')

/-- The digits of a decimal in positional notation, without a fraction of zero. -/
def positional (d : Decimal) : String :=
  let digits := toString d.digits
  let point : Int := digits.length + d.exponent
  if d.digits = 0 then "0"
  else if 0 ≤ d.exponent then digits ++ zeros d.exponent.natAbs
  else if 0 < point then
    (digits.take point.natAbs).toString ++ "." ++ (digits.drop point.natAbs).toString
  else "0." ++ zeros point.natAbs ++ digits

/-- The sign in front of a number. -/
def sign (x : Binary64) : String := if x.negative then "-" else ""

/-- Positional text: every digit is written out, integers have no point, and of two
decimals as near the larger one is taken. -/
def plainText (x : Binary64) : String :=
  if x.isNaN then "NaN"
  else if !x.isFinite then x.sign ++ "inf"
  else x.sign ++ positional (x.shortest .up)

/-- The exponent of a power of ten, with its sign. -/
def exponentText (k : Int) : String :=
  "e" ++ (if 0 ≤ k then "+" else "-") ++ toString k.natAbs

/-- The text of a number in documents: positional from `1e-5` up to `1e+16`, with
`.0` after an integer, and with a signed exponent elsewhere.  Of two decimals as
near the even one is taken. -/
def documentText (x : Binary64) : String :=
  let d := x.shortest .toEven
  let digits := toString d.digits
  let point : Int := digits.length + d.exponent
  let body :=
    if d.digits = 0 then "0.0"
    else if 0 ≤ d.exponent && point ≤ 16 then positional d ++ ".0"
    else if -5 < point && point ≤ 16 then positional d
    else
      let fractional := (digits.drop 1).toString
      let tail := if fractional.isEmpty then "" else "." ++ fractional
      (digits.take 1).toString ++ tail ++ exponentText (point - 1)
  x.sign ++ body

end Binary64

end WriteBehind
