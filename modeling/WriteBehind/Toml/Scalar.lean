import WriteBehind.Json.Basic
import WriteBehind.Text.Integer

/-!
# TOML scalars

The value of an unquoted TOML token: an integer in one of four bases, a
floating-point number or a date or time.  Digits may be grouped by single
underscores.  Dates and times become texts in their normal form.
-/

namespace WriteBehind.Toml

/-- The characters that unquoted values are made of. -/
def isTokenChar (c : Char) : Bool := c.isAlphanum || "+-._:".toList.contains c

/-! ## Numbers -/

/-- Digits without the underscores between them. -/
def ungroup? (isDigit : Char → Bool) : List Char → Option (List Char)
  | [] => none
  | [c] => if isDigit c then some [c] else none
  | c :: '_' :: d :: rest =>
    if isDigit c && isDigit d then (ungroup? isDigit (d :: rest)).map (c :: ·) else none
  | c :: rest => if isDigit c then (ungroup? isDigit rest).map (c :: ·) else none

/-- The sign in front of a number, whether it is a minus, and the rest. -/
def splitSign : List Char → Bool × List Char
  | '-' :: cs => (true, cs)
  | '+' :: cs => (false, cs)
  | cs => (false, cs)

/-- A number with its sign, if it fits 64 signed bits. -/
def int64? (negative : Bool) (n : Nat) : Option Json :=
  if negative then if n ≤ 0x8000000000000000 then some (.int (-n)) else none
  else if n < 0x8000000000000000 then some (.int n) else none

/-- Decimal digits that do not start with a superfluous zero. -/
def wholeDigits? (cs : List Char) : Option (List Char) :=
  (ungroup? Char.isDigit cs).filter fun ds => ds.length = 1 || ds.head? != some '0'

/-- The value of a digit in bases up to sixteen. -/
def digitValue (c : Char) : Nat :=
  if c.isDigit then c.toNat - 48 else if c.toNat < 97 then c.toNat - 55 else c.toNat - 87

/-- An integer written in a base, its digits grouped by underscores. -/
def radix? (base : Nat) (cs : List Char) : Option Json :=
  let isDigit (c : Char) : Bool := c.isAlphanum && digitValue c < base
  (ungroup? isDigit cs).bind fun ds =>
    int64? false (ds.foldl (fun n c => base * n + digitValue c) 0)

/-- The integer that a token is. -/
def integer? : List Char → Option Json
  | '0' :: 'x' :: cs => radix? 16 cs
  | '0' :: 'o' :: cs => radix? 8 cs
  | '0' :: 'b' :: cs => radix? 2 cs
  | cs =>
    let (negative, cs) := splitSign cs
    (wholeDigits? cs).bind fun ds => int64? negative (Text.digitsValue ds)

/-- The exponent after `e`. -/
def exponent? (cs : List Char) : Option Int :=
  let (negative, cs) := splitSign cs
  (ungroup? Char.isDigit cs).map fun ds =>
    let n : Int := Text.digitsValue ds
    if negative then -n else n

/-- The floating-point number that a token is.  A number greater than all finite
ones is refused, one that is less becomes the negative infinity. -/
def float? (cs : List Char) : Option Json :=
  let (negative, cs) := splitSign cs
  if cs = ['i', 'n', 'f'] then some (.float (Binary64.infinity.withSign negative))
  else if cs = ['n', 'a', 'n'] then some (.float (Binary64.nan.withSign negative))
  else
    let isMark (c : Char) : Bool := c == 'e' || c == 'E'
    let mantissa := cs.takeWhile (!isMark ·)
    let exponent := (cs.dropWhile (!isMark ·)).drop 1
    let whole := mantissa.takeWhile (· != '.')
    let fraction := (mantissa.dropWhile (· != '.')).drop 1
    let hasExponent := cs.any isMark
    let hasFraction := mantissa.contains '.'
    if !hasExponent && !hasFraction then none
    else do
      let whole ← wholeDigits? whole
      let fraction ← if hasFraction then ungroup? Char.isDigit fraction else some []
      let exponent ← if hasExponent then exponent? exponent else some 0
      let x := Binary64.ofDecimal
        ⟨Text.digitsValue (whole ++ fraction), exponent - fraction.length⟩
      if x.isFinite || negative then some (.float (x.withSign negative)) else none

/-! ## Dates and times -/

/-- The number of days in a month. -/
def daysIn (year month : Nat) : Nat :=
  let leap := year % 4 = 0 && (year % 100 != 0 || year % 400 = 0)
  if month = 2 then if leap then 29 else 28
  else if month = 4 || month = 6 || month = 9 || month = 11 then 30
  else 31

/-- The ten characters of a date. -/
def date? (cs : List Char) : Option String :=
  match cs with
  | [y1, y2, y3, y4, '-', m1, m2, '-', d1, d2] => do
    let year ← Text.natural? [y1, y2, y3, y4]
    let month ← Text.natural? [m1, m2]
    let day ← Text.natural? [d1, d2]
    if 1 ≤ month && month ≤ 12 && 1 ≤ day && day ≤ daysIn year month then
      some (String.ofList cs)
    else none
  | _ => none

/-- The fraction of a second: nine digits at most, none if they are all zero. -/
def secondFraction? : List Char → Option String
  | [] => some ""
  | '.' :: ds =>
    if (Text.natural? ds).isNone then none
    else
      let kept := ((ds.take 9).reverse.dropWhile (· == '0')).reverse
      some (if kept.isEmpty then "" else "." ++ String.ofList kept)
  | _ => none

/-- A time of day: eight characters and a fraction. -/
def time? : List Char → Option String
  | h1 :: h2 :: ':' :: m1 :: m2 :: ':' :: s1 :: s2 :: rest => do
    let hour ← Text.natural? [h1, h2]
    let minute ← Text.natural? [m1, m2]
    let second ← Text.natural? [s1, s2]
    let fraction ← secondFraction? rest
    if hour ≤ 23 && minute ≤ 59 && second ≤ 60 then
      some (String.ofList [h1, h2, ':', m1, m2, ':', s1, s2] ++ fraction)
    else none
  | _ => none

/-- The distance from universal time. -/
def offset? : List Char → Option String
  | ['Z'] | ['z'] => some "Z"
  | [sign, h1, h2, ':', m1, m2] => do
    let hours ← Text.natural? [h1, h2]
    let minutes ← Text.natural? [m1, m2]
    if (sign == '+' || sign == '-') && hours ≤ 23 && minutes ≤ 59 then
      let sign := if hours = 0 && minutes = 0 then '+' else sign
      some (String.ofList [sign, h1, h2, ':', m1, m2])
    else none
  | _ => none

/-- A time of day with an offset or without one. -/
def offsetTime? (cs : List Char) : Option String :=
  let isClock (c : Char) : Bool := c.isDigit || c == ':' || c == '.'
  let offset := cs.dropWhile isClock
  (time? (cs.takeWhile isClock)).bind fun time =>
    if offset.isEmpty then some time else (offset? offset).map (time ++ ·)

/-- The date, the time or both that a list of characters is. -/
def dateTime? (cs : List Char) : Option String :=
  match date? (cs.take 10), cs.drop 10 with
  | some date, [] => some date
  | some date, c :: time =>
    if c == 'T' || c == 't' || c == ' ' then
      (offsetTime? time).map fun time => date ++ "T" ++ time
    else none
  | none, _ => time? cs

/-- The value of an unquoted token other than a date or time. -/
def scalar? (cs : List Char) : Option Json :=
  if cs = "true".toList then some (.bool true)
  else if cs = "false".toList then some (.bool false)
  else (integer? cs).orElse fun _ => float? cs

end WriteBehind.Toml
