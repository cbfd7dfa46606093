import WriteBehind.Json.Basic
import WriteBehind.Text.Hex

/-!
# JSON text: reading

A reader for JSON text.  A step on a list of characters gives a value and the
characters after it.  Containers nest at most 127 deep, which is also the
measure of the recursion.  Integers between the least signed and the greatest
unsigned 64-bit number are exact, other numbers are floating point.
-/

namespace WriteBehind.Json.Parser

/-- A reader of one thing from the front of a text. -/
abbrev Reader (α : Type) := List Char → Option (α × List Char)

/-- The text after blanks. -/
def skipBlanks (cs : List Char) : List Char :=
  cs.dropWhile fun c => c == ' ' || c == '\n' || c == '\t' || c == '\r'

/-- A code unit of four hexadecimal digits. -/
def codeUnit : Reader Nat
  | a :: b :: c :: d :: rest => (Text.hexNumber? [a, b, c, d]).map (·, rest)
  | _ => none

/-- The character after `\u`.  Two surrogates make one character, a lone one
is refused. -/
def unicodeEscape : Reader Char := fun cs =>
  match codeUnit cs with
  | none => none
  | some (hi, rest) =>
    if 0xd800 ≤ hi && hi < 0xdc00 then
      match rest with
      | '\\' :: 'u' :: rest =>
        match codeUnit rest with
        | some (lo, rest) =>
          if 0xdc00 ≤ lo && lo < 0xe000 then
            some (Char.ofNat (0x10000 + (hi - 0xd800) * 0x400 + (lo - 0xdc00)), rest)
          else none
        | none => none
      | _ => none
    else if 0xdc00 ≤ hi && hi < 0xe000 then none
    else some (Char.ofNat hi, rest)

/-- The character after a backslash. -/
def escape : Reader Char
  | '"' :: rest => some ('"', rest)
  | '\\' :: rest => some ('\\', rest)
  | '/' :: rest => some ('/', rest)
  | 'b' :: rest => some (Char.ofNat 8, rest)
  | 'f' :: rest => some (Char.ofNat 12, rest)
  | 'n' :: rest => some ('\n', rest)
  | 'r' :: rest => some ('\r', rest)
  | 't' :: rest => some ('\t', rest)
  | 'u' :: rest => unicodeEscape rest
  | _ => none

/-- The rest of a string up to its closing quote.  Every turn takes at least one
character, so the length of the text bounds the turns. -/
def stringTail : Nat → Reader (List Char)
  | 0, _ => none
  | _ + 1, [] => none
  | _ + 1, '"' :: rest => some ([], rest)
  | turns + 1, '\\' :: rest =>
    match escape rest with
    | none => none
    | some (c, rest) => (stringTail turns rest).map fun r => (c :: r.1, r.2)
  | turns + 1, c :: rest =>
    if c.toNat < 32 then none
    else (stringTail turns rest).map fun r => (c :: r.1, r.2)

/-- A string, the opening quote already taken. -/
def string : Reader String := fun cs =>
  (stringTail (cs.length + 1) cs).map fun r => (String.ofList r.1, r.2)

/-- The number written by a list of decimal digits. -/
def digitsNumber (cs : List Char) : Nat :=
  cs.foldl (fun n c => 10 * n + (c.toNat - 48)) 0

/-- The decimal digits at the front of a text. -/
def digits (cs : List Char) : List Char × List Char :=
  (cs.takeWhile Char.isDigit, cs.dropWhile Char.isDigit)

/-- The digits after a point, if there is one. -/
def fraction : Reader (Option (List Char))
  | '.' :: rest =>
    let (ds, rest) := digits rest
    if ds.isEmpty then none else some (some ds, rest)
  | cs => some (none, cs)

/-- The number after `e`, if there is one. -/
def exponent : Reader (Option Int) := fun cs =>
  let unsigned (negative : Bool) (cs : List Char) : Option (Option Int × List Char) :=
    let (ds, rest) := digits cs
    if ds.isEmpty then none
    else
      let n : Int := digitsNumber ds
      some (some (if negative then -n else n), rest)
  match cs with
  | c :: rest =>
    if c == 'e' || c == 'E' then
      match rest with
      | '-' :: rest => unsigned true rest
      | '+' :: rest => unsigned false rest
      | rest => unsigned false rest
    else some (none, cs)
  | [] => some (none, cs)

/-- Digits taken into a number of 64 bits.  After the first digit that does not
fit, all are left out. -/
structure Significand where
  value : Nat := 0
  /-- The number of digits left out. -/
  dropped : Nat := 0

/-- The significand with one more digit. -/
def Significand.push (s : Significand) (digit : Char) : Significand :=
  let value := 10 * s.value + (digit.toNat - 48)
  if s.dropped = 0 && value < 0x10000000000000000 then { s with value }
  else { s with dropped := s.dropped + 1 }

/-- The value of a number by its parts.  Whole numbers that fit a machine word
are exact.  Other numbers keep as many leading digits as fit a machine word and
are scaled by the power of ten that remains; one beyond all finite numbers is
refused. -/
def numberValue? (negative : Bool) (whole : List Char) (frac : Option (List Char))
    (exp : Option Int) : Option Json :=
  let s := whole.foldl Significand.push {}
  let exact := s.dropped = 0 && frac.isNone && exp.isNone
  if exact && !negative then some (.int s.value)
  else if exact && s.value != 0 && s.value ≤ 0x8000000000000000 then some (.int (-s.value))
  else
    let ds := frac.getD []
    let t := ds.foldl Significand.push { value := s.value }
    let exponent : Int := s.dropped - (ds.length - t.dropped : Nat)
    let power := exponent + exp.getD 0
    (Binary64.scaled? t.value power).map fun x => .float (x.withSign negative)

/-- A number without its sign. -/
def number (negative : Bool) : Reader Json := fun cs =>
  let (whole, rest) := digits cs
  if whole.isEmpty || (whole.head? == some '0' && whole.length != 1) then none
  else
    match fraction rest with
    | none => none
    | some (frac, rest) =>
      match exponent rest with
      | none => none
      | some (exp, rest) => (numberValue? negative whole frac exp).map (·, rest)

/-- A fixed word. -/
def word (w : String) (value : Json) : Reader Json := fun cs =>
  if w.toList.isPrefixOf cs then some (value, cs.drop w.length) else none

/-- The items of an array after its opening bracket, by a reader for one item. -/
def items (value : Reader Json) : Nat → Reader (List Json)
  | 0, _ => none
  | turns + 1, cs =>
    match value cs with
    | none => none
    | some (v, rest) =>
      match skipBlanks rest with
      | ',' :: rest => (items value turns rest).map fun r => (v :: r.1, r.2)
      | ']' :: rest => some ([v], rest)
      | _ => none

/-- A field name with the colon after it. -/
def fieldName : Reader String := fun cs =>
  match skipBlanks cs with
  | '"' :: rest =>
    match string rest with
    | none => none
    | some (name, rest) =>
      match skipBlanks rest with
      | ':' :: rest => some (name, rest)
      | _ => none
  | _ => none

/-- The fields of an object after its opening brace, by a reader for one value. -/
def fields (value : Reader Json) : Nat → Reader (List (String × Json))
  | 0, _ => none
  | turns + 1, cs =>
    match fieldName cs with
    | none => none
    | some (name, rest) =>
      match value rest with
      | none => none
      | some (v, rest) =>
        match skipBlanks rest with
        | ',' :: rest => (fields value turns rest).map fun r => ((name, v) :: r.1, r.2)
        | '}' :: rest => some ([(name, v)], rest)
        | _ => none

/-- A value in which containers nest less than `depth` deep. -/
def value : Nat → Reader Json
  | 0, _ => none
  | depth + 1, cs =>
    match skipBlanks cs with
    | 'n' :: rest => word "null" .null ('n' :: rest)
    | 't' :: rest => word "true" (.bool true) ('t' :: rest)
    | 'f' :: rest => word "false" (.bool false) ('f' :: rest)
    | '"' :: rest => (string rest).map fun r => (.str r.1, r.2)
    | '-' :: rest => number true rest
    | '[' :: rest =>
      if depth = 0 then none
      else
        match skipBlanks rest with
        | ']' :: rest => some (.arr [], rest)
        | rest => (items (value depth) (rest.length + 1) rest).map fun r => (.arr r.1, r.2)
    | '{' :: rest =>
      if depth = 0 then none
      else
        match skipBlanks rest with
        | '}' :: rest => some (.obj [], rest)
        | rest => (fields (value depth) (rest.length + 1) rest).map fun r => (mkObj r.1, r.2)
    | cs => number false cs

end Parser

/-- Reads a text that is one JSON value between blanks. -/
def parse? (text : String) : Option Json :=
  match Parser.value 128 text.toList with
  | some (v, rest) => if (Parser.skipBlanks rest).isEmpty then some v else none
  | none => none

end WriteBehind.Json
