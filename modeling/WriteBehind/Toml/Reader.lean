import WriteBehind.Text.Hex
import WriteBehind.Toml.Scalar
import WriteBehind.Toml.Table

/-!
# TOML text

A reader for TOML documents.  A step on a list of characters gives a thing and
the characters after it; the length of the text bounds the turns of every loop,
and the depth of nested values bounds the recursion.
-/

namespace WriteBehind.Toml

/-- A reader of one thing from the front of a text. -/
abbrev Reader (α : Type) := List Char → Option (α × List Char)

/-! ## Blanks -/

/-- Whether a character stands between tokens of a line. -/
def isBlank (c : Char) : Bool := c == ' ' || c == '\t'

/-- The text after blanks. -/
def skipBlanks (cs : List Char) : List Char := cs.dropWhile isBlank

/-- Whether a character may stand in comments and literal texts. -/
def isPlain (c : Char) : Bool := c == '\t' || (32 ≤ c.toNat && c.toNat != 127)

/-- The text after a line end. -/
def newline? : List Char → Option (List Char)
  | '\n' :: cs => some cs
  | '\r' :: '\n' :: cs => some cs
  | _ => none

/-- The text after a comment, if there is one. -/
def skipComment : List Char → List Char
  | '#' :: cs => cs.dropWhile isPlain
  | cs => cs

/-- The text after the end of a line: blanks, a comment, and the line end or the
end of the text. -/
def endOfLine? (cs : List Char) : Option (List Char) :=
  match skipComment (skipBlanks cs) with
  | [] => some []
  | cs => newline? cs

/-- The text after blanks, comments and line ends. -/
def skipLines : Nat → List Char → List Char
  | 0, cs => cs
  | turns + 1, cs =>
    let cs := skipComment (skipBlanks cs)
    match newline? cs with
    | some cs => skipLines turns cs
    | none => cs

/-! ## Texts -/

/-- The character with a code point of `n` hexadecimal digits. -/
def codePoint (n : Nat) : Reader Char := fun cs =>
  let ds := cs.take n
  if ds.length = n then
    match Text.hexNumber? ds with
    | some value =>
      if value < 0xd800 || (0xe000 ≤ value && value < 0x110000) then
        some (Char.ofNat value, cs.drop n)
      else none
    | none => none
  else none

/-- The character after a backslash. -/
def escape : Reader Char
  | 'b' :: cs => some (Char.ofNat 8, cs)
  | 't' :: cs => some ('\t', cs)
  | 'n' :: cs => some ('\n', cs)
  | 'f' :: cs => some (Char.ofNat 12, cs)
  | 'r' :: cs => some ('\r', cs)
  | '"' :: cs => some ('"', cs)
  | '\\' :: cs => some ('\\', cs)
  | 'u' :: cs => codePoint 4 cs
  | 'U' :: cs => codePoint 8 cs
  | _ => none

/-- A character in front of a text that was read. -/
def consText (c : Char) (r : String × List Char) : String × List Char :=
  (c.toString ++ r.1, r.2)

/-- A basic text on one line, after its opening quote. -/
def basicTail : Nat → Reader String
  | 0, _ => none
  | _ + 1, [] => none
  | _ + 1, '"' :: cs => some ("", cs)
  | turns + 1, '\\' :: cs =>
    (escape cs).bind fun (c, cs) => (basicTail turns cs).map (consText c)
  | turns + 1, c :: cs =>
    if isPlain c then (basicTail turns cs).map (consText c) else none

/-- A literal text on one line, after its opening quote. -/
def literalTail (cs : List Char) : Option (String × List Char) :=
  let body := cs.takeWhile fun c => isPlain c && c != '\''
  match cs.drop body.length with
  | '\'' :: cs => some (String.ofList body, cs)
  | _ => none

/-- The closing quotes of a text over several lines, with up to two quotes that
belong to it. -/
def closing? (quote : Char) (cs : List Char) : Option (String × List Char) :=
  let n := (cs.takeWhile (· == quote)).length
  if n < 3 then none
  else
    let inside := min (n - 3) 2
    some (String.ofList (List.replicate inside quote), cs.drop (inside + 3))

/-- The text after blanks and line ends. -/
def skipEmptyLines : Nat → List Char → List Char
  | 0, cs => cs
  | turns + 1, cs =>
    let cs := skipBlanks cs
    match newline? cs with
    | some cs => skipEmptyLines turns cs
    | none => cs

/-- The text after a line end and all blanks and line ends that follow. -/
def skipFold (cs : List Char) : Option (List Char) :=
  (newline? (skipBlanks cs)).map fun cs => skipEmptyLines cs.length cs

/-- A text over several lines, after its opening quotes.  Only basic texts have
escapes; a backslash at the end of a line takes the line end away. -/
def longTail (quote : Char) : Nat → Reader String
  | 0, _ => none
  | turns + 1, cs =>
    match closing? quote cs with
    | some r => some r
    | none =>
      match newline? cs with
      | some cs => (longTail quote turns cs).map (consText '\n')
      | none =>
        match cs with
        | [] => none
        | c :: cs =>
          if c == '\\' && quote == '"' then
            match skipFold cs with
            | some cs => longTail quote turns cs
            | none =>
              (escape cs).bind fun (c, cs) => (longTail quote turns cs).map (consText c)
          else if isPlain c then (longTail quote turns cs).map (consText c)
          else none

/-- A line end directly after opening quotes, which is left out. -/
def skipFirstNewline (cs : List Char) : List Char := (newline? cs).getD cs

/-- A quoted text on one line. -/
def shortText : Reader String
  | '"' :: cs => basicTail (cs.length + 1) cs
  | '\'' :: cs => literalTail cs
  | _ => none

/-- A quoted text. -/
def text : Reader String
  | '"' :: '"' :: '"' :: cs => longTail '"' (cs.length + 1) (skipFirstNewline cs)
  | '\'' :: '\'' :: '\'' :: cs => longTail '\'' (cs.length + 1) (skipFirstNewline cs)
  | cs => shortText cs

/-! ## Keys -/

/-- Whether a character may stand in an unquoted key. -/
def isKeyChar (c : Char) : Bool := c.isAlphanum || c == '_' || c == '-'

/-- One part of a key. -/
def keyPart : Reader String := fun cs =>
  match cs with
  | '"' :: _ | '\'' :: _ => shortText cs
  | cs =>
    let name := cs.takeWhile isKeyChar
    if name.isEmpty then none else some (String.ofList name, cs.drop name.length)

/-- The parts of a dotted key: the path to the last one, and the last one. -/
def key : Nat → Reader (List String × String)
  | 0, _ => none
  | turns + 1, cs =>
    (keyPart (skipBlanks cs)).bind fun (part, cs) =>
      match skipBlanks cs with
      | '.' :: cs => (key turns cs).map fun r => ((part :: r.1.1, r.1.2), r.2)
      | cs => some (([], part), cs)

/-- The greatest depth of nested values and of dotted keys, plus one. -/
def depthLimit : Nat := 80

/-! ## Values -/

/-- The items of an array after its opening bracket, by a reader for one node.
Lines may end between items, and a comma may follow the last one. -/
def items (node : Reader Node) : Nat → Reader (List Node)
  | 0, _ => none
  | turns + 1, cs =>
    match skipLines cs.length cs with
    | ']' :: cs => some ([], cs)
    | cs =>
      (node cs).bind fun (n, cs) =>
        match skipLines cs.length cs with
        | ',' :: cs => (items node turns cs).map fun r => (n :: r.1, r.2)
        | ']' :: cs => some ([n], cs)
        | _ => none

/-- A key and its node. -/
def pair (node : Reader Node) : Reader ((List String × String) × Node) := fun cs =>
  (key (depthLimit - 1) cs).bind fun (k, cs) =>
    match cs with
    | '=' :: cs => (node (skipBlanks cs)).map fun r => ((k, r.1), r.2)
    | _ => none

/-- The pairs of an inline table after its opening brace, by a reader for one
node. -/
def pairs (node : Reader Node) : Nat → Entries → Reader Entries
  | 0, _, _ => none
  | turns + 1, entries, cs =>
    (pair node cs).bind fun (((path, name), n), cs) =>
      match entries.addNode path name n, skipBlanks cs with
      | some entries, ',' :: cs => pairs node turns entries cs
      | some entries, '}' :: cs => some (entries, cs)
      | _, _ => none

/-- The token at the front of a text.  A blank between a date and a time belongs
to it. -/
def token (cs : List Char) : List Char × List Char :=
  let first := cs.takeWhile isTokenChar
  match cs.drop first.length with
  | ' ' :: d :: rest =>
    if (date? first).isSome && d.isDigit then
      let second := (d :: rest).takeWhile isTokenChar
      (first ++ ' ' :: second, (d :: rest).drop second.length)
    else (first, ' ' :: d :: rest)
  | cs => (first, cs)

/-- What an unquoted token stands for. -/
def tokenNode? (cs : List Char) : Option Node :=
  match dateTime? cs with
  | some text => some (.date text)
  | none => (scalar? cs).map .value

/-- A value in which values nest less than `depth` deep. -/
def value : Nat → Reader Node
  | 0, _ => none
  | depth + 1, cs =>
    match cs with
    | '"' :: _ | '\'' :: _ => (text cs).map fun r => (.value (.str r.1), r.2)
    | '[' :: cs =>
      if depth = 0 then none
      else (items (value depth) (cs.length + 1) cs).map fun r => (.array r.1, r.2)
    | '{' :: cs =>
      if depth = 0 then none
      else
        match skipBlanks cs with
        | '}' :: cs => some (.table .inline [], cs)
        | cs =>
          (pairs (value depth) (cs.length + 1) [] cs).map fun r => (.table .inline r.1, r.2)
    | cs =>
      let (first, rest) := token cs
      (tokenNode? first).map (·, rest)

/-! ## Documents -/

/-- A document while it is read: the path of the open table, and all entries. -/
structure Draft where
  header : List String := []
  entries : Entries := []

/-- The header of a table after its opening brackets. -/
def headerLine (close : List Char) (add : List String → String → Entries → Option Entries)
    (d : Draft) : Reader Draft := fun cs =>
  (key (depthLimit - 1) cs).bind fun ((path, name), cs) =>
    if close.isPrefixOf cs then
      match add path name d.entries, endOfLine? (cs.drop close.length) with
      | some entries, some cs => some ({ header := path ++ [name], entries }, cs)
      | _, _ => none
    else none

/-- A line with a key and a value. -/
def pairLine (d : Draft) : Reader Draft := fun cs =>
  (pair (value depthLimit) cs).bind fun (((path, name), n), cs) =>
    match d.entries.addNodeUnder d.header path name n, endOfLine? cs with
    | some entries, some cs => some ({ d with entries }, cs)
    | _, _ => none

/-- The lines of a document. -/
def lines : Nat → Draft → List Char → Option Draft
  | 0, _, _ => none
  | turns + 1, d, cs =>
    match skipLines cs.length cs with
    | [] => some d
    | '[' :: '[' :: cs =>
      (headerLine [']', ']'] Entries.addItem d cs).bind fun (d, cs) => lines turns d cs
    | '[' :: cs => (headerLine [']'] Entries.addTable d cs).bind fun (d, cs) => lines turns d cs
    | cs => (pairLine d cs).bind fun (d, cs) => lines turns d cs

/-- Reads a document.  A byte order mark in front is passed over. -/
def parse? (text : String) : Option Json :=
  let cs :=
    match text.toList with
    | '\ufeff' :: cs => cs
    | cs => cs
  (lines (cs.length + 1) {} cs).bind fun d => d.entries.toJson?

end WriteBehind.Toml
