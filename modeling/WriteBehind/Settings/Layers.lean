import WriteBehind.Error
import WriteBehind.Json.Basic
import WriteBehind.Text.Floating
import WriteBehind.Text.Lowercase

/-!
# Layers of settings

Settings come in layers, each a list of named values, and a later layer is laid
over the earlier ones.  Names are compared in lower case, at all depths outside
arrays.  Tables are merged, other values replaced.  A name may be a path, which
leads through tables and arrays and makes what it does not find; an index before
the start of an array breaks the contract.
-/

namespace WriteBehind.Settings

/-- The document that a value is, an empty one if it is none. -/
def asDocument (v : Json) : Document := v.document?.getD .empty

mutual

/-- Lays a value over a document under a name.  A table without fields leaves what is
there as it is. -/
def put (name : String) : Json → Document → Document
  | .obj fields, doc =>
    let name := Text.lowercase name
    let below := (doc.get? name).getD (.obj [])
    doc.insert name
      (if fields.isEmpty then below else .ofDocument (putAll fields (asDocument below)))
  | v, doc => doc.insert (Text.lowercase name) v

/-- Lays the fields of an object over a document. -/
def putAll : List (String × Json) → Document → Document
  | [], doc => doc
  | (name, field) :: fields, doc => putAll fields (put name field doc)

end

/-! ## Paths -/

/-- A step of a path. -/
inductive PathStep where
  | child (name : String)
  | item (index : Int)
deriving DecidableEq, Repr

/-- Whether a character may stand in the names of a path. -/
def isNameChar (c : Char) : Bool := c.isAlphanum || c == ' ' || c == '_' || c == '-'

/-- The name at the front of a path. -/
def pathName (cs : List Char) : Option (String × List Char) :=
  let name := cs.takeWhile isNameChar
  if name.isEmpty then none else some (String.ofList name, cs.drop name.length)

/-- Whether a character is a blank on a line. -/
def isBlank (c : Char) : Bool := c == ' ' || c == '\t'

/-- The index between brackets, blanks around it allowed.  It fits 64 signed bits. -/
def pathIndex (cs : List Char) : Option (Int × List Char) :=
  let body := cs.takeWhile (· != ']')
  let trimmed := ((body.dropWhile isBlank).reverse.dropWhile isBlank).reverse
  match cs.drop body.length, trimmed with
  | ']' :: _, '+' :: _ => none
  | ']' :: rest, ds => (Text.int64? (String.ofList ds)).map fun n => (n.toInt, rest)
  | _, _ => none

/-- The steps of a path after its first name. -/
def pathSteps : Nat → List Char → Option (List PathStep)
  | _, [] => some []
  | 0, _ => none
  | turns + 1, '.' :: cs =>
    (pathName cs).bind fun (name, cs) => (pathSteps turns cs).map (.child name :: ·)
  | turns + 1, '[' :: cs =>
    (pathIndex cs).bind fun (index, cs) => (pathSteps turns cs).map (.item index :: ·)
  | _, _ => none

/-- The first name and the further steps of a path. -/
def path? (text : String) : Option (String × List PathStep) :=
  let cs := text.toList
  (pathName cs).bind fun (name, rest) => (pathSteps cs.length rest).map (name, ·)

/-- The items of an array; other values have none. -/
def itemsOf : Json → List Json
  | .arr items => items
  | _ => []

/-- The greatest number of items in an array, a value taking 96 bytes of memory. -/
def maxItems : Nat := 0x7fffffffffffffff / 96

/-- The place of an index among items; negative ones count from the end. -/
def place (items : List Json) : (index : Int) → Except Breach Nat
  | .ofNat n => if n < maxItems then .ok n else .error .arrayTooLong
  | .negSucc n => if n < items.length then .ok (items.length - (n + 1)) else .error .indexUnderflow

/-- Items with one of them changed, nulls put in up to its place. -/
def changeItem (items : List Json) (n : Nat) (change : Json → Except Breach Json) :
    Except Breach Json :=
  let items := items ++ List.replicate (n + 1 - items.length) .null
  (change ((items[n]?).getD .null)).map fun item => .arr (items.set n item)

/-- Lays a value over another one at the end of a path. -/
def putAt (v : Json) : List PathStep → Json → Except Breach Json
  | [], _ => .ok v
  | [.child name], target => .ok (.ofDocument (put name v (asDocument target)))
  | .child name :: steps, target =>
    let doc := asDocument target
    let name := Text.lowercase name
    (putAt v steps ((doc.get? name).getD .null)).map fun inner =>
      .ofDocument (doc.insert name inner)
  | .item index :: steps, target =>
    (place (itemsOf target) index).bind fun n => changeItem (itemsOf target) n (putAt v steps)

/-- Lays a value over a document under a name, which may be a path once it stands in
lower case. -/
def putNamed (doc : Document) (name : String) (v : Json) : Except Breach Document :=
  match path? (Text.lowercase name) with
  | some (head, step :: steps) =>
    (putAt v (.child head :: step :: steps) (.ofDocument doc)).map asDocument
  | _ => .ok (put name v doc)

/-- All layers as one document. -/
def merged (layers : List (List (String × Json))) : Except Breach Document :=
  layers.flatten.foldlM (fun doc (name, v) => putNamed doc name v) .empty

/-! ## The environment -/

/-- What the names of environment variables start with, in lower case. -/
def variablePrefix : String := "stowage__"

/-- The value of an environment variable: a truth value, an integer or a
floating-point number if it reads as one, and a text otherwise. -/
def variableValue (text : String) : Json :=
  let lower := Text.lowercase text
  if lower = "true" then .bool true
  else if lower = "false" then .bool false
  else
    match Text.int64? text with
    | some n => .int n.toInt
    | none =>
      match Text.float? text with
      | some x => .float x
      | none => .str text

/-- The layer of environment variables: those with the right start, a point in
place of every two underscores. -/
def environment (exported : List (String × String)) : List (String × Json) :=
  exported.filterMap fun (name, value) =>
    let name := Text.lowercase name
    if variablePrefix.isPrefixOf name then
      let path := ((name.drop variablePrefix.length).toString.splitOn "__")
      some (String.intercalate "." path, variableValue value)
    else none

end WriteBehind.Settings
