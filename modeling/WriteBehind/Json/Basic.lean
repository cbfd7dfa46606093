import WriteBehind.Binary64
import WriteBehind.SortedMap

/-!
# JSON values and documents

Records, stored rows, options and filters are JSON values.  Integers are exact
and differ from floating-point numbers of the same value.  The fields of an
object are kept in increasing order of their names; a `Document` is an object on
its own, with that order in its type.
-/

namespace WriteBehind

/-- A JSON value. -/
inductive Json where
  | null
  | bool (b : Bool)
  | int (n : Int)
  | float (x : Binary64)
  | str (s : String)
  | arr (items : List Json)
  | obj (fields : List (String × Json))
deriving Inhabited

/-- A JSON object by itself: field names and values. -/
abbrev Document := SortedMap Json

namespace Json

/-- A document as a value. -/
def ofDocument (d : Document) : Json := .obj d.entries

/-- The document that an object is. -/
def document? : Json → Option Document
  | .obj fields => some (SortedMap.ofList fields)
  | _ => none

/-- The object of a list of fields; of two fields with one name the later counts. -/
def mkObj (fields : List (String × Json)) : Json :=
  ofDocument (SortedMap.ofList fields)

/-- Whether a value is an object. -/
def isObject : Json → Bool
  | .obj _ => true
  | _ => false

/-- A field of an object. -/
def field? (name : String) : Json → Option Json
  | .obj fields => SortedMap.find? name fields
  | _ => none

mutual

/-- Equality of values.  Integers and floating-point numbers differ, both zeros
of the latter are equal. -/
def same : Json → Json → Bool
  | .null, .null => true
  | .bool a, .bool b => a == b
  | .int a, .int b => a == b
  | .float a, .float b => a.same b
  | .str a, .str b => a == b
  | .arr a, .arr b => sameItems a b
  | .obj a, .obj b => sameFields a b
  | _, _ => false

/-- Equality of arrays, item by item. -/
def sameItems : List Json → List Json → Bool
  | [], [] => true
  | a :: as, b :: bs => same a b && sameItems as bs
  | _, _ => false

/-- Equality of objects, field by field in the order of their names. -/
def sameFields : List (String × Json) → List (String × Json) → Bool
  | [], [] => true
  | (k, a) :: as, (l, b) :: bs => k == l && same a b && sameFields as bs
  | _, _ => false

end

mutual

/-- A value with its leaves changed, however deep they stand.  Leaves are the
values other than arrays and objects. -/
def mapLeaves (f : Json → Json) : Json → Json
  | .arr items => .arr (mapItems f items)
  | .obj fields => .obj (mapFields f fields)
  | leaf => f leaf

/-- The items of an array with their leaves changed. -/
def mapItems (f : Json → Json) : List Json → List Json
  | [] => []
  | v :: rest => mapLeaves f v :: mapItems f rest

/-- The fields of an object with their leaves changed. -/
def mapFields (f : Json → Json) : List (String × Json) → List (String × Json)
  | [] => []
  | (name, v) :: rest => (name, mapLeaves f v) :: mapFields f rest

end

end Json

end WriteBehind
