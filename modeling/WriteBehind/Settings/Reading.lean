import WriteBehind.Json.Basic
import WriteBehind.Text.Integer
import WriteBehind.Text.Lowercase

/-!
# Ways of reading settings

Settings that were written for a machine are read strictly: a value has its type
or is refused.  Settings that come from files and the environment are read
leniently: truth values, numbers and texts stand in for each other where one can
be made of the other.
-/

namespace WriteBehind.Settings

/-- How the values of settings are read. -/
structure Reading where
  bool : Json → Option Bool
  /-- A natural number of 64 bits. -/
  natural : Json → Option Nat
  text : Json → Option String
  /-- Whether an array may hold more values than it has fields to fill. -/
  excess : Bool

/-- Every value has the type that is asked for. -/
def strict : Reading where
  bool
    | .bool b => some b
    | _ => none
  natural
    | .int n => if 0 ≤ n && n < 0x10000000000000000 then some n.toNat else none
    | _ => none
  text
    | .str s => some s
    | _ => none
  excess := false

/-- The truth value that a text names. -/
def boolName? (s : String) : Option Bool :=
  let lower := Text.lowercase s
  if lower ∈ ["true", "on", "yes"] then some true
  else if lower ∈ ["false", "off", "no"] then some false
  else none

/-- The natural number of 64 bits nearest to a floating-point number. -/
def nearestNatural (x : Binary64) : Nat :=
  if x.isNaN || x.negative then 0
  else if x.isFinite then min x.roundMagnitude 0xffffffffffffffff
  else 0xffffffffffffffff

/-- Truth values, numbers and texts stand in for each other. -/
def lenient : Reading where
  bool
    | .bool b => some b
    | .int n => some (n != 0)
    | .float x => some !x.isZero
    | .str s => (boolName? s).orElse fun _ =>
      if s = "1" then some true else if s = "0" then some false else none
    | _ => none
  natural
    | .bool b => some (if b then 1 else 0)
    | .int n => if 0 ≤ n then some n.toNat else none
    | .float x => some (nearestNatural x)
    | .str s =>
      match boolName? s with
      | some b => some (if b then 1 else 0)
      | none => Text.uint64? s
    | _ => none
  text
    | .bool b => some (toString b)
    | .int n => some (toString n)
    | .float x => some x.plainText
    | .str s => some s
    | _ => none
  excess := true

namespace Reading

variable {α : Type}

/-- The named values of an object, or those of an array in the order of the
names. -/
def fields (r : Reading) (names : List String) : Json → Option Document
  | .obj fields => some (.ofList fields)
  | .arr items =>
    if items.length ≤ names.length || r.excess then some (.ofList (names.zip items)) else none
  | _ => none

/-- A named value, or what stands in for it when it is missing. -/
def field (doc : Document) (name : String) (absent : Option α) (read : Json → Option α) :
    Option α :=
  match doc.get? name with
  | none => absent
  | some v => read v

/-- Entries whose values are all read. -/
def entries (read : Json → Option α) : List (String × Json) → Option (List (String × α))
  | [] => some []
  | (name, v) :: rest =>
    match read v, entries read rest with
    | some a, some rest => some ((name, a) :: rest)
    | _, _ => none

/-- An object whose values are all read. -/
def table (read : Json → Option α) : Json → Option (SortedMap α)
  | .obj fields => (entries read fields).map .ofList
  | _ => none

/-- A value that may be null. -/
def nullable (read : Json → Option α) : Json → Option (Option α)
  | .null => some none
  | v => (read v).map some

end Reading

end WriteBehind.Settings
