import WriteBehind.ByteHash
import WriteBehind.Error
import WriteBehind.Json.Basic
import WriteBehind.Text.Integer

/-!
# Primary keys

A key is a list of components, integers or texts; all but the first may be
missing, and then the key stands for every full key that it is a prefix of.
The first component alone decides the routing hash, so a key and the keys it
prefixes are routed alike (`Key.hash_eq_of_startsKey`).
-/

namespace WriteBehind

/-- One component of a key. -/
inductive KeyPart where
  | int (v : Int64)
  | text (s : String)
deriving DecidableEq, Repr

namespace KeyPart

/-- A component as an integer; texts are read as decimal integers. -/
def asInteger : KeyPart → Except Error Int64
  | .int v => .ok v
  | .text s =>
    match Text.int64? s with
    | some v => .ok v
    | none => .error (.invalidKey s!"{Text.quote s} is not an integer")

/-- A component as a text. -/
def asText : KeyPart → Except Error String
  | .text s => .ok s
  | .int v => .error (.invalidKey s!"{v.toInt} is not a string")

/-- The text of a component inside a storage key. -/
def toText : KeyPart → String
  | .int v => toString v.toInt
  | .text s => s

/-- A component as a JSON value. -/
def toJson : KeyPart → Json
  | .int v => .int v.toInt
  | .text s => .str s

/-- A component as messages show it. -/
def debug : KeyPart → String
  | .int v => toString v.toInt
  | .text s => Text.quote s

/-- Whether a component has content: a text must not be empty. -/
def filled : KeyPart → Bool
  | .int _ => true
  | .text s => !s.isEmpty

/-- Integers by value, texts by code points, integers first. -/
def cmp : KeyPart → KeyPart → Ordering
  | .int a, .int b => compare a b
  | .text a, .text b => compare a b
  | .int _, .text _ => .lt
  | .text _, .int _ => .gt

end KeyPart

/-- The hash of an integer is its bit pattern. -/
def hashInteger (v : Int64) : UInt64 := v.toUInt64

/-- The routing hash of a component. -/
def KeyPart.hash : KeyPart → UInt64
  | .int v => hashInteger v
  | .text s => hashBytes s.toUTF8

/-- The group of a hash among `n` groups, `n` a power of two. -/
def groupOf (hash : UInt64) (n : Nat) : Except Breach Nat :=
  if n != 0 && n &&& (n - 1) == 0 then .ok (hash.toNat &&& (n - 1))
  else .error .groupsNotPowerOfTwo

/-- Checks the number of components handed over for a key. -/
def expectParts (parts : List KeyPart) (n : Nat) (name : String) : Except Error Unit :=
  if parts.length = n then .ok ()
  else .error (.invalidKey s!"{name} takes {n} key part(s), got {parts.length}")

/-- A primary key. -/
structure Key where
  first : KeyPart
  rest : List (Option KeyPart) := []
deriving DecidableEq, Repr

namespace Key

/-- The canonical text, under which rows are stored. -/
def text (k : Key) : String :=
  String.intercalate "/" (k.first.toText :: k.rest.map fun part =>
    match part with
    | some part => part.toText
    | none => "*")

/-- Whether every component is set. -/
def full (k : Key) : Bool :=
  k.first.filled && k.rest.all fun part =>
    match part with
    | some part => part.filled
    | none => false

/-- Whether some component is not set. -/
def isEmpty (k : Key) : Bool := !k.full

/-- The routing hash: that of the first component. -/
def hash (k : Key) : UInt64 := k.first.hash

/-- Whether the set components of `k` are those of `other`. -/
def startsKey (k other : Key) : Bool :=
  k.first == other.first && restStarts k.rest other.rest
where
  /-- Component by component, a missing one matching any. -/
  restStarts : List (Option KeyPart) → List (Option KeyPart) → Bool
    | [], [] => true
    | none :: ps, _ :: qs => restStarts ps qs
    | some p :: ps, some q :: qs => p == q && restStarts ps qs
    | _, _ => false

/-- Order by components, a missing one before all others. -/
def cmp (k other : Key) : Ordering :=
  (k.first.cmp other.first).then (restCmp k.rest other.rest)
where
  /-- Component by component. -/
  restCmp : List (Option KeyPart) → List (Option KeyPart) → Ordering
    | [], [] => .eq
    | [], _ :: _ => .lt
    | _ :: _, [] => .gt
    | none :: ps, none :: qs => restCmp ps qs
    | none :: _, some _ :: _ => .lt
    | some _ :: _, none :: _ => .gt
    | some p :: ps, some q :: qs => (p.cmp q).then (restCmp ps qs)

/-- A key and the keys it is a prefix of are routed alike. -/
theorem hash_eq_of_startsKey {k other : Key} (h : k.startsKey other = true) :
    k.hash = other.hash := by
  simp only [startsKey, Bool.and_eq_true, beq_iff_eq] at h
  simp [hash, h.1]

end Key

/-- The kinds of key components. -/
inductive KeyKind where
  | integer
  | text
deriving DecidableEq, Repr

/-- A named component of the keys of a record type. -/
structure KeyColumn where
  name : String
  kind : KeyKind
deriving DecidableEq, Repr

/-- The keys of a record type: their name in messages and their components. -/
structure KeyForm where
  title : String
  first : KeyColumn
  rest : List KeyColumn := []
deriving DecidableEq, Repr

namespace KeyColumn

/-- A component read in the kind of its column. -/
def read (c : KeyColumn) (part : KeyPart) : Except Error KeyPart :=
  match c.kind with
  | .integer => part.asInteger.map .int
  | .text => part.asText.map .text

/-- The component that a value of a record's data is. -/
def ofJson (c : KeyColumn) (value : Json) : KeyPart :=
  match c.kind, value with
  | .integer, .int n => .int (Int64.ofInt n)
  | .text, .str s => .text s
  | .integer, _ => .int 0
  | .text, _ => .text ""

end KeyColumn

namespace KeyForm

/-- The number of components. -/
def arity (f : KeyForm) : Nat := f.rest.length + 1

/-- The components after the first, the last ones possibly missing. -/
def readRest : List KeyColumn → List KeyPart → Except Error (List (Option KeyPart))
  | [], _ => .ok []
  | columns, [] => .ok (columns.map fun _ => none)
  | c :: columns, p :: parts =>
    match c.read p with
    | .error e => .error e
    | .ok part => (readRest columns parts).map (some part :: ·)

/-- The key of a list of components: all of them, or fewer for a prefix. -/
def ofParts (f : KeyForm) (ns : String) (parts : List KeyPart) : Except Error Key :=
  match parts with
  | p :: more =>
    if parts.length ≤ f.arity then
      match f.first.read p with
      | .error e => .error e
      | .ok first => (readRest f.rest more).map fun rest => ⟨first, rest⟩
    else
      (expectParts parts f.arity ns).map fun _ => ⟨p, []⟩
  | [] => (expectParts [] f.arity ns).map fun _ => ⟨.int 0, []⟩

/-- The document that the stored rows of a key match. -/
def filter (f : KeyForm) (k : Key) : Document :=
  let rest := (f.rest.zip k.rest).filterMap fun (c, part) =>
    part.map fun part => (c.name, part.toJson)
  SortedMap.ofList ((f.first.name, k.first.toJson) :: rest)

/-- A key as messages show it: one component in parentheses, several by name. -/
def debug (f : KeyForm) (k : Key) : String :=
  if f.rest.isEmpty then s!"{f.title}({k.first.debug})"
  else
    let rest := (f.rest.zip k.rest).map fun (c, part) =>
      match part with
      | some part => s!", {c.name}: Some({part.debug})"
      | none => s!", {c.name}: None"
    s!"{f.title} \x7b {f.first.name}: {k.first.debug}" ++ String.join rest ++ " \x7d"

end KeyForm

end WriteBehind
