import WriteBehind.Header
import WriteBehind.Shape

/-!
# The wire form of commitments

Commitments travel as bytes: the number of the lifecycle, the changed fields as
a word, the version, and the data column by column in the order of its layout.
Numbers are little-endian and of fixed width.  Texts and lists start with their
length, columns that may be null with a tag.  A reader takes its value from the
front of the bytes and hands back the rest, so bytes after a whole value do no
harm.
-/

namespace WriteBehind.Wire

/-- Bytes on the wire. -/
abbrev Bytes := List UInt8

/-- A reader of one thing from the front of some bytes. -/
abbrev Reader (α : Type) := Bytes → Option (α × Bytes)

/-! ## Numbers -/

/-- A number in `width` bytes, the lowest first. -/
def writeNat : Nat → Nat → Bytes
  | 0, _ => []
  | width + 1, n => UInt8.ofNat n :: writeNat width (n / 256)

/-- The number in the first `width` bytes. -/
def readNat : Nat → Reader Nat
  | 0, bytes => some (0, bytes)
  | _ + 1, [] => none
  | width + 1, b :: bytes => (readNat width bytes).map fun r => (b.toNat + 256 * r.1, r.2)

/-- A signed number of `bits` bits as the number with the same bits. -/
def unsigned (bits : Nat) (n : Int) : Nat := (n % (1 <<< bits : Nat)).toNat

/-- The signed number of `bits` bits with the bits of a number. -/
def signed (bits : Nat) (n : Nat) : Int :=
  if n < 1 <<< (bits - 1) then n else (n : Int) - (1 <<< bits : Nat)

/-! ## Values -/

/-- The first bytes and the rest, if there are as many. -/
def readBytes (n : Nat) : Reader Bytes := fun bytes =>
  if n ≤ bytes.length then some (bytes.take n, bytes.drop n) else none

/-- A text: the number of its bytes and the bytes. -/
def writeText (s : String) : Bytes :=
  let bytes := s.toUTF8.toList
  writeNat 8 bytes.length ++ bytes

/-- A text read from its length and its bytes, which must be valid UTF-8. -/
def readText : Reader String := fun bytes =>
  match readNat 8 bytes with
  | none => none
  | some (n, rest) =>
    match readBytes n rest with
    | none => none
    | some (body, rest) => (String.fromUTF8? body.toByteArray).map (·, rest)

/-- As many items as counted, by a reader for one. -/
def readItems (item : Reader Json) : Nat → Reader (List Json)
  | 0, bytes => some ([], bytes)
  | n + 1, bytes =>
    match item bytes with
    | none => none
    | some (v, rest) => (readItems item n rest).map fun r => (v :: r.1, r.2)

/-- The bytes of a value of a shape. -/
def writeValue : Shape → Json → Bytes
  | .int64, .int n => writeNat 8 (unsigned 64 n)
  | .int32, .int n => writeNat 4 (unsigned 32 n)
  | .uint64, .int n => writeNat 8 n.toNat
  | .bool, .bool b => [if b then 1 else 0]
  | .text, .str s => writeText s
  | .list item, .arr items => writeNat 8 items.length ++ items.flatMap (writeValue item)
  | _, _ => []

/-- A value of a shape from the front of some bytes. -/
def readValue : Shape → Reader Json
  | .int64 => fun bytes => (readNat 8 bytes).map fun r => (.int (signed 64 r.1), r.2)
  | .int32 => fun bytes => (readNat 4 bytes).map fun r => (.int (signed 32 r.1), r.2)
  | .uint64 => fun bytes => (readNat 8 bytes).map fun r => (.int r.1, r.2)
  | .bool => fun
    | 0 :: rest => some (.bool false, rest)
    | 1 :: rest => some (.bool true, rest)
    | _ => none
  | .text => fun bytes => (readText bytes).map fun r => (.str r.1, r.2)
  | .list item => fun bytes =>
    match readNat 8 bytes with
    | none => none
    | some (n, rest) =>
      (readItems (readValue item) n rest).map fun r => (.arr r.1, r.2)

/-! ## Data -/

/-- The value of a column, with a tag in front where it may be null. -/
def writeColumn (c : Column) (value : Json) : Bytes :=
  match c.presence, value with
  | .optional, .null => [0]
  | .optional, value => 1 :: writeValue c.shape value
  | _, value => writeValue c.shape value

/-- The value of a column from the front of some bytes. -/
def readColumn (c : Column) : Reader Json := fun bytes =>
  match c.presence, bytes with
  | .optional, 0 :: rest => some (.null, rest)
  | .optional, 1 :: rest => readValue c.shape rest
  | .optional, _ => none
  | _, bytes => readValue c.shape bytes

/-- The columns of an object. -/
def writeColumns (columns : List Column) (data : Json) : Bytes :=
  columns.flatMap fun c => writeColumn c ((data.field? c.name).getD .null)

/-- The columns of an object from the front of some bytes. -/
def readColumns : List Column → Reader (List (String × Json))
  | [], bytes => some ([], bytes)
  | c :: columns, bytes =>
    match readColumn c bytes with
    | none => none
    | some (v, rest) => (readColumns columns rest).map fun r => ((c.name, v) :: r.1, r.2)

/-- The data of a record. -/
def writeData : Layout → Json → Bytes
  | .record columns, data => writeColumns columns data
  | .bare shape, data => writeValue shape data

/-- The data of a record from the front of some bytes. -/
def readData : Layout → Reader Json
  | .record columns => fun bytes =>
    (readColumns columns bytes).map fun r => (.mkObj r.1, r.2)
  | .bare shape => readValue shape

/-! ## Messages -/

/-- What is sent of a commitment. -/
structure Message where
  pending : Pending
  version : UInt64
  data : Json

/-- The bytes of a message. -/
def Message.write (layout : Layout) (m : Message) : Bytes :=
  writeNat 4 m.pending.lifecycle.index ++ writeNat 8 m.pending.changes.toNat ++
    writeNat 8 m.version.toNat ++ writeData layout m.data

/-- The message at the front of some bytes. -/
def Message.read? (layout : Layout) : Reader Message := fun bytes => do
  let (index, bytes) ← readNat 4 bytes
  let lifecycle ← Lifecycle.ofIndex? index
  let (changes, bytes) ← readNat 8 bytes
  let (version, bytes) ← readNat 8 bytes
  let (data, bytes) ← readData layout bytes
  return ({ pending := ⟨lifecycle, .ofNat changes⟩, version := .ofNat version, data }, bytes)

end WriteBehind.Wire
