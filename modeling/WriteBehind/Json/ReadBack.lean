import WriteBehind.Json.Parser
import WriteBehind.Json.Printer

/-!
# Values that went through text

What a value is after it was written as JSON text and read again.  All values
come back as they were, but for floating-point numbers: their text tells them
apart, while the reader rounds twice and may come out at a neighbour.

The limit that the reader sets to how deep containers nest is left out here: text of
a value that nests deeper is refused by `Json.parse?`, while `Json.readBack` gives the
value.
-/

namespace WriteBehind

namespace Json

/-- A leaf as it reads back from its text. -/
def readBackLeaf : Json → Json
  | .float x => (parse? (compact (.float x))).getD (.float x)
  | leaf => leaf

/-- A value as it reads back from its text. -/
def readBack (v : Json) : Json := v.mapLeaves readBackLeaf

end Json

/-- A document as it reads back from its text. -/
def Document.readBack (d : Document) : Document := d.map Json.readBack

end WriteBehind
