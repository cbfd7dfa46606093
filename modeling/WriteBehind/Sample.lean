import WriteBehind.Source

/-!
# Sample models

Five models that between them use every kind of column, key and role: a hero, a
player with a version, a seat with a key of two parts, a note with a text for a
key and no tracked fields, and a tick that is a bare number.
-/

namespace WriteBehind.Sample

/-- A key of one integer. -/
def integerKey (title name : String) : KeyForm where
  title
  first := { name, kind := .integer }

/-- A tracked key field. -/
def keyField (code : Field) (name : String) : FieldDesc where
  code
  name
  role := .key

/-- A tracked runtime field. -/
def runtimeField (code : Field) (name : String) : FieldDesc where
  code
  name
  role := .runtime

/-- A hero, whose session is runtime state. -/
def hero : Model where
  record :=
    { ns := "hero"
      layout := .record [⟨"id", .int64, .required⟩, ⟨"name", .text, .required⟩,
        ⟨"level", .int32, .required⟩, ⟨"session", .text, .defaulted⟩]
      fields := [keyField 0 "id", { code := 1, name := "name" }, { code := 2, name := "level" },
        runtimeField 3 "session"]
      key := integerKey "HeroPk" "id" }

/-- The data of a hero out of session. -/
def heroOf (id level : Int) : Json :=
  .mkObj [("id", .int id), ("name", .str "Ann"), ("level", .int level), ("session", .str "")]

/-- The level of a hero as a set of fields. -/
def heroLevel : FieldSet := FieldSet.empty.insert 2

/-- A player, whose gold is the version of its data. -/
def player : Model where
  record :=
    { ns := "player"
      layout := .record [⟨"id", .int64, .required⟩, ⟨"name", .text, .required⟩,
        ⟨"gold", .uint64, .required⟩, ⟨"online", .bool, .defaulted⟩]
      fields := [keyField 0 "id", { code := 1, name := "name" }, { code := 2, name := "gold" },
        runtimeField 3 "online"]
      key := integerKey "PlayerPk" "id"
      version := some "gold" }
  observed := true

/-- A seat at a table, perhaps with a guest. -/
def seat : Model where
  record :=
    { ns := "seat"
      layout := .record [⟨"table", .int64, .required⟩, ⟨"seat", .int64, .required⟩,
        ⟨"guest", .text, .optional⟩, ⟨"tags", .list .text, .required⟩,
        ⟨"seen", .int64, .defaulted⟩]
      fields := [keyField 0 "table", keyField 1 "seat", { code := 7, name := "guest" },
        { code := 40, name := "tags" }, runtimeField 63 "seen"]
      key := { integerKey "SeatPk" "table" with rest := [{ name := "seat", kind := .integer }] } }
  observed := true

/-- A note, whose absence is never remembered. -/
def note : Model where
  record :=
    { ns := "note"
      layout := .record [⟨"key", .text, .required⟩, ⟨"text", .text, .required⟩,
        ⟨"rev", .uint64, .required⟩]
      fields := []
      key := { title := "NotePk", first := { name := "key", kind := .text } }
      version := some "rev" }
  volatile := true
  observed := true

/-- A tick, which is nothing but its number. -/
def tick : Model where
  record :=
    { ns := "tick"
      layout := .bare .int64
      fields := [keyField 0 "id"]
      key := integerKey "TickPk" "id" }

/-- All sample models. -/
def models : List Model := [hero, player, seat, note, tick]

/-- The sample model of a namespace. -/
def model? (ns : String) : Option Model := models.find? (·.record.ns == ns)

end WriteBehind.Sample
