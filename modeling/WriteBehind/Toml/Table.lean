import WriteBehind.Toml.Scalar

/-!
# TOML tables

The tree that the lines of a TOML document build.  Every table knows how it came
about, which decides where it may still be extended: a table is defined once,
tables on the way to a header are only implied and may be defined later, a table
made by a dotted key is extended by dotted keys alone, and one that is written
within a line not at all.

A table that begins with the key `dateKey` is no table but a date or time, which
is the text under that key.  What else such a table holds is passed over.
-/

namespace WriteBehind.Toml

/-- How a table came about. -/
inductive Origin where
  /-- By its own header, or as the document itself. -/
  | header
  /-- As a part of the path in another header. -/
  | implied
  /-- As a part of a dotted key. -/
  | dotted
  /-- By braces within a line. -/
  | inline
deriving DecidableEq, Repr

/-- A part of a document. -/
inductive Node where
  | value (v : Json)
  /-- A date or time. -/
  | date (text : String)
  | array (items : List Node)
  | table (origin : Origin) (entries : List (String × Node))
  /-- An array of tables, the last of which is open. -/
  | tables (items : List (List (String × Node)))

/-- The entries of a table, in the order in which they came about. -/
abbrev Entries := List (String × Node)

namespace Entries

/-- The node of a key. -/
def find? (key : String) : Entries → Option Node
  | [] => none
  | (k, node) :: rest => if k = key then some node else find? key rest

/-- Entries with the node of a key set. -/
def set (key : String) (node : Node) : Entries → Entries
  | [] => [(key, node)]
  | (k, n) :: rest => if k = key then (key, node) :: rest else (k, n) :: set key node rest

/-- Changes the table at the end of a path, making the tables on the way that do
not exist.  No path leads through a table within a line, and no dotted key through
a table that has a header of its own. -/
def modifyAt (dotted : Bool) (f : Origin → Entries → Option Entries) :
    List String → Origin → Entries → Option Entries
  | [], origin, entries => f origin entries
  | key :: path, _, entries =>
    match find? key entries with
    | none =>
      let origin : Origin := if dotted then .dotted else .implied
      (modifyAt dotted f path origin []).map fun sub => set key (.table origin sub) entries
    | some (.value _) | some (.date _) | some (.array _) => none
    | some (.table origin sub) =>
      if origin = .inline || (dotted && origin = .header) then none
      else (modifyAt dotted f path origin sub).map fun sub => set key (.table origin sub) entries
    | some (.tables items) =>
      match items.getLast? with
      | none => none
      | some last =>
        (modifyAt dotted f path .header last).map fun last =>
          set key (.tables (items.dropLast ++ [last])) entries

/-- Adds a node under a dotted key, given as the path to its last part. -/
def addNode (path : List String) (key : String) (node : Node) (entries : Entries) :
    Option Entries :=
  modifyAt true (fun origin entries =>
    if (origin = .dotted) = path.isEmpty then none
    else
      match find? key entries with
      | none => some (set key node entries)
      | some _ => none) path .header entries

/-- Adds a node under a dotted key to the table of a header. -/
def addNodeUnder (header path : List String) (key : String) (node : Node) (entries : Entries) :
    Option Entries :=
  modifyAt false (fun _ entries => addNode path key node entries) header .header entries

/-- Defines the table of a header, given as the path to its last part.  A table that
was implied moves behind its neighbours. -/
def addTable (path : List String) (key : String) (entries : Entries) : Option Entries :=
  modifyAt false (fun _ entries =>
    match find? key entries with
    | none => some (set key (.table .header []) entries)
    | some (.table .implied sub) =>
      some (set key (.table .header sub) (entries.filter (·.1 != key)))
    | some _ => none) path .header entries

/-- Adds a table to the array of a header, given as the path to its last part. -/
def addItem (path : List String) (key : String) (entries : Entries) : Option Entries :=
  modifyAt false (fun _ entries =>
    match find? key entries with
    | none => some (set key (.tables [[]]) entries)
    | some (.tables items) => some (set key (.tables (items ++ [[]])) entries)
    | some _ => none) path .header entries

end Entries

/-! ## Values -/

/-- The key of a table that is a date or time. -/
def dateKey : String := "$__toml_private_datetime"

/-- The value of a table with these entries, given its fields. -/
def tableValue? (entries : Entries) (fields : Option (List (String × Json))) : Option Json :=
  match entries with
  | (key, node) :: _ =>
    if key = dateKey then
      match node with
      | .value (.str text) => (dateTime? text.toList).map .str
      | _ => none
    else fields.map .mkObj
  | [] => fields.map .mkObj

mutual

/-- A node as a value. -/
def Node.toJson? : Node → Option Json
  | .value v => some v
  | .date text => some (.str text)
  | .array items => (valuesOf? items).map .arr
  | .table _ entries => tableValue? entries (fieldsOf? entries)
  | .tables items => (itemsOf? items).map .arr

/-- The values of some nodes. -/
def valuesOf? : List Node → Option (List Json)
  | [] => some []
  | node :: rest =>
    match node.toJson?, valuesOf? rest with
    | some v, some values => some (v :: values)
    | _, _ => none

/-- Entries as the fields of an object. -/
def fieldsOf? : List (String × Node) → Option (List (String × Json))
  | [] => some []
  | (key, node) :: rest =>
    match node.toJson?, fieldsOf? rest with
    | some v, some fields => some ((key, v) :: fields)
    | _, _ => none

/-- Tables as the items of an array. -/
def itemsOf? : List (List (String × Node)) → Option (List Json)
  | [] => some []
  | entries :: rest =>
    match tableValue? entries (fieldsOf? entries), itemsOf? rest with
    | some v, some items => some (v :: items)
    | _, _ => none

end

/-- The value of a table. -/
def Entries.toJson? (entries : Entries) : Option Json := (Node.table .header entries).toJson?

end WriteBehind.Toml
