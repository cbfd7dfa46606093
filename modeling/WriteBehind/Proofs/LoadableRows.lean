import WriteBehind.Proofs.KeyFilters
import WriteBehind.Proofs.TableAgreement

/-!
# Rows stay loadable

Whatever snapshots of a record type a table is given, its rows can be read as records of
the type, and they are found by the keys they are kept under.  A write may land on any
older row, and of data with another key if the texts of the two keys collide, so a row is
not the stored row of any one record.  What each write keeps is told column by column
(`RecordType.Legible.Keeps`): the row has no column that is not persisted, all that are,
and in each a value that the column admits; and since every write carries the columns of
the key, the row has the key of the data that were written last.

The type must lend itself to that (`RecordType.Legible`): what writes leave out can be
missing, writes carry the key, and the filter of a key lists columns of the data.
-/

namespace WriteBehind

namespace RecordType

variable {t : RecordType} {data : Json}

/-! ## Types whose rows can be read -/

/-- A record type whose data are decoded column by column, whose writes carry the columns
of the key, and whose filters list them. -/
structure Legible (t : RecordType) (columns : List Column) : Prop where
  layout : t.layout = .record columns
  named : (columns.map (·.name)).Nodup
  /-- Columns that no write carries, such as runtime state, can be missing. -/
  defaulted : ∀ c ∈ columns, t.persists c.name = true ∨ c.presence ≠ .required
  /-- The fields of the key are tracked as such, or nothing is tracked. -/
  tracked : t.fields = [] ∨ ∀ c ∈ t.keyColumns, ∃ d ∈ t.fields, d.role = .key ∧ d.name = c.name
  keyNamed : (t.keyColumns.map (·.name)).Nodup
  /-- The filter of a record's key lists fields of the record. -/
  lists : ∀ data name value, t.Holds data →
    (t.key.filter (t.keyOf data)).get? name = some value → data.field? name = some value

namespace Legible

variable {columns : List Column} {text : String} {row : Document}

/-- Whatever a write carries, it carries the columns of the key. -/
theorem carries_key (h : t.Legible columns) {c : KeyColumn} (hc : c ∈ t.keyColumns)
    (wanted : FieldDesc → Bool) : carries t.fields wanted c.name = true := by
  obtain hnone | hkey := h.tracked
  · simp [carries, hnone]
  · obtain ⟨d, hd, hrole, hname⟩ := hkey c hc
    rw [carries, Bool.or_eq_true, List.any_eq_true]
    exact .inr ⟨d, hd, by simp [FieldDesc.stored, hrole, hname]⟩

/-! ## What a row keeps -/

/-- A row that can be read, under the text of its key. -/
structure Keeps (t : RecordType) (columns : List Column) (text : String) (row : Document) :
    Prop where
  persisted : ∀ name, (row.get? name).isSome = true → t.persists name = true
  complete : ∀ c ∈ columns, t.persists c.name = true → (row.get? c.name).isSome = true
  admitted : ∀ c ∈ columns, ∀ v, row.get? c.name = some v → c.admits v = true
  key : (t.rowKey row).text = text

/-- The columns of the key are those that were written last. -/
theorem rowKey_of_written (h : t.Legible columns) (hdata : t.Holds data) {doc : Document}
    (hdoc : toDocument data = .ok doc)
    (hwritten : ∀ c ∈ t.keyColumns, c.name ∈ t.columnNames → row.get? c.name = doc.get? c.name) :
    t.rowKey row = t.keyOf data := by
  refine rowKey_eq_keyOf_iff.mpr fun c hc => ?_
  rw [rowPart, ← hdata.part_toDocument h.layout hdoc]
  split
  next hname => rw [hwritten c hc hname]
  · rfl

/-- Data have a value in each of their columns, which the column admits. -/
theorem column_toDocument (h : t.Legible columns) (hdata : t.Holds data) {doc : Document}
    (hdoc : toDocument data = .ok doc) {c : Column} (hc : c ∈ columns) :
    ∃ v, doc.get? c.name = some v ∧ c.admits v = true := by
  obtain ⟨d, rfl, hcolumns⟩ := hdata.eq_ofDocument h.layout
  rw [toDocument_ofDocument, Except.ok.injEq] at hdoc
  subst hdoc
  obtain ⟨v, hv⟩ := Option.isSome_iff_exists.mp
    ((hcolumns c.name).mpr (List.mem_map_of_mem hc))
  exact ⟨v, hv, hdata.admits_field h.layout h.named hc hv⟩

/-- A record that is written in full. -/
theorem keeps_project (h : t.Legible columns) (hdata : t.Holds data) {doc : Document}
    (hdoc : toDocument data = .ok doc) :
    Keeps t columns (t.keyOf data).text (project doc t.fields fun _ => true) where
  persisted name hname := by
    rw [get?_project] at hname
    split at hname
    next hcarries => exact hcarries
    · cases hname
  complete c hc hpersists := by
    obtain ⟨v, hv, -⟩ := h.column_toDocument hdata hdoc hc
    have hcarries : carries t.fields (fun _ => true) c.name = true := hpersists
    rw [get?_project, if_pos hcarries, hv]
    rfl
  admitted c hc v hv := by
    rw [get?_project] at hv
    split at hv
    · obtain ⟨w, hw, hadmits⟩ := h.column_toDocument hdata hdoc hc
      rw [hw, Option.some.injEq] at hv
      exact hv ▸ hadmits
    · cases hv
  key := by
    rw [h.rowKey_of_written hdata hdoc fun c hc _ => by
      rw [get?_project, if_pos (h.carries_key hc _)]]

/-- Changes of a record, laid over a row of any record with the same key text. -/
theorem Keeps.overlay (hrow : Keeps t columns text row) (h : t.Legible columns)
    (hdata : t.Holds data) {doc : Document} (hdoc : toDocument data = .ok doc)
    (wanted : FieldDesc → Bool) :
    Keeps t columns (t.keyOf data).text (row.overlay (project doc t.fields wanted)) where
  persisted name hname := by
    rw [SortedMap.get?_overlay, Option.isSome_or, Bool.or_eq_true, get?_project] at hname
    obtain hnew | hold := hname
    · split at hnew
      next hcarries => exact carries_mono (fun _ _ => rfl) hcarries
      · cases hnew
    · exact hrow.persisted name hold
  complete c hc hpersists := by
    rw [SortedMap.get?_overlay, Option.isSome_or, hrow.complete c hc hpersists, Bool.or_true]
  admitted c hc v hv := by
    rw [SortedMap.get?_overlay, get?_project] at hv
    obtain hnew | ⟨-, hold⟩ := Option.or_eq_some_iff.mp hv
    · split at hnew
      · obtain ⟨w, hw, hadmits⟩ := h.column_toDocument hdata hdoc hc
        rw [hw, Option.some.injEq] at hnew
        exact hnew ▸ hadmits
      · cases hnew
    · exact hrow.admitted c hc v hold
  key := by
    rw [h.rowKey_of_written hdata hdoc fun c hc hname => ?_]
    rw [columnNames, h.layout] at hname
    obtain ⟨column, hcolumn, hsame⟩ := List.mem_map.mp hname
    obtain ⟨v, hv, -⟩ := h.column_toDocument hdata hdoc hcolumn
    rw [hsame] at hv
    rw [SortedMap.get?_overlay, get?_project, if_pos (h.carries_key hc _), hv, Option.some_or]

/-- A row that keeps what it should can be read. -/
theorem Keeps.exists_read (hrow : Keeps t columns text row) (h : t.Legible columns) :
    ∃ data, t.read (.ofDocument row) = .ok data := by
  refine exists_read_of_columns h.layout hrow.admitted fun c hc hnone => ?_
  refine (h.defaulted c hc).resolve_left fun hpersists => ?_
  have hsome := hrow.complete c hc hpersists
  rw [hnone] at hsome
  cases hsome

/-- A row has the columns that the filter of its key lists, with the values that its data
have there. -/
theorem Keeps.get?_of_listed (hrow : Keeps t columns text row) (h : t.Legible columns)
    (hread : t.read (.ofDocument row) = .ok data) {name : String} {value : Json}
    (hlisted : (t.key.filter (t.keyOf data)).get? name = some value) :
    row.get? name = some value := by
  have hdata := holds_of_read hread
  obtain ⟨c, hc, rfl, -⟩ := exists_keyColumn hlisted
  have hfield := h.lists data c.name value hdata hlisted
  obtain ⟨doc, rfl, hcolumns⟩ := hdata.eq_ofDocument h.layout
  have hget : doc.get? c.name = some value := hfield
  have hname : c.name ∈ columns.map (·.name) := (hcolumns c.name).mp (by rw [hget]; rfl)
  obtain ⟨column, hcolumn, hsame⟩ := List.mem_map.mp hname
  have hpersists : t.persists column.name = true := hsame ▸ h.carries_key hc _
  obtain ⟨v, hv⟩ := Option.isSome_iff_exists.mp (hrow.complete column hcolumn hpersists)
  rw [hsame] at hv
  rw [hv, ← field?_of_read h.layout (layout_of_read hread) hv hname, hfield]

/-- A row matches the filter of its key. -/
theorem Keeps.matches_filter (hrow : Keeps t columns text row) (h : t.Legible columns)
    (hread : t.read (.ofDocument row) = .ok data) :
    rowMatches row (t.key.filter (t.keyOf data)) = true := by
  rw [rowMatches, List.all_eq_true]
  rintro ⟨name, value⟩ hentry
  have hlisted := SortedMap.get?_eq_some_iff.mpr hentry
  obtain ⟨c, -, -, rfl⟩ := exists_keyColumn hlisted
  simp only [hrow.get?_of_listed h hread hlisted]
  exact KeyPart.same_toJson _

/-- Of the keys with all components set, a row matches the filter of its own one only. -/
theorem Keeps.keyOf_of_matches (hrow : Keeps t columns text row) (h : t.Legible columns)
    (hread : t.read (.ofDocument row) = .ok data) {first : KeyPart} {rest : List KeyPart}
    (hlength : rest.length = t.key.rest.length)
    (hmatch : rowMatches row (t.key.filter (.ofAll first rest)) = true) :
    t.keyOf data = .ofAll first rest := by
  refine keyOf_eq_of_parts hlength fun e he => ?_
  have hwanted := KeyForm.get?_filter_of_mem h.keyNamed hlength he
  have hfound := List.all_eq_true.mp hmatch _ (SortedMap.get?_eq_some_iff.mp hwanted)
  have hown : (t.key.filter (t.keyOf data)).get? e.1.name =
      some (e.1.ofJson (t.column data e.1.name)).toJson := by
    rw [keyOf_eq_ofAll]
    refine KeyForm.get?_filter_of_mem (e := (e.1, e.1.ofJson (t.column data e.1.name))) h.keyNamed
      (by simp) ?_
    rw [zip_keyParts]
    exact List.mem_map_of_mem (List.of_mem_zip he).1
  simp only [hrow.get?_of_listed h hread hown] at hfound
  exact KeyPart.toJson_inj (KeyPart.eq_of_same_toJson hfound)

end Legible

end RecordType

/-! ## Writes of a record type -/

/-- A snapshot of a record type, with the key of its data. -/
structure Snapshot.Belongs (t : RecordType) (s : Snapshot) : Prop where
  type : s.type = t
  key : s.key = t.keyOf s.data
  holds : t.Holds s.data

namespace Snapshot.Belongs

variable {t : RecordType} {s : Snapshot} {columns : List Column}

theorem capture {data : Json} (hdata : t.Holds data) (pending : Pending) :
    Belongs t (.capture t pending data) :=
  ⟨rfl, rfl, hdata⟩

theorem sound (hs : Belongs t s) : s.Sound := by
  rw [Sound, hs.type]
  exact hs.holds

open RecordType.Legible in
/-- What a write leaves of the row of its key text can be read. -/
theorem keeps_onRow (hs : Belongs t s) (h : t.Legible columns) {row : Option Document}
    (hrow : ∀ r, row = some r → Keeps t columns s.key.text r) {r : Document}
    (hr : (Commitment.snapshot s).onRow row = some r) : Keeps t columns s.key.text r := by
  obtain ⟨rfl, hkey, hdata⟩ := hs
  cases hl : s.pending.lifecycle with
  | unavailable =>
      rw [onRow_of_unavailable hl] at hr
      exact hrow r hr
  | deleted =>
      rw [onRow_of_deleted hl] at hr
      cases hr
  | new =>
      rw [onRow_of_new hl] at hr
      cases hdoc : toDocument s.data with
      | error e =>
          simp only [hdoc] at hr
          exact hrow r hr
      | ok doc =>
          simp only [hdoc, Option.some.injEq] at hr
          rw [← hr, hkey]
          exact h.keeps_project hdata hdoc
  | normal =>
      rw [onRow_of_normal hl] at hr
      cases hdoc : toDocument s.data with
      | error e =>
          simp only [hdoc] at hr
          exact hrow r hr
      | ok doc =>
          simp only [hdoc, Option.map_eq_some_iff] at hr
          obtain ⟨old, rfl, rfl⟩ := hr
          rw [hkey]
          exact (hrow old rfl).overlay h hdata hdoc _

end Snapshot.Belongs

/-- Rows that can be read, each under the text of its key. -/
def Rows.Legible (t : RecordType) (columns : List Column) (rows : Rows) : Prop :=
  ∀ text row, rows.get? text = some row → RecordType.Legible.Keeps t columns text row

/-- A call that writes nothing but snapshots of a record type. -/
def TableCall.Of (t : RecordType) : TableCall → Prop
  | .save _ cs | .recover cs => ∀ c ∈ cs, ∃ s, c = .snapshot s ∧ s.Belongs t
  | .fetch _ _ | .fetchMulti _ | .find _ => True

section Rows

variable {t : RecordType} {columns : List Column} {rows : Rows}

theorem Rows.Legible.applyAll (h : t.Legible columns) (hrows : rows.Legible t columns)
    {cs : List Commitment} (hcs : ∀ c ∈ cs, ∃ s, c = .snapshot s ∧ s.Belongs t) :
    (rows.applyAll (prepareAll cs)).Legible t columns := by
  intro text row hrow
  rw [Rows.get?_applyAll_prepareAll] at hrow
  have hreplay : ∀ (cs : List Commitment) (start : Option Document),
      (∀ c ∈ cs, ∃ s, c = .snapshot s ∧ s.Belongs t) →
      (∀ r, start = some r → RecordType.Legible.Keeps t columns text r) →
      ∀ r, replay text cs start = some r → RecordType.Legible.Keeps t columns text r := by
    intro cs
    induction cs with
    | nil => exact fun _ _ hstart => hstart
    | cons c cs ih =>
        intro start hcs hstart
        rw [replay_cons]
        refine ih _ (fun d hd => hcs d (List.mem_cons_of_mem c hd)) ?_
        obtain ⟨s, rfl, hs⟩ := hcs c List.mem_cons_self
        split
        next heq =>
          subst heq
          exact fun r hr => hs.keeps_onRow h hstart hr
        · exact hstart
  exact hreplay cs _ hcs (hrows text) row hrow

theorem Rows.Legible.after (h : t.Legible columns) (hrows : rows.Legible t columns)
    {call : TableCall} (hcall : call.Of t) : (call.after rows).Legible t columns := by
  cases call with
  | save answers cs | recover cs => exact hrows.applyAll h hcall
  | fetch onlyOne key | fetchMulti keys | find filter => exact hrows

theorem TableCall.Of.plain {call : TableCall} (hcall : call.Of t) : call.Plain := by
  cases call with
  | save answers cs | recover cs =>
      refine fun w hw => plain_prepareAll (fun c hc => ?_) hw
      obtain ⟨s, rfl, hs⟩ := hcall c hc
      exact hs.sound
  | fetch onlyOne key | fetchMulti keys | find filter => trivial

/-- A search by the filter of a key gives the row that is kept under its text, if no other
key has that text. -/
theorem Rows.Legible.find_eq_select (h : t.Legible columns) (hrows : rows.Legible t columns)
    {key : Key} (hfull : key.full = true) (hlength : key.rest.length = t.key.rest.length)
    (hunique : ∀ data, t.Holds data → (t.keyOf data).text = key.text → t.keyOf data = key) :
    rows.find (t.key.filter key) = rows.select [key.text] := by
  have hmatch : ∀ text row, rows.get? text = some row →
      (rowMatches row (t.key.filter key) = true ↔ text = key.text) := by
    intro text row hrow
    have hkeeps := hrows text row hrow
    obtain ⟨data, hread⟩ := hkeeps.exists_read h
    have htext : (t.keyOf data).text = text := by
      rw [RecordType.keyOf_of_read hread]
      exact hkeeps.key
    constructor
    · intro hmatch
      obtain ⟨rest, hrest⟩ := Key.exists_ofAll hfull
      rw [hrest] at hmatch hlength ⊢
      rw [← htext, hkeeps.keyOf_of_matches h hread (by simpa [Key.ofAll] using hlength) hmatch]
    · rintro rfl
      rw [← hunique data (RecordType.holds_of_read hread) htext]
      exact hkeeps.matches_filter h hread
  have hmem : ∀ text, text ∈ rows.matching (t.key.filter key) ↔
      text = key.text ∧ (rows.get? key.text).isSome = true := by
    intro text
    rw [Rows.mem_matching]
    constructor
    · rintro ⟨row, hrow, hrowMatch⟩
      obtain rfl := (hmatch text row hrow).mp hrowMatch
      exact ⟨rfl, by rw [hrow]; rfl⟩
    · rintro ⟨rfl, hsome⟩
      obtain ⟨row, hrow⟩ := Option.isSome_iff_exists.mp hsome
      exact ⟨row, hrow, (hmatch _ row hrow).mpr rfl⟩
  rw [Rows.find_eq_select, Rows.select]
  have hpairwise := rows.pairwise_matching (t.key.filter key)
  generalize rows.matching (t.key.filter key) = found at hmem hpairwise
  cases found with
  | nil =>
      cases hrow : rows.get? key.text with
      | none => simp [hrow]
      | some row => exact absurd ((hmem key.text).mpr ⟨rfl, by rw [hrow]; rfl⟩) List.not_mem_nil
  | cons text rest =>
      obtain ⟨rfl, -⟩ := (hmem text).mp List.mem_cons_self
      cases rest with
      | nil => rfl
      | cons other rest =>
          obtain ⟨rfl, -⟩ := (hmem other).mp (by simp)
          exact absurd ((List.pairwise_cons.mp hpairwise).1 _ List.mem_cons_self)
            (String.lt_irrefl _)

end Rows

/-! ## Tables of a record type -/

namespace Storage

variable {s : Storage} {table : TableRef}

variable {t : RecordType} {columns : List Column}

end Storage

namespace Sample

end Sample

end WriteBehind
