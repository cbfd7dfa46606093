import WriteBehind.Proofs.Freight

/-!
# The keys that rows carry

A row holds the columns of the key, so the key of the data that a row reads as can be told
from the row alone (`RecordType.rowKey`).  Writes of records keep that: the row of a key
text carries the key of that text, whatever columns it lacks otherwise and whether or not it
can be read at all.  `Deposit.shelf` is the freight of such a table; it also says that the
rows of some keys, of which nothing is on its way, are those of an earlier time.
-/

namespace WriteBehind

/-! ## Reading a key off a row -/

/-- A blank value is the component that a missing one is. -/
theorem KeyColumn.ofJson_blank (c : KeyColumn) (s : Shape) : c.ofJson s.blank = c.ofJson .null := by
  cases hkind : c.kind <;> cases s <;> simp [ofJson, hkind, Shape.blank]

namespace RecordType

variable {t : RecordType} {row : Document} {data : Json}

/-- The columns of a layout. -/
def columnNames (t : RecordType) : List String :=
  match t.layout with
  | .record columns => columns.map (·.name)
  | .bare _ => []

/-- The component of the key that a row carries.  Columns that data do not have are passed
over. -/
def rowPart (t : RecordType) (row : Document) (c : KeyColumn) : KeyPart :=
  c.ofJson (if c.name ∈ t.columnNames then (row.get? c.name).getD .null else .null)

/-- The key that a row carries. -/
def rowKey (t : RecordType) (row : Document) : Key where
  first := t.rowPart row t.key.first
  rest := t.key.rest.map fun c => some (t.rowPart row c)

/-- The columns that make up a key. -/
def keyColumns (t : RecordType) : List KeyColumn := t.key.first :: t.key.rest

theorem rowKey_eq_keyOf_iff :
    t.rowKey row = t.keyOf data ↔
      ∀ c ∈ t.keyColumns, t.rowPart row c = c.ofJson (t.column data c.name) := by
  simp only [rowKey, keyOf, keyColumns, Key.mk.injEq, List.map_inj_left, Option.some.injEq,
    List.forall_mem_cons]

theorem column_of_record {columns : List Column} (hl : t.layout = .record columns)
    (data : Json) (name : String) : t.column data name = (data.field? name).getD .null := by
  rw [column, hl]

/-- What a record holds in a column that its layout lacks. -/
theorem Holds.field?_of_not_mem (h : t.Holds data) {columns : List Column}
    (hl : t.layout = .record columns) {name : String} (hname : name ∉ t.columnNames) :
    data.field? name = none := by
  obtain ⟨doc, rfl, hcolumns⟩ := h.eq_ofDocument hl
  rw [columnNames, hl] at hname
  have hnone : doc.get? name = none := by simpa using mt (hcolumns name).mp hname
  exact hnone

/-- Data are read from a row with a column of the key as the row has it, or blank. -/
theorem rowPart_of_read {columns : List Column} (hl : t.layout = .record columns)
    (hread : t.layout.read (.ofDocument row) = some data) (c : KeyColumn) :
    t.rowPart row c = c.ofJson (t.column data c.name) := by
  have hdata : t.Holds data := ⟨_, hread⟩
  rw [column_of_record hl, rowPart]
  by_cases hname : c.name ∈ t.columnNames
  · rw [if_pos hname]
    rw [columnNames, hl] at hname
    cases hv : row.get? c.name with
    | some v => rw [field?_of_read hl hread hv hname]
    | none =>
        obtain ⟨doc, rfl, hcolumns⟩ := hdata.eq_ofDocument hl
        obtain ⟨w, hw⟩ := Option.isSome_iff_exists.mp ((hcolumns c.name).mpr hname)
        rw [hl, Layout.read, Json.document?_ofDocument, Option.bind_some,
          Option.map_eq_some_iff] at hread
        obtain ⟨values, hvalues, hdoc⟩ := hread
        have hfield : (Json.ofDocument doc).field? c.name = some w := hw
        have hfind : SortedMap.find? c.name values.reverse = some w := by
          rw [← SortedMap.get?_ofList]
          have hsame : (Json.mkObj values).field? c.name = some w := by rw [hdoc, hfield]
          exact hsame
        obtain ⟨column, -, hcolumn, hvalue⟩ := Layout.read_of_mem_readColumns hvalues
          (List.mem_reverse.mp (SortedMap.mem_of_find? hfind))
        rw [Column.read, hcolumn, hv] at hvalue
        rw [hfield]
        cases hp : column.presence with
        | required => simp [Column.absent, hp] at hvalue
        | optional =>
            obtain rfl : Json.null = w := by simpa [Column.absent, hp] using hvalue
            rfl
        | defaulted =>
            obtain rfl : column.shape.blank = w := by simpa [Column.absent, hp] using hvalue
            exact (c.ofJson_blank column.shape).symm
  · rw [if_neg hname, hdata.field?_of_not_mem hl hname]
    rfl

/-- The key of data that are read from a row is the one that the row carries. -/
theorem keyOf_of_read (hread : t.read (.ofDocument row) = .ok data) :
    t.keyOf data = t.rowKey row := by
  have hlayout : t.layout.read (.ofDocument row) = some data := by
    cases hr : t.layout.read (.ofDocument row) with
    | none => simp [read, hr] at hread
    | some found => simpa [read, hr] using hread
  cases hl : t.layout with
  | record columns =>
      exact (rowKey_eq_keyOf_iff.mpr fun c _ => rowPart_of_read hl hlayout c).symm
  | bare shape =>
      rw [hl, Layout.read] at hlayout
      cases shape <;> simp [Shape.admits, Json.ofDocument] at hlayout

/-- Rows of a type carry the key, and the keys in use differ in their texts. -/
structure Files (t : RecordType) (inUse : Key → Prop) : Prop where
  keyed : (∃ columns, t.layout = .record columns) →
    ∀ c ∈ t.keyColumns, t.persists c.name = true
  distinct : ∀ {k k' : Key}, inUse k → inUse k' → k.text = k'.text → k = k'

theorem Stores.files {inUse : Key → Prop} (h : t.Stores inUse) : t.Files inUse :=
  ⟨fun _ => h.keyed, h.distinct⟩

/-- A column of a document that is written for data. -/
theorem Holds.part_toDocument (h : t.Holds data) {columns : List Column}
    (hl : t.layout = .record columns) {doc : Document} (hdoc : toDocument data = .ok doc)
    (c : KeyColumn) :
    c.ofJson (if c.name ∈ t.columnNames then (doc.get? c.name).getD .null else .null) =
      c.ofJson (t.column data c.name) := by
  rw [column_of_record hl, h.get?_toDocument hdoc]
  split
  · rfl
  next hname => rw [h.field?_of_not_mem hl hname]; rfl

/-- A record that is written in full leaves a row with its key. -/
theorem Files.rowKey_project {inUse : Key → Prop} (ht : t.Files inUse) (h : t.Holds data)
    {doc : Document} (hdoc : toDocument data = .ok doc) :
    t.rowKey (project doc t.fields fun _ => true) = t.keyOf data := by
  cases hl : t.layout with
  | record columns =>
      refine rowKey_eq_keyOf_iff.mpr fun c hc => ?_
      have hcarries : carries t.fields (fun _ => true) c.name = true := ht.keyed ⟨_, hl⟩ c hc
      rw [rowPart, get?_project, if_pos hcarries]
      exact h.part_toDocument hl hdoc c
  | bare shape =>
      obtain ⟨e, he⟩ := h.toDocument_eq_error hl
      rw [he] at hdoc
      cases hdoc

/-- Changes of a record leave the key in its row, whether they carry it or not. -/
theorem rowKey_overlay (h : t.Holds data) {doc : Document} (hdoc : toDocument data = .ok doc)
    (hrow : t.rowKey row = t.keyOf data) (wanted : FieldDesc → Bool) :
    t.rowKey (row.overlay (project doc t.fields wanted)) = t.keyOf data := by
  cases hl : t.layout with
  | record columns =>
      refine rowKey_eq_keyOf_iff.mpr fun c hc => ?_
      have hpart := rowKey_eq_keyOf_iff.mp hrow c hc
      have hwritten := h.part_toDocument hl hdoc c
      rw [rowPart] at hpart ⊢
      rw [SortedMap.get?_overlay, get?_project]
      by_cases hname : c.name ∈ t.columnNames
      · rw [if_pos hname] at hpart hwritten ⊢
        split
        · cases hv : doc.get? c.name with
          | none => exact hpart
          | some v =>
              rw [hv] at hwritten
              exact hwritten
        · exact hpart
      · rw [if_neg hname] at hpart ⊢
        exact hpart
  | bare shape =>
      obtain ⟨e, he⟩ := h.toDocument_eq_error hl
      rw [he] at hdoc
      cases hdoc

end RecordType

/-! ## Commitments of records -/

namespace Deposit

variable {p : Deposit}

/-- A commitment of a record under its key. -/
def Ships (p : Deposit) (c : Commitment) : Prop :=
  ∃ s : Snapshot, c = .snapshot s ∧ s.type = p.type ∧ s.Sound ∧ s.key = p.type.keyOf s.data ∧
    p.inUse s.key

theorem Ships.sound {c : Commitment} (h : p.Ships c) : c.Sound := by
  obtain ⟨s, rfl, -, hs, -⟩ := h
  exact hs

theorem Ships.merge {e c m : Commitment} (he : p.Ships e) (hc : p.Ships c)
    (hm : e.merge c = some m) : p.Ships m := by
  obtain ⟨s, rfl, hstype, hs, hskey, hsused⟩ := he
  obtain ⟨later, rfl, hltype, hl, hlkey, -⟩ := hc
  simp only [Commitment.merge, Option.map_eq_some_iff] at hm
  obtain ⟨m, hm, rfl⟩ := hm
  have hsound := hs.merge hl hm
  obtain ⟨-, hkey, -, hmtype, hmkey, -, hdata⟩ := Snapshot.merge_eq_some hm
  refine ⟨m, rfl, hmtype.trans hstype, hsound, ?_, hmkey ▸ hsused⟩
  rw [hmkey, hdata]
  split
  · exact hskey
  · rw [← hkey]
    exact hlkey

/-- What an instance of a record commits. -/
theorem ships_capture {r : Record} (htype : r.type = p.type) (hdata : p.type.Holds r.data)
    (hused : p.inUse r.key) : p.Ships (.snapshot r.capture) := by
  have hsound : r.type.Holds r.data := htype ▸ hdata
  refine ⟨r.capture, rfl, htype, hsound, ?_, hused⟩
  rw [← htype]
  rfl

/-- A row is kept under the text of the key that it carries. -/
def Bears (p : Deposit) (text : String) (row : Document) : Prop :=
  p.inUse (p.type.rowKey row) ∧ (p.type.rowKey row).text = text

/-- A commitment of a record leaves a row of its key. -/
theorem Ships.onRow (ht : p.type.Files p.inUse) {c : Commitment} (hc : p.Ships c)
    {row : Option Document} (hrow : ∀ r, row = some r → p.Bears c.keyText r) :
    ∀ r, c.onRow row = some r → p.Bears c.keyText r := by
  obtain ⟨s, rfl, htype, hs, hkey, hused⟩ := hc
  have hholds : p.type.Holds s.data := htype ▸ hs
  have hcarries : ∀ r, p.type.rowKey r = p.type.keyOf s.data → p.Bears s.key.text r := by
    intro r hr
    rw [Bears, hr, ← hkey]
    exact ⟨hused, rfl⟩
  intro r hr
  cases hl : s.pending.lifecycle with
  | unavailable =>
      rw [Snapshot.onRow_of_unavailable hl] at hr
      exact hrow r hr
  | deleted =>
      rw [Snapshot.onRow_of_deleted hl] at hr
      cases hr
  | new =>
      rw [Snapshot.onRow_of_new hl] at hr
      cases hdoc : toDocument s.data with
      | error e =>
          simp only [hdoc] at hr
          exact hrow r hr
      | ok doc =>
          simp only [hdoc, htype, Option.some.injEq] at hr
          exact hcarries r (hr ▸ ht.rowKey_project hholds hdoc)
  | normal =>
      rw [Snapshot.onRow_of_normal hl] at hr
      cases hdoc : toDocument s.data with
      | error e =>
          simp only [hdoc] at hr
          exact hrow r hr
      | ok doc =>
          simp only [hdoc, htype, Option.map_eq_some_iff] at hr
          obtain ⟨old, rfl, rfl⟩ := hr
          obtain ⟨holdUsed, holdText⟩ := hrow old rfl
          have hold : p.type.rowKey old = p.type.keyOf s.data :=
            (ht.distinct holdUsed hused holdText).trans hkey
          exact hcarries _ (RecordType.rowKey_overlay hholds hdoc hold _)

theorem bears_replay (ht : p.type.Files p.inUse) {cs : List Commitment}
    (hcs : ∀ c ∈ cs, p.Ships c) {text : String} {row : Option Document}
    (hrow : ∀ r, row = some r → p.Bears text r) :
    ∀ r, replay text cs row = some r → p.Bears text r := by
  induction cs generalizing row with
  | nil => exact hrow
  | cons c cs ih =>
      rw [replay_cons]
      refine ih (fun d hd => hcs d (List.mem_cons_of_mem c hd)) ?_
      split
      next heq =>
        subst heq
        exact (hcs c List.mem_cons_self).onRow ht hrow
      · exact hrow

/-! ## Tables of records -/

/-- A table whose rows carry the keys that they are kept under, and whose rows of some keys
are those of another state. -/
structure Shelved (p : Deposit) (untouched : Key → Prop) (before : Storage) (s : Storage) :
    Prop where
  ready : Storage.Ready p.table s
  bears : ∀ text row, (s.rows p.table).get? text = some row → p.Bears text row
  same : ∀ key, untouched key →
    (s.rows p.table).get? key.text = (before.rows p.table).get? key.text

/-- The freight of a table of records: nothing of some keys is on its way.  A source without
a table has nothing to carry. -/
def shelf (p : Deposit) (ht : p.table ≠ .none → p.type.Files p.inUse)
    (untouched : Key → Prop) (before : Storage) : Freight p.table where
  carried c := p.table ≠ .none → p.Ships c ∧ ∀ key, untouched key → c.keyText ≠ key.text
  allowed s := p.table ≠ .none → p.Shelved untouched before s
  merged := by
    intro e c m he hc hm htable
    refine ⟨(he htable).1.merge (hc htable).1 hm, ?_⟩
    rw [(Commitment.keyText_of_merge hm).2]
    exact (hc htable).2
  delivered := by
    intro cs running s hs hcs htable
    obtain ⟨hready, hbears, hsame⟩ := hs htable
    obtain ⟨-, hready', hrows⟩ :=
      Storage.save_spec running hready fun c hc => (hcs c hc htable).1.sound
    refine ⟨hready', fun text row hrow => ?_, fun key hkey => ?_⟩
    · rw [hrows, Rows.get?_applyAll_prepareAll] at hrow
      exact bears_replay (ht htable) (fun c hc => (hcs c hc htable).1) (hbears text) row hrow
    · rw [hrows, Rows.get?_applyAll_prepareAll,
        replay_eq_self fun c hc => (hcs c hc htable).2 key hkey]
      exact hsame key hkey
  read := by
    intro s s' hcontent hs htable
    obtain ⟨hready, hbears, hsame⟩ := hs htable
    have hrows := Storage.rows_congr hcontent
    refine ⟨hready.congr hcontent, ?_, ?_⟩
    · rw [hrows]
      exact hbears
    · rw [hrows]
      exact hsame

end Deposit

namespace Scope

variable {p : Deposit} {ht : p.table ≠ .none → p.type.Files p.inUse}
  {untouched untouched' : Key → Prop} {before : Storage} {s : Scope}

/-- A source whose table keeps records under their keys. -/
abbrev Shelves (p : Deposit) (ht : p.table ≠ .none → p.type.Files p.inUse)
    (untouched : Key → Prop) (before : Storage) (s : Scope) : Prop :=
  s.Hauls p (p.shelf ht untouched before)

/-- Fewer keys are left alone. -/
theorem Shelves.mono (h : s.Shelves p ht untouched before)
    (hfewer : ∀ key, untouched' key → untouched key) : s.Shelves p ht untouched' before := by
  refine Hauls.mono h (fun c hc htable => ?_) fun hs htable => ?_
  · exact ⟨(hc htable).1, fun key hkey => (hc htable).2 key (hfewer key hkey)⟩
  · obtain ⟨hready, hbears, hsame⟩ := hs htable
    exact ⟨hready, hbears, fun key hkey => hsame key (hfewer key hkey)⟩

theorem Shelves.row_same (h : s.Shelves p ht untouched before) {key : Key}
    (hkey : untouched key) :
    (s.storage.rows p.table).get? key.text = (before.rows p.table).get? key.text := by
  by_cases htable : p.table = .none
  · rw [htable]
    rfl
  · exact (h.carries.2 htable).same key hkey

/-- What a row reads as has a key in use, whose text is that of the row. -/
theorem Shelves.read_row (h : s.Shelves p ht untouched before) {text : String}
    {row : Document} {data : Json} (hrow : (s.storage.rows p.table).get? text = some row)
    (hread : p.type.read (.ofDocument row) = .ok data) :
    p.type.Holds data ∧ p.inUse (p.type.keyOf data) ∧ (p.type.keyOf data).text = text := by
  by_cases htable : p.table = .none
  · rw [htable] at hrow
    cases hrow
  · obtain ⟨hused, htext⟩ := (h.carries.2 htable).bears text row hrow
    rw [RecordType.keyOf_of_read hread]
    exact ⟨RecordType.holds_of_read hread, hused, htext⟩

/-- What the row of a key reads as has that key. -/
theorem Shelves.read_key (h : s.Shelves p ht untouched before) {key : Key}
    (hused : p.inUse key) {row : Document} {data : Json}
    (hrow : (s.storage.rows p.table).get? key.text = some row)
    (hread : p.type.read (.ofDocument row) = .ok data) :
    p.type.Holds data ∧ p.type.keyOf data = key := by
  by_cases htable : p.table = .none
  · rw [htable] at hrow
    cases hrow
  · obtain ⟨hdata, hdataUsed, htext⟩ := Shelves.read_row h hrow hread
    exact ⟨hdata, (ht htable).distinct hdataUsed hused htext⟩

end Scope

end WriteBehind
