import Mathlib.Data.List.Nodup
import WriteBehind.Commitment
import WriteBehind.Sample

/-!
# The stored form of a record's data

Data of a record type are what its layout reads from some JSON value
(`RecordType.Holds`), so all data of a type have the same columns.  Rows carry
the persisted columns only: `RecordType.storedRow` is the row of a record that is
written in full.  Two facts tie rows to data.  Data that differ on marked columns
only turn one stored row into the other by a write of those columns
(`overlay_project`), and data read back from a stored row agree with the written
ones on every persisted column (`storedRow_of_read`).  That a row can be read back is
a property of the type (`RecordType.Restores`).
-/

namespace WriteBehind

/-! ## Columns that a write carries -/

/-- Whether a write of the wanted fields carries a column. -/
def carries (fields : List FieldDesc) (wanted : FieldDesc → Bool) (name : String) : Bool :=
  fields.isEmpty ||
    fields.any fun d => d.stored && (d.role == .key || wanted d) && d.name == name

theorem carries_mono {fields : List FieldDesc} {p q : FieldDesc → Bool} {name : String}
    (hpq : ∀ d, p d = true → q d = true) (h : carries fields p name = true) :
    carries fields q name = true := by
  simp only [carries, Bool.or_eq_true, List.any_eq_true, Bool.and_eq_true] at h ⊢
  rcases h with h | ⟨d, hd, ⟨hs, hk⟩, hn⟩
  · exact .inl h
  · exact .inr ⟨d, hd, ⟨hs, hk.imp_right (hpq d)⟩, hn⟩

theorem carries_or {fields : List FieldDesc} {p q : FieldDesc → Bool} {name : String} :
    carries fields (fun d => p d || q d) name =
      (carries fields p name || carries fields q name) := by
  rw [Bool.eq_iff_iff]
  simp only [carries, Bool.or_eq_true, List.any_eq_true, Bool.and_eq_true]
  constructor
  · rintro (h | ⟨d, hd, ⟨hs, hk | hp | hq⟩, hn⟩)
    · exact .inl (.inl h)
    · exact .inl (.inr ⟨d, hd, ⟨hs, .inl hk⟩, hn⟩)
    · exact .inl (.inr ⟨d, hd, ⟨hs, .inr hp⟩, hn⟩)
    · exact .inr (.inr ⟨d, hd, ⟨hs, .inr hq⟩, hn⟩)
  · rintro ((h | ⟨d, hd, ⟨hs, hp⟩, hn⟩) | (h | ⟨d, hd, ⟨hs, hq⟩, hn⟩))
    · exact .inl h
    · exact .inr ⟨d, hd, ⟨hs, hp.imp_right .inl⟩, hn⟩
    · exact .inl h
    · exact .inr ⟨d, hd, ⟨hs, hq.imp_right .inr⟩, hn⟩

theorem get?_project (doc : Document) (fields : List FieldDesc)
    (wanted : FieldDesc → Bool) (name : String) :
    (project doc fields wanted).get? name =
      if carries fields wanted name then doc.get? name else none := by
  by_cases hempty : fields.isEmpty = true
  · simp [project, carries, hempty]
  let entry : FieldDesc → Option (String × Json) := fun d =>
    if d.stored && (d.role == .key || wanted d) then
      (doc.get? d.name).map fun value => (d.name, value)
    else none
  have hproject : project doc fields wanted = SortedMap.ofList (fields.filterMap entry) := by
    rw [project, if_neg hempty]
  have hmem : ∀ v, (name, v) ∈ fields.filterMap entry ↔
      carries fields wanted name = true ∧ doc.get? name = some v := by
    intro v
    simp only [List.mem_filterMap, carries, hempty, Bool.false_or, List.any_eq_true,
      Bool.and_eq_true, beq_iff_eq]
    constructor
    · rintro ⟨d, hd, he⟩
      by_cases hw : (d.stored && (d.role == .key || wanted d)) = true
      · rw [show entry d = (doc.get? d.name).map fun value => (d.name, value) from if_pos hw,
          Option.map_eq_some_iff] at he
        obtain ⟨v', hv', hpair⟩ := he
        obtain ⟨hname, rfl⟩ := Prod.mk.inj hpair
        rw [← hname]
        exact ⟨⟨d, hd, by simpa only [Bool.and_eq_true] using hw, rfl⟩, hv'⟩
      · rw [show entry d = none from if_neg hw] at he
        cases he
    · rintro ⟨⟨d, hd, hw, rfl⟩, hv⟩
      have hw' : (d.stored && (d.role == .key || wanted d)) = true := by
        simpa only [Bool.and_eq_true] using hw
      refine ⟨d, hd, ?_⟩
      rw [show entry d = (doc.get? d.name).map fun value => (d.name, value) from if_pos hw', hv]
      rfl
  rw [hproject, SortedMap.get?_ofList]
  cases hfind : SortedMap.find? name (fields.filterMap entry).reverse with
  | some v =>
      have hv := (hmem v).mp (List.mem_reverse.mp (SortedMap.mem_of_find? hfind))
      rw [if_pos hv.1, hv.2]
  | none =>
      by_cases hc : carries fields wanted name = true
      · rw [if_pos hc]
        cases hdoc : doc.get? name with
        | none => rfl
        | some v =>
            have hin := List.mem_reverse.mpr ((hmem v).mpr ⟨hc, hdoc⟩)
            exact absurd rfl (SortedMap.find?_eq_none_iff.mp hfind _ hin)
      · rw [if_neg hc]

/-! ## Data of a record type -/

namespace Layout

theorem map_fst_readColumns {doc : Document} {columns : List Column}
    {values : List (String × Json)} (h : readColumns doc columns = some values) :
    values.map (·.1) = columns.map (·.name) := by
  induction columns generalizing values with
  | nil =>
      obtain rfl : values = [] := by simpa [readColumns] using h.symm
      rfl
  | cons c columns ih =>
      cases hv : c.read doc with
      | none => simp [readColumns, hv] at h
      | some v =>
          cases hr : readColumns doc columns with
          | none => simp [readColumns, hv, hr] at h
          | some rest =>
              obtain rfl : values = (c.name, v) :: rest := by
                simpa [readColumns, hv, hr] using h.symm
              simp [ih hr]

theorem read_of_mem_readColumns {doc : Document} {columns : List Column}
    {values : List (String × Json)} (h : readColumns doc columns = some values)
    {name : String} {v : Json} (hmem : (name, v) ∈ values) :
    ∃ c ∈ columns, c.name = name ∧ c.read doc = some v := by
  induction columns generalizing values with
  | nil =>
      obtain rfl : values = [] := by simpa [readColumns] using h.symm
      simp at hmem
  | cons c columns ih =>
      cases hv : c.read doc with
      | none => simp [readColumns, hv] at h
      | some w =>
          cases hr : readColumns doc columns with
          | none => simp [readColumns, hv, hr] at h
          | some rest =>
              obtain rfl : values = (c.name, w) :: rest := by
                simpa [readColumns, hv, hr] using h.symm
              rcases List.mem_cons.mp hmem with heq | hmem
              · obtain ⟨rfl, rfl⟩ := Prod.mk.inj heq
                exact ⟨c, List.mem_cons_self, rfl, hv⟩
              · obtain ⟨c', hc', hread⟩ := ih hr hmem
                exact ⟨c', List.mem_cons_of_mem c hc', hread⟩

end Layout

namespace Json

theorem document?_ofDocument (doc : Document) : (ofDocument doc).document? = some doc := by
  simp [ofDocument, document?]

end Json

theorem toDocument_ofDocument (doc : Document) :
    toDocument (Json.ofDocument doc) = .ok doc := by
  rw [toDocument, Json.document?_ofDocument]

namespace RecordType

/-- Data of a record type: what some JSON value reads as. -/
def Holds (t : RecordType) (data : Json) : Prop := ∃ value, t.layout.read value = some data

theorem layout_of_read {t : RecordType} {value data : Json} (h : t.read value = .ok data) :
    t.layout.read value = some data := by
  cases hr : t.layout.read value with
  | none => simp [read, hr] at h
  | some found => simpa [read, hr] using h

theorem holds_of_read {t : RecordType} {value data : Json} (h : t.read value = .ok data) :
    t.Holds data :=
  ⟨value, layout_of_read h⟩

/-- Data of an object layout are a document with the columns of the layout. -/
theorem Holds.eq_ofDocument {t : RecordType} {data : Json} (h : t.Holds data)
    {columns : List Column} (hl : t.layout = .record columns) :
    ∃ doc, data = Json.ofDocument doc ∧
      ∀ name, (doc.get? name).isSome = true ↔ name ∈ columns.map (·.name) := by
  obtain ⟨value, hread⟩ := h
  rw [hl, Layout.read, Option.map_eq_some_iff] at hread
  obtain ⟨values, hvalues, rfl⟩ := hread
  rw [Option.bind_eq_some_iff] at hvalues
  obtain ⟨doc, -, hcolumns⟩ := hvalues
  refine ⟨SortedMap.ofList values, rfl, fun name => ?_⟩
  rw [SortedMap.get?_ofList, ← Layout.map_fst_readColumns hcolumns]
  cases hfind : SortedMap.find? name values.reverse with
  | none =>
      have hnot := SortedMap.find?_eq_none_iff.mp hfind
      simp only [Option.isSome_none, Bool.false_eq_true, List.mem_map, false_iff]
      rintro ⟨e, he, rfl⟩
      exact hnot e (List.mem_reverse.mpr he) rfl
  | some v =>
      have hin := List.mem_reverse.mp (SortedMap.mem_of_find? hfind)
      simp only [Option.isSome_some, List.mem_map, true_iff]
      exact ⟨(name, v), hin, rfl⟩

/-- Data of any other layout are no document. -/
theorem Holds.toDocument_eq_error {t : RecordType} {data : Json} (h : t.Holds data)
    {shape : Shape} (hl : t.layout = .bare shape) :
    ∃ e, toDocument data = .error e := by
  obtain ⟨value, hread⟩ := h
  rw [hl, Layout.read] at hread
  split at hread
  next hadmits =>
    obtain rfl : value = data := Option.some.inj hread
    cases value with
    | obj fields => cases shape <;> simp [Shape.admits] at hadmits
    | null | bool _ | int _ | float _ | str _ | arr _ => exact ⟨_, rfl⟩
  · cases hread

/-- What a record of the type leaves in storage when it is written in full. -/
def storedRow (t : RecordType) (data : Json) : Except Error Document :=
  (toDocument data).map (project · t.fields fun _ => true)

/-- Whether rows of the type carry a column. -/
def persists (t : RecordType) (name : String) : Bool := carries t.fields (fun _ => true) name

/-- Whether data differ on no persisted column besides those that a write of the
changes carries. -/
def Marks (t : RecordType) (changes : FieldSet) (old new : Json) : Prop :=
  ∀ name, t.persists name = true →
    carries t.fields (fun d => changes.mem d.code) name = false →
      old.field? name = new.field? name

theorem Holds.get?_toDocument {t : RecordType} {data : Json} {doc : Document}
    (h : t.Holds data) (hdoc : toDocument data = .ok doc) (name : String) :
    doc.get? name = data.field? name := by
  cases hl : t.layout with
  | record columns =>
      obtain ⟨d, rfl, -⟩ := h.eq_ofDocument hl
      rw [toDocument_ofDocument] at hdoc
      cases hdoc
      rfl
  | bare shape =>
      obtain ⟨e, he⟩ := h.toDocument_eq_error hl
      rw [he] at hdoc
      cases hdoc

/-- Data of one type have the same columns. -/
theorem Holds.same_columns {t : RecordType} {data data' : Json} {doc doc' : Document}
    (h : t.Holds data) (h' : t.Holds data')
    (hdoc : toDocument data = .ok doc) (hdoc' : toDocument data' = .ok doc') (name : String) :
    (doc.get? name).isSome = (doc'.get? name).isSome := by
  cases hl : t.layout with
  | record columns =>
      obtain ⟨d, rfl, hd⟩ := h.eq_ofDocument hl
      obtain ⟨d', rfl, hd'⟩ := h'.eq_ofDocument hl
      rw [toDocument_ofDocument] at hdoc hdoc'
      cases hdoc
      cases hdoc'
      rw [Bool.eq_iff_iff, hd, hd']
  | bare shape =>
      obtain ⟨e, he⟩ := h.toDocument_eq_error hl
      rw [he] at hdoc
      cases hdoc

/-- Whether data are a document depends on their type only. -/
theorem Holds.exists_toDocument {t : RecordType} {data data' : Json} {doc : Document}
    (h : t.Holds data) (h' : t.Holds data') (hdoc : toDocument data = .ok doc) :
    ∃ doc', toDocument data' = .ok doc' := by
  cases hl : t.layout with
  | record columns =>
      obtain ⟨d', rfl, -⟩ := h'.eq_ofDocument hl
      exact ⟨d', toDocument_ofDocument d'⟩
  | bare shape =>
      obtain ⟨e, he⟩ := h.toDocument_eq_error hl
      rw [he] at hdoc
      cases hdoc

/-- Of data of one type all are documents, or none is. -/
theorem Holds.toDocument_cases {t : RecordType} {data data' : Json}
    (h : t.Holds data) (h' : t.Holds data') :
    (∃ e e', toDocument data = .error e ∧ toDocument data' = .error e') ∨
      ∃ doc doc', toDocument data = .ok doc ∧ toDocument data' = .ok doc' := by
  cases hdoc : toDocument data with
  | ok doc =>
      obtain ⟨doc', hdoc'⟩ := h.exists_toDocument h' hdoc
      exact .inr ⟨doc, doc', rfl, hdoc'⟩
  | error e =>
      cases hdoc' : toDocument data' with
      | error e' => exact .inl ⟨e, e', rfl, rfl⟩
      | ok doc' =>
          obtain ⟨doc, hok⟩ := h'.exists_toDocument h hdoc'
          rw [hdoc] at hok
          cases hok

theorem get?_storedRow {t : RecordType} {data : Json} {row : Document} (h : t.Holds data)
    (hrow : t.storedRow data = .ok row) (name : String) :
    row.get? name = if t.persists name then data.field? name else none := by
  cases hdoc : toDocument data with
  | error e => simp [storedRow, hdoc, Except.map] at hrow
  | ok doc =>
      simp only [storedRow, hdoc, Except.map, Except.ok.injEq] at hrow
      rw [← hrow, get?_project, ← h.get?_toDocument hdoc]
      rfl

/-! ## Writing some columns over others -/

/-- Columns of later data laid over columns of earlier data are the columns of the
later data, if the earlier ones that stay visible are the same. -/
theorem overlay_project {t : RecordType} {old new : Json} {oldDoc newDoc : Document}
    (hold : t.Holds old) (hnew : t.Holds new) (holdDoc : toDocument old = .ok oldDoc)
    (hnewDoc : toDocument new = .ok newDoc) {p q : FieldDesc → Bool}
    (hsame : ∀ name, carries t.fields p name = true → carries t.fields q name = false →
      old.field? name = new.field? name) :
    (project oldDoc t.fields p).overlay (project newDoc t.fields q) =
      project newDoc t.fields fun d => p d || q d := by
  refine SortedMap.ext_get? fun name => ?_
  rw [SortedMap.get?_overlay, get?_project, get?_project, get?_project, carries_or]
  cases hq : carries t.fields q name with
  | false =>
      cases hp : carries t.fields p name with
      | false => rfl
      | true =>
          have heq := hsame name hp hq
          rw [← hold.get?_toDocument holdDoc, ← hnew.get?_toDocument hnewDoc] at heq
          simpa using heq
  | true =>
      have hcolumns := hold.same_columns hnew holdDoc hnewDoc name
      cases hn : newDoc.get? name with
      | some v => simp
      | none =>
          have hnone : oldDoc.get? name = none := by
            simpa [hn] using hcolumns
          simp [hnone]

/-! ## Reading rows back -/

/-- Data read from a row agree with it on the columns that the row has. -/
theorem field?_of_read {t : RecordType} {row : Document} {data : Json}
    {columns : List Column} (hl : t.layout = .record columns)
    (hread : t.layout.read (.ofDocument row) = some data) {name : String} {v : Json}
    (hv : row.get? name = some v) (hname : name ∈ columns.map (·.name)) :
    data.field? name = some v := by
  obtain ⟨doc, hdata, hcolumns⟩ := Holds.eq_ofDocument ⟨_, hread⟩ hl
  rw [hl, Layout.read, Json.document?_ofDocument, Option.bind_some,
    Option.map_eq_some_iff] at hread
  obtain ⟨values, hvalues, rfl⟩ := hread
  obtain ⟨w, hw⟩ := Option.isSome_iff_exists.mp ((hcolumns name).mpr hname)
  have hfield : (Json.mkObj values).field? name = some w := by rw [hdata]; exact hw
  have hfind : SortedMap.find? name values.reverse = some w := by
    rw [← SortedMap.get?_ofList]; exact hfield
  obtain ⟨c, -, rfl, hc⟩ := Layout.read_of_mem_readColumns hvalues
    (List.mem_reverse.mp (SortedMap.mem_of_find? hfind))
  simp only [Column.read, hv] at hc
  split at hc
  · rw [hfield, hc]
  · cases hc

/-- Data read back from the row of other data agree with them on all that is
persisted. -/
theorem field?_of_read_storedRow {t : RecordType} {data data' : Json} {row : Document}
    (h : t.Holds data) (hrow : t.storedRow data = .ok row)
    (hread : t.layout.read (.ofDocument row) = some data') {name : String}
    (hname : t.persists name = true) :
    data'.field? name = data.field? name := by
  cases hl : t.layout with
  | record columns =>
      obtain ⟨doc, rfl, hcolumns⟩ := h.eq_ofDocument hl
      obtain ⟨doc', rfl, hcolumns'⟩ := Holds.eq_ofDocument ⟨_, hread⟩ hl
      have hget : row.get? name = doc.get? name := by
        rw [get?_storedRow h hrow, if_pos hname]
        rfl
      cases hv : doc.get? name with
      | some v =>
          have hin : name ∈ columns.map (·.name) := (hcolumns name).mp (by rw [hv]; rfl)
          rw [field?_of_read hl hread (hget.trans hv) hin]
          exact hv.symm
      | none =>
          have hnot : name ∉ columns.map (·.name) := fun hin => by
            simpa [hv] using (hcolumns name).mpr hin
          have hnone : doc'.get? name = none := by
            simpa using mt (hcolumns' name).mp hnot
          exact hnone.trans hv.symm
  | bare shape =>
      obtain ⟨e, he⟩ := h.toDocument_eq_error hl
      simp [storedRow, he, Except.map] at hrow

theorem storedRow_congr {t : RecordType} {data data' : Json} {row : Document}
    (h : t.Holds data) (h' : t.Holds data') (hrow : t.storedRow data = .ok row)
    (hsame : ∀ name, t.persists name = true → data.field? name = data'.field? name) :
    t.storedRow data' = .ok row := by
  cases hdoc : toDocument data with
  | error e => simp [storedRow, hdoc, Except.map] at hrow
  | ok doc =>
      obtain ⟨doc', hdoc'⟩ := h.exists_toDocument h' hdoc
      have hrow' : t.storedRow data' = .ok (project doc' t.fields fun _ => true) := by
        rw [storedRow, hdoc']
        rfl
      rw [hrow']
      refine congrArg Except.ok (SortedMap.ext_get? fun name => ?_)
      rw [get?_storedRow h' hrow', get?_storedRow h hrow]
      split
      next hname => exact (hsame name hname).symm
      · rfl

theorem storedRow_of_read {t : RecordType} {data data' : Json} {row : Document}
    (h : t.Holds data) (hrow : t.storedRow data = .ok row)
    (hread : t.read (.ofDocument row) = .ok data') :
    t.storedRow data' = .ok row := by
  exact storedRow_congr h (holds_of_read hread) hrow fun name hname =>
    (field?_of_read_storedRow h hrow (layout_of_read hread) hname).symm

/-- A layout reads a document if each of its columns does. -/
theorem exists_readColumns {doc : Document} {columns : List Column}
    (h : ∀ c ∈ columns, ∃ value, c.read doc = some value) :
    ∃ values, Layout.readColumns doc columns = some values := by
  induction columns with
  | nil => exact ⟨[], rfl⟩
  | cons c columns ih =>
      obtain ⟨value, hvalue⟩ := h c List.mem_cons_self
      obtain ⟨values, hvalues⟩ := ih fun c' hc' => h c' (List.mem_cons_of_mem c hc')
      exact ⟨(c.name, value) :: values, by simp [Layout.readColumns, hvalue, hvalues]⟩

/-- A column of data has a value that the column admits. -/
theorem Holds.admits_field {t : RecordType} {data : Json} (h : t.Holds data)
    {columns : List Column} (hl : t.layout = .record columns)
    (hnames : (columns.map (·.name)).Nodup) {c : Column} (hc : c ∈ columns) {v : Json}
    (hv : data.field? c.name = some v) : c.admits v = true := by
  obtain ⟨value, hread⟩ := h
  rw [hl, Layout.read, Option.map_eq_some_iff] at hread
  obtain ⟨values, hvalues, rfl⟩ := hread
  obtain ⟨doc, -, hcolumns⟩ := Option.bind_eq_some_iff.mp hvalues
  have hfind : SortedMap.find? c.name values.reverse = some v := by
    rw [← SortedMap.get?_ofList]
    exact hv
  obtain ⟨c', hc', hname, hvalue⟩ := Layout.read_of_mem_readColumns hcolumns
    (List.mem_reverse.mp (SortedMap.mem_of_find? hfind))
  obtain rfl : c' = c := List.inj_on_of_nodup_map hnames hc' hc hname
  exact Column.admits_of_read hvalue

/-- Stored rows can be read back. -/
def Restores (t : RecordType) : Prop :=
  ∀ data row, t.Holds data → t.storedRow data = .ok row →
    ∃ data', t.read (.ofDocument row) = .ok data'

/-- A row can be read if it has only values that the columns admit and lacks no column that is
required. -/
theorem exists_read_of_columns {t : RecordType} {columns : List Column} {row : Document}
    (hl : t.layout = .record columns)
    (hadmitted : ∀ c ∈ columns, ∀ v, row.get? c.name = some v → c.admits v = true)
    (hpresent : ∀ c ∈ columns, row.get? c.name = none → c.presence ≠ .required) :
    ∃ data, t.read (.ofDocument row) = .ok data := by
  have hreads : ∀ c ∈ columns, ∃ value, c.read row = some value := by
    intro c hc
    cases hv : row.get? c.name with
    | some v => exact ⟨v, by simp [Column.read, hv, hadmitted c hc v hv]⟩
    | none =>
        cases hpresence : c.presence with
        | required => exact absurd hpresence (hpresent c hc hv)
        | defaulted => exact ⟨_, by simp [Column.read, hv, Column.absent, hpresence]; rfl⟩
        | optional => exact ⟨_, by simp [Column.read, hv, Column.absent, hpresence]; rfl⟩
  obtain ⟨values, hvalues⟩ := exists_readColumns hreads
  refine ⟨.mkObj values, ?_⟩
  have hread : t.layout.read (.ofDocument row) = some (.mkObj values) := by
    rw [hl, Layout.read, Json.document?_ofDocument, Option.bind_some, hvalues]
    rfl
  simp [read, hread]

/-- Rows can be read back if no column that they lack is required. -/
theorem restores_of_columns {t : RecordType} {columns : List Column}
    (hl : t.layout = .record columns) (hnames : (columns.map (·.name)).Nodup)
    (hpresent : ∀ c ∈ columns, t.persists c.name = true ∨ c.presence ≠ .required) :
    t.Restores := by
  intro data row hdata hrow
  refine exists_read_of_columns hl (fun c hc v hv => ?_) fun c hc hnone => ?_
  · rw [get?_storedRow hdata hrow] at hv
    split at hv
    · exact hdata.admits_field hl hnames hc hv
    · cases hv
  · refine (hpresent c hc).resolve_left fun hpersists => ?_
    have hget := get?_storedRow hdata hrow c.name
    obtain ⟨doc, rfl, hcolumns⟩ := hdata.eq_ofDocument hl
    have hsome := (hcolumns c.name).mpr (List.mem_map_of_mem hc)
    rw [hnone, if_pos hpersists] at hget
    rw [show doc.get? c.name = none from hget.symm] at hsome
    cases hsome

end RecordType

/-! ## Heroes -/

namespace Sample

theorem holds_heroOf {id level : Int} (hid : -0x8000000000000000 ≤ id ∧ id < 0x8000000000000000)
    (hlevel : -0x80000000 ≤ level ∧ level < 0x80000000) :
    hero.record.Holds (heroOf id level) := by
  refine ⟨heroOf id level, ?_⟩
  have hdoc : (heroOf id level).document? = some (SortedMap.ofList
      [("id", .int id), ("name", .str "Ann"), ("level", .int level), ("session", .str "")]) :=
    Json.document?_ofDocument _
  have hint : Shape.int64.admits (.int id) = true := by
    simp [Shape.admits]
    omega
  have hsmall : Shape.int32.admits (.int level) = true := by
    simp [Shape.admits]
    omega
  have htext : ∀ text, Shape.text.admits (.str text) = true := fun _ => rfl
  have hread : Layout.read hero.record.layout (heroOf id level) = some (.mkObj
      [("id", .int id), ("name", .str "Ann"), ("level", .int level), ("session", .str "")]) := by
    simp [Layout.read, hero, hdoc, Layout.readColumns, Column.read, SortedMap.get?_ofList,
      SortedMap.find?, Column.admits, hint, hsmall, htext]
  exact hread

/-- Heroes that differ in their level differ in nothing else. -/
theorem marks_heroOf (id level level' : Int) :
    hero.record.Marks heroLevel (heroOf id level) (heroOf id level') := by
  intro name _ hlevel
  by_cases hname : name = "level"
  · subst hname
    exact absurd hlevel (by decide)
  · have hfield : ∀ l : Int, (heroOf id l).field? name = SortedMap.find? name
        [("session", .str ""), ("level", .int l), ("name", .str "Ann"), ("id", .int id)] :=
      fun l => SortedMap.get?_ofList _ _
    rw [hfield, hfield]
    simp [SortedMap.find?, Ne.symm hname]

end Sample

end WriteBehind
