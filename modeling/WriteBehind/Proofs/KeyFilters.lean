import WriteBehind.Proofs.RowKeys

/-!
# Filters of keys

The filter of a key is a document that lists its components by the names of their columns.
If all components are set and no two columns share a name, the filter has them all
(`KeyForm.get?_filter_of_mem`), so it can be told from it which key it is the filter of.
The filter of a record's key lists fields of the record if each component has a column of
its kind (`RecordType.lists_of_fits`); a column of unsigned words would not do, since
components are signed ones.
-/

namespace WriteBehind

/-! ## Components and keys that are set -/

namespace KeyPart

theorem eq_of_same_toJson {v : Json} {part : KeyPart} (h : v.same part.toJson = true) :
    v = part.toJson := by
  cases part with
  | int n => cases v <;> simp_all [toJson, Json.same]
  | text s => cases v <;> simp_all [toJson, Json.same]

theorem same_toJson (part : KeyPart) : part.toJson.same part.toJson = true := by
  cases part <;> simp [toJson, Json.same]

theorem toJson_inj {a b : KeyPart} (h : a.toJson = b.toJson) : a = b := by
  cases a with
  | int v =>
      cases b with
      | int w => exact congrArg int (Int64.toInt_inj.mp (Json.int.inj h))
      | text s => cases h
  | text s =>
      cases b with
      | int w => cases h
      | text r => exact congrArg text (Json.str.inj h)

end KeyPart

/-- A key whose components are all set. -/
def Key.ofAll (first : KeyPart) (rest : List KeyPart) : Key := ⟨first, rest.map some⟩

theorem Key.exists_ofAll {k : Key} (h : k.full = true) :
    ∃ rest, k = .ofAll k.first rest := by
  obtain ⟨first, rest⟩ := k
  have hset : ∃ parts : List KeyPart, rest = parts.map some := by
    simp only [full, Bool.and_eq_true, List.all_eq_true] at h
    replace h := h.2
    induction rest with
    | nil => exact ⟨[], rfl⟩
    | cons part rest ih =>
        obtain ⟨parts, rfl⟩ := ih fun p hp => h p (List.mem_cons_of_mem part hp)
        have hpart := h part List.mem_cons_self
        cases part with
        | none => cases hpart
        | some p => exact ⟨p :: parts, rfl⟩
  obtain ⟨parts, rfl⟩ := hset
  exact ⟨parts, rfl⟩

/-! ## What a filter lists -/

namespace KeyForm

variable {f : KeyForm} {first : KeyPart} {rest : List KeyPart}

/-- The filter of a key whose components are all set lists them all. -/
theorem filter_ofAll (f : KeyForm) (first : KeyPart) (rest : List KeyPart) :
    f.filter (.ofAll first rest) = SortedMap.ofList
      (((f.first :: f.rest).zip (first :: rest)).map fun e => (e.1.name, e.2.toJson)) := by
  have hrest : (f.rest.zip (rest.map some)).filterMap
      (fun e => e.2.map fun part => (e.1.name, part.toJson)) =
        (f.rest.zip rest).map fun e => (e.1.name, e.2.toJson) := by
    rw [List.zip_map_right, List.filterMap_map, ← List.filterMap_eq_map]
    rfl
  rw [filter, Key.ofAll, List.zip_cons_cons, List.map_cons, ← hrest]

theorem exists_of_get?_filter {name : String} {value : Json}
    (h : (f.filter (.ofAll first rest)).get? name = some value) :
    ∃ e ∈ (f.first :: f.rest).zip (first :: rest), e.1.name = name ∧ e.2.toJson = value := by
  rw [filter_ofAll, SortedMap.get?_ofList] at h
  have hmem := List.mem_reverse.mp (SortedMap.mem_of_find? h)
  obtain ⟨e, he, heq⟩ := List.mem_map.mp hmem
  exact ⟨e, he, Prod.mk.inj heq⟩

theorem get?_filter_of_mem (hnames : ((f.first :: f.rest).map (·.name)).Nodup)
    (hlength : rest.length = f.rest.length) {e : KeyColumn × KeyPart}
    (he : e ∈ (f.first :: f.rest).zip (first :: rest)) :
    (f.filter (.ofAll first rest)).get? e.1.name = some e.2.toJson := by
  have hdistinct : (((f.first :: f.rest).zip (first :: rest)).map (·.1.name)).Nodup := by
    have hfst : ((f.first :: f.rest).zip (first :: rest)).map Prod.fst = f.first :: f.rest :=
      List.map_fst_zip (by simp [hlength])
    rw [← hfst, List.map_map] at hnames
    exact hnames
  cases hget : (f.filter (.ofAll first rest)).get? e.1.name with
  | none =>
      rw [filter_ofAll, SortedMap.get?_ofList, SortedMap.find?_eq_none_iff] at hget
      exact absurd rfl (hget _ (List.mem_reverse.mpr (List.mem_map_of_mem he)))
  | some value =>
      obtain ⟨e', he', hname, rfl⟩ := exists_of_get?_filter hget
      rw [List.inj_on_of_nodup_map hdistinct he' he hname]

end KeyForm

/-! ## Columns that hold components -/

namespace KeyColumn

/-- A column whose values are components of a kind. -/
def Fits (c : KeyColumn) (column : Column) : Prop :=
  column.name = c.name ∧ column.presence ≠ .optional ∧
    (c.kind = .integer ∧ (column.shape = .int64 ∨ column.shape = .int32) ∨
      c.kind = .text ∧ column.shape = .text)

end KeyColumn

namespace RecordType

variable {t : RecordType} {data : Json}

theorem keyOf_eq_ofAll (t : RecordType) (data : Json) :
    t.keyOf data = .ofAll (t.key.first.ofJson (t.column data t.key.first.name))
      (t.key.rest.map fun c => c.ofJson (t.column data c.name)) := by
  rw [keyOf, Key.ofAll, List.map_map]
  rfl

/-- The columns of the key with the components that they give. -/
theorem zip_keyParts (t : RecordType) (data : Json) :
    (t.key.first :: t.key.rest).zip (t.key.first.ofJson (t.column data t.key.first.name) ::
        t.key.rest.map fun c => c.ofJson (t.column data c.name)) =
      t.keyColumns.map fun c => (c, c.ofJson (t.column data c.name)) := by
  rw [List.map_prod_left_eq_zip]
  rfl

/-- The filter of a record's key lists the components that the columns of the key give. -/
theorem exists_keyColumn {name : String} {value : Json}
    (h : (t.key.filter (t.keyOf data)).get? name = some value) :
    ∃ c ∈ t.keyColumns, c.name = name ∧ (c.ofJson (t.column data c.name)).toJson = value := by
  rw [keyOf_eq_ofAll] at h
  obtain ⟨e, he, hname, hvalue⟩ := KeyForm.exists_of_get?_filter h
  rw [zip_keyParts] at he
  obtain ⟨c, hc, rfl⟩ := List.mem_map.mp he
  exact ⟨c, hc, hname, hvalue⟩

/-- Data have a key if the columns of the key give its components. -/
theorem keyOf_eq_of_parts {first : KeyPart} {rest : List KeyPart}
    (hlength : rest.length = t.key.rest.length)
    (h : ∀ e ∈ t.keyColumns.zip (first :: rest), e.1.ofJson (t.column data e.1.name) = e.2) :
    t.keyOf data = .ofAll first rest := by
  have hparts : t.keyColumns.map (fun c => c.ofJson (t.column data c.name)) = first :: rest := by
    rw [← List.forall₂_eq_eq_eq, List.forall₂_map_left_iff, List.forall₂_iff_zip]
    exact ⟨by simp [keyColumns, hlength], fun he => h _ he⟩
  obtain ⟨rfl, rfl⟩ := List.cons.inj hparts
  exact t.keyOf_eq_ofAll data

end RecordType

end WriteBehind
