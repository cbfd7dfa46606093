import WriteBehind.Record
import WriteBehind.Proofs.Merging

/-!
# Edits and commits of a record

Between two commits the data of a record are edited and its changes are marked.  A
commit hands out what is pending.  If all that has changed since the last commit is
marked (`Record.Marked`), the write of the commit turns the stored row of the earlier
data into that of the present ones, and a record that is clean is stored already.
-/

namespace WriteBehind

/-- An edit of a record in memory. -/
inductive Edit where
  /-- New data, which are not marked by that. -/
  | assign (data : Json)
  | mark (fields : List Field)
  | update (incoming : Json) (listed : FieldSet)
  | delete

/-- What an edit can do to a header. -/
structure Header.EditsTo (h h' : Header) : Prop where
  index : h'.savingIndex = h.savingIndex
  detached : h'.detached = h.detached
  expired : h'.expired = h.expired
  pending : h.dirty = true → h'.lifecycle ≠ .unavailable → h'.dirty = true
  stage : h'.lifecycle = h.lifecycle ∧ (h.lifecycle = .unavailable → h'.dirty = h.dirty) ∨
    h.lifecycle = .new ∧ h'.lifecycle = .unavailable ∧ h'.dirty = false ∨
    h.lifecycle = .normal ∧ h'.lifecycle = .deleted

theorem Header.EditsTo.refl (h : Header) : h.EditsTo h :=
  ⟨rfl, rfl, rfl, fun hdirty _ => hdirty, .inl ⟨rfl, fun _ => rfl⟩⟩

theorem Header.lifecycle_setChanged {h h' : Header} {fields : List Field}
    (hok : h.setChanged fields = .ok h') : h'.lifecycle = h.lifecycle := by
  cases hl : h.lifecycle with
  | new =>
      obtain rfl : h = h' := by simpa [Header.setChanged, hl] using hok
      exact hl
  | normal =>
      cases hadd : h.changes.add fields with
      | error b => simp [Header.setChanged, hl, hadd] at hok
      | ok changes =>
          simp only [Header.setChanged, hl, hadd, Except.ok.injEq] at hok
          rw [← hok]
  | deleted | unavailable => simp [Header.setChanged, hl] at hok

theorem Header.lifecycle_markChanged {h h' : Header} {fields : FieldSet}
    (hok : h.markChanged fields = .ok h') : h'.lifecycle = h.lifecycle := by
  cases hl : h.lifecycle with
  | new =>
      obtain rfl : h = h' := by simpa [Header.markChanged, hl] using hok
      exact hl
  | normal =>
      simp only [Header.markChanged, hl, Except.ok.injEq] at hok
      rw [← hok]
  | deleted | unavailable => simp [Header.markChanged, hl] at hok

namespace Record

/-- A record after an edit.  An edit that fails changes nothing. -/
def edit (r : Record) : Edit → Record
  | .assign data => { r with data }
  | .mark fields =>
    match r.setChanged fields with
    | .ok r => r
    | .error _ => r
  | .update incoming listed =>
    match r.update incoming listed with
    | .ok r => r
    | .error _ => r
  | .delete => r.delete.1

/-- Whether each persisted column that differs from earlier data is marked. -/
def Marked (r : Record) (base : Json) : Prop :=
  ∀ name, r.type.persists name = true → base.field? name ≠ r.data.field? name →
    r.header.dirty = true ∧
      carries r.type.fields (fun d => r.header.changes.mem d.code) name = true

theorem Marked.marks {r : Record} {base : Json} (h : r.Marked base) :
    r.type.Marks r.header.changes base r.data := by
  intro name hname hnot
  refine Classical.byContradiction fun hne => ?_
  rw [(h name hname hne).2] at hnot
  cases hnot

theorem setChanged_editsTo {r r' : Record} {fields : List Field}
    (h : r.setChanged fields = .ok r') : r'.type = r.type ∧ r.header.EditsTo r'.header := by
  cases hh : r.header.setChanged fields with
  | error e => simp [setChanged, hh, Except.map] at h
  | ok header =>
      simp only [setChanged, hh, Except.map, Except.ok.injEq] at h
      rw [← h]
      refine ⟨rfl, ?_⟩
      cases hl : r.header.lifecycle with
      | new =>
          obtain rfl : r.header = header := by simpa [Header.setChanged, hl] using hh
          exact .refl _
      | normal =>
          cases hadd : r.header.changes.add fields with
          | error b => simp [Header.setChanged, hl, hadd] at hh
          | ok changes =>
              simp only [Header.setChanged, hl, hadd, Except.ok.injEq] at hh
              rw [← hh]
              refine ⟨rfl, rfl, rfl, fun _ _ => rfl, .inl ⟨hl.symm, fun hgone => ?_⟩⟩
              rw [hl] at hgone
              cases hgone
      | deleted | unavailable => simp [Header.setChanged, hl] at hh

/-- The steps of an update that succeeds. -/
theorem update_eq_ok {r after : Record} {incoming : Json} {listed : FieldSet}
    (h : r.update incoming listed = .ok after) :
    ∃ indoc doc data header, toDocument incoming = .ok indoc ∧ toDocument r.data = .ok doc ∧
      r.type.read (.ofDocument (overlay r.type.fields listed indoc doc)) = .ok data ∧
      r.header.markChanged listed = .ok header ∧ after = { r with data, header } := by
  rw [update] at h
  split at h
  · cases h
  · simp only [bind, Except.bind, pure, Except.pure] at h
    split at h
    · cases h
    next indoc hindoc =>
      split at h
      · cases h
      next doc hdoc =>
        split at h
        · cases h
        next data hread =>
          split at h
          · cases h
          next header hheader =>
            exact ⟨indoc, doc, data, header, hindoc, hdoc, hread, hheader, (Except.ok.inj h).symm⟩

theorem update_editsTo {r r' : Record} {incoming : Json} {listed : FieldSet}
    (h : r.update incoming listed = .ok r') : r'.type = r.type ∧ r.header.EditsTo r'.header := by
  obtain ⟨_, _, _, header, -, -, -, hheader, rfl⟩ := update_eq_ok h
  refine ⟨rfl, ?_⟩
  cases hl : r.header.lifecycle with
  | new =>
      obtain rfl : r.header = header := by simpa [Header.markChanged, hl] using hheader
      exact .refl _
  | normal =>
      simp only [Header.markChanged, hl, Except.ok.injEq] at hheader
      rw [← hheader]
      refine ⟨rfl, rfl, rfl, fun _ _ => rfl, .inl ⟨hl.symm, fun hgone => ?_⟩⟩
      rw [hl] at hgone
      cases hgone
  | deleted | unavailable => simp [Header.markChanged, hl] at hheader

theorem delete_editsTo (r : Record) : r.header.EditsTo r.delete.1.header := by
  cases hl : r.header.lifecycle with
  | new =>
      have hgone : r.delete.1.header =
          { r.header with lifecycle := .unavailable, dirty := false } := by
        simp [delete, Header.markAsDeleted, hl]
      rw [hgone]
      exact ⟨rfl, rfl, rfl, fun _ hne => absurd rfl hne, .inr (.inl ⟨hl, rfl, rfl⟩)⟩
  | normal =>
      have hgone : r.delete.1.header = { r.header with lifecycle := .deleted, dirty := true } := by
        simp [delete, Header.markAsDeleted, hl]
      rw [hgone]
      exact ⟨rfl, rfl, rfl, fun _ _ => rfl, .inr (.inr ⟨hl, rfl⟩)⟩
  | deleted | unavailable =>
      have hsame : r.delete.1.header = r.header := by simp [delete, Header.markAsDeleted, hl]
      rw [hsame]
      exact .refl _

/-- An edit leaves the type of a record alone, and its header goes on as it may. -/
theorem edit_editsTo (r : Record) (e : Edit) :
    (r.edit e).type = r.type ∧ r.header.EditsTo (r.edit e).header := by
  cases e with
  | assign data => exact ⟨rfl, .refl _⟩
  | mark fields =>
      cases h : r.setChanged fields with
      | error e => simpa [edit, h] using Header.EditsTo.refl r.header
      | ok r' => simpa [edit, h] using setChanged_editsTo h
  | update incoming listed =>
      cases h : r.update incoming listed with
      | error e => simpa [edit, h] using Header.EditsTo.refl r.header
      | ok r' => simpa [edit, h] using update_editsTo h
  | delete => exact ⟨rfl, delete_editsTo r⟩

/-- Only a deletion makes a record wait for its removal. -/
theorem lifecycle_edit {r : Record} {e : Edit} (he : e ≠ .delete) :
    (r.edit e).lifecycle = r.lifecycle := by
  cases e with
  | assign data => rfl
  | mark fields =>
      cases hh : r.header.setChanged fields with
      | error e => simp [edit, setChanged, hh, Except.map]
      | ok header => simp [edit, setChanged, hh, Except.map, lifecycle, Header.lifecycle_setChanged hh]
  | update incoming listed =>
      cases hok : r.update incoming listed with
      | error e => simp [edit, hok]
      | ok r' =>
          obtain ⟨_, _, _, header, -, -, -, hheader, rfl⟩ := update_eq_ok hok
          simp only [edit, hok]
          exact Header.lifecycle_markChanged hheader
  | delete => exact absurd rfl he

/-- A removal stays to be committed. -/
theorem dirty_of_edit {r : Record} (h : r.lifecycle = .deleted → r.header.dirty = true) (e : Edit)
    (hdeleted : (r.edit e).lifecycle = .deleted) : (r.edit e).header.dirty = true := by
  have hkept : r.lifecycle = .deleted → (r.edit e).header.dirty = true := by
    intro hl
    have hne : (r.edit e).lifecycle ≠ .unavailable := by
      rw [hdeleted]
      decide
    exact (r.edit_editsTo e).2.pending (h hl) hne
  by_cases he : e = .delete
  · subst he
    cases hl : r.header.lifecycle with
    | normal => simp [edit, delete, Header.markAsDeleted, hl]
    | deleted => exact hkept hl
    | new | unavailable =>
        simp [edit, delete, lifecycle, Header.markAsDeleted, hl] at hdeleted
  · exact hkept ((lifecycle_edit he).symm.trans hdeleted)

/-! ## Commits -/

theorem commit_of_clean {r : Record} (h : r.header.dirty = false) : r.commit = none := by
  simp [commit, h]

theorem commit_of_dirty {r : Record} (h : r.header.dirty = true) :
    r.commit = some (⟨r.type, r.key, r.header.toPending, r.version, r.data⟩,
      { r with header := r.header.beginCommit.finishCommit }) := by
  rw [commit, if_pos h]
  rfl

end Record

/-! ## Keys in use -/

/-- Records of a type can be stored under some keys: their data are documents, rows
carry the columns of the key, and different keys have different texts. -/
structure RecordType.Stores (t : RecordType) (inUse : Key → Prop) : Prop where
  document : ∃ columns, t.layout = .record columns
  keyed : ∀ c ∈ t.key.first :: t.key.rest, t.persists c.name = true
  distinct : ∀ {k k' : Key}, inUse k → inUse k' → k.text = k'.text → k = k'

namespace RecordType

section Stores

variable {t : RecordType} {inUse : Key → Prop} {data data' : Json} {row : Document}

theorem Stores.exists_storedRow (h : t.Stores inUse) (hdata : t.Holds data) :
    ∃ row, t.storedRow data = .ok row := by
  obtain ⟨columns, hl⟩ := h.document
  obtain ⟨doc, rfl, -⟩ := hdata.eq_ofDocument hl
  exact ⟨project doc t.fields fun _ => true, by rw [storedRow, toDocument_ofDocument]; rfl⟩

/-- Data that agree on the persisted columns have one key. -/
theorem Stores.keyOf_congr (h : t.Stores inUse)
    (hsame : ∀ name, t.persists name = true → data.field? name = data'.field? name) :
    t.keyOf data = t.keyOf data' := by
  obtain ⟨columns, hl⟩ := h.document
  have hcolumn : ∀ c ∈ t.key.first :: t.key.rest,
      c.ofJson (t.column data c.name) = c.ofJson (t.column data' c.name) := by
    intro c hc
    rw [column, column, hl]
    dsimp only
    rw [hsame c.name (h.keyed c hc)]
  rw [keyOf, keyOf, hcolumn t.key.first List.mem_cons_self]
  congr 1
  refine List.map_congr_left fun c hc => ?_
  rw [hcolumn c (List.mem_cons_of_mem _ hc)]

/-- Data read back from a stored row have its key, and its row. -/
theorem Stores.of_read (h : t.Stores inUse) (hdata : t.Holds data)
    (hrow : t.storedRow data = .ok row) (hread : t.read (.ofDocument row) = .ok data') :
    t.Holds data' ∧ t.keyOf data' = t.keyOf data ∧ t.storedRow data' = .ok row := by
  have hdata' := holds_of_read hread
  have hrow' := storedRow_of_read hdata hrow hread
  refine ⟨hdata', h.keyOf_congr fun name hname => ?_, hrow'⟩
  have hget := get?_storedRow hdata hrow name
  have hget' := get?_storedRow hdata' hrow' name
  rw [if_pos hname] at hget hget'
  exact hget'.symm.trans hget

end Stores

end RecordType

/-! ## Keys of one column -/

/-- A component is of the kind of a column. -/
def KeyColumn.Admits (c : KeyColumn) : KeyPart → Prop
  | .int _ => c.kind = .integer
  | .text _ => c.kind = .text

/-- The keys that are one component, of the kind of the first column. -/
def KeyForm.Single (f : KeyForm) (k : Key) : Prop := k.rest = [] ∧ f.first.Admits k.first

theorem KeyColumn.admits_ofJson (c : KeyColumn) (value : Json) : c.Admits (c.ofJson value) := by
  cases hkind : c.kind with
  | integer => cases value <;> simp [ofJson, Admits, hkind]
  | text => cases value <;> simp [ofJson, Admits, hkind]

theorem KeyColumn.Admits.eq_of_toText {c : KeyColumn} {a b : KeyPart} (ha : c.Admits a)
    (hb : c.Admits b) (h : a.toText = b.toText) : a = b := by
  cases a with
  | int v =>
      cases b with
      | int w =>
          have hsame : v.toInt = w.toInt := Text.eq_of_toString_eq h
          rw [Int64.toInt_inj.mp hsame]
      | text s =>
          simp only [Admits] at ha hb
          rw [ha] at hb
          cases hb
  | text s =>
      cases b with
      | int w =>
          simp only [Admits] at ha hb
          rw [ha] at hb
          cases hb
      | text r => exact congrArg KeyPart.text h

/-- Different keys of one column have different texts. -/
theorem RecordType.stores_single {t : RecordType}
    (hdocument : ∃ columns, t.layout = .record columns) (hrest : t.key.rest = [])
    (hkeyed : t.persists t.key.first.name = true) : t.Stores t.key.Single := by
  refine ⟨hdocument, ?_, ?_⟩
  · intro c hc
    rw [hrest, List.mem_singleton] at hc
    rw [hc]
    exact hkeyed
  · intro k k' hk hk' htext
    obtain ⟨first, rest⟩ := k
    obtain ⟨first', rest'⟩ := k'
    obtain ⟨rfl, hfirst⟩ := hk
    obtain ⟨rfl, hfirst'⟩ := hk'
    have hsame : first.toText = first'.toText := by simpa [Key.text] using htext
    exact congrArg (fun part => (⟨part, []⟩ : Key)) (hfirst.eq_of_toText hfirst' hsame)

theorem RecordType.single_keyOf {t : RecordType} (hrest : t.key.rest = []) (data : Json) :
    t.key.Single (t.keyOf data) := by
  refine ⟨?_, KeyColumn.admits_ofJson t.key.first _⟩
  rw [keyOf, hrest]
  rfl

namespace Snapshot

/-- The write of a new record leaves its stored row. -/
theorem onRow_new_storedRow {s : Snapshot} (hnew : s.pending.lifecycle = .new)
    {stored : Document} (hstored : s.type.storedRow s.data = .ok stored)
    (row : Option Document) : (Commitment.snapshot s).onRow row = some stored := by
  cases hdoc : toDocument s.data with
  | error e => simp [RecordType.storedRow, hdoc, Except.map] at hstored
  | ok doc =>
      simp only [RecordType.storedRow, hdoc, Except.map, Except.ok.injEq] at hstored
      rw [onRow_of_new hnew, hdoc, ← hstored]

/-- The write of marked changes turns the stored row of the earlier data into that of
the later ones. -/
theorem onRow_normal_storedRow {s : Snapshot} (hnormal : s.pending.lifecycle = .normal)
    (hs : s.Sound) {base : Json} (hbase : s.type.Holds base)
    (hmarks : s.type.Marks s.pending.changes base s.data) {old stored : Document}
    (hold : s.type.storedRow base = .ok old) (hstored : s.type.storedRow s.data = .ok stored) :
    (Commitment.snapshot s).onRow (some old) = some stored := by
  cases hdoc : toDocument s.data with
  | error e => simp [RecordType.storedRow, hdoc, Except.map] at hstored
  | ok doc =>
      cases hdoc' : toDocument base with
      | error e => simp [RecordType.storedRow, hdoc', Except.map] at hold
      | ok doc' =>
          simp only [RecordType.storedRow, hdoc, Except.map, Except.ok.injEq] at hstored
          simp only [RecordType.storedRow, hdoc', Except.map, Except.ok.injEq] at hold
          have hover := RecordType.overlay_project (p := fun _ => true) hbase hs hdoc' hdoc
            (q := fun d => s.pending.changes.mem d.code) hmarks
          simp only [Bool.true_or] at hover
          rw [onRow_of_normal hnormal, hdoc, ← hold, ← hstored]
          exact congrArg some hover

/-- The row after a commit: that of the committed data, or none after a removal. -/
theorem onRow_stored {s : Snapshot} {inUse : Key → Prop} (hd : s.type.Stores inUse)
    (hs : s.Sound) (hpresent : s.pending.lifecycle ≠ .unavailable) {row : Option Document}
    (hbase : s.pending.lifecycle = .normal → ∃ base old, s.type.Holds base ∧
      s.type.storedRow base = .ok old ∧ row = some old ∧
        s.type.Marks s.pending.changes base s.data) :
    (s.pending.lifecycle = .deleted ∧ (Commitment.snapshot s).onRow row = none) ∨
      s.pending.lifecycle ≠ .deleted ∧ ∃ stored, s.type.storedRow s.data = .ok stored ∧
        (Commitment.snapshot s).onRow row = some stored := by
  obtain ⟨stored, hstored⟩ := hd.exists_storedRow hs
  cases hl : s.pending.lifecycle with
  | unavailable => exact absurd hl hpresent
  | deleted => exact .inl ⟨rfl, onRow_of_deleted hl _⟩
  | new => exact .inr ⟨by decide, stored, hstored, onRow_new_storedRow hl hstored _⟩
  | normal =>
      obtain ⟨base, old, hholds, hold, rfl, hmarks⟩ := hbase hl
      refine .inr ⟨by decide, stored, hstored, ?_⟩
      exact onRow_normal_storedRow hl hs hholds hmarks hold hstored

end Snapshot

end WriteBehind
