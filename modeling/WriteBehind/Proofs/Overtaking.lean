import WriteBehind.Proofs.Merging

/-!
# Merging into an entry that others have overtaken

A snapshot that is merged into an entry takes effect before the entries that came
behind it.  Seen from the row of their key those entries either fix the row or lay
columns over it (`RowEffect`), which decides whether the snapshot still acts as if it
came last: `InStep` says when, column by column, and `apply_merge_iff_inStep` that it
says so exactly.
-/

namespace WriteBehind

/-! ## Effects on a row -/

/-- What a number of commitments does to a row: whatever the row was, it is now a
given one, or columns were laid over it. -/
inductive RowEffect where
  | fix (row : Option Document)
  | lay (columns : Document)

namespace RowEffect

/-- The row after an effect. -/
def apply : RowEffect → Option Document → Option Document
  | .fix row, _ => row
  | .lay columns, row => row.map (·.overlay columns)

/-- One effect after another one. -/
def andThen : RowEffect → RowEffect → RowEffect
  | _, .fix row => .fix row
  | .fix row, .lay columns => .fix (row.map (·.overlay columns))
  | .lay columns, .lay later => .lay (columns.overlay later)

/-- The effect of nothing. -/
def none : RowEffect := .lay .empty

theorem apply_none (row : Option Document) : none.apply row = row := by
  cases row with
  | none => rfl
  | some r => rfl

theorem apply_andThen (f g : RowEffect) (row : Option Document) :
    (f.andThen g).apply row = g.apply (f.apply row) := by
  cases g with
  | fix last => cases f <;> rfl
  | lay later =>
      cases f with
      | fix last => rfl
      | lay columns =>
          cases row with
          | none => rfl
          | some r => simp [apply, andThen, SortedMap.overlay_assoc]

end RowEffect

/-- The effect of a commitment on the row of its key. -/
def Commitment.effect (c : Commitment) : RowEffect :=
  match c.prepareWrite with
  | .error _ => .none
  | .ok w =>
    match w.lifecycle with
    | .new => .fix (some w.data)
    | .normal => .lay w.data
    | .deleted => .fix none
    | .unavailable => .none

/-- The effect of commitments on the row of a key. -/
def effectOf (key : String) (cs : List Commitment) : RowEffect :=
  cs.foldl (fun f c => if c.keyText = key then f.andThen c.effect else f) .none

theorem Commitment.apply_effect (c : Commitment) (row : Option Document) :
    c.effect.apply row = c.onRow row := by
  cases hw : c.prepareWrite with
  | error e => simp [effect, onRow, hw, RowEffect.apply_none]
  | ok w =>
      cases hl : w.lifecycle with
      | new | normal | deleted => simp [effect, onRow, PreparedWrite.onRow, hw, hl, RowEffect.apply]
      | unavailable => simp [effect, onRow, PreparedWrite.onRow, hw, hl, RowEffect.apply_none]

theorem apply_effectOf (key : String) (cs : List Commitment) (row : Option Document) :
    (effectOf key cs).apply row = replay key cs row := by
  have hfold : ∀ (f : RowEffect) (cs : List Commitment),
      (cs.foldl (fun f c => if c.keyText = key then f.andThen c.effect else f) f).apply row =
        replay key cs (f.apply row) := by
    intro f cs
    induction cs generalizing f with
    | nil => rfl
    | cons c cs ih =>
        rw [List.foldl_cons, ih, replay_cons]
        split
        · rw [RowEffect.apply_andThen, Commitment.apply_effect]
        · rfl
  rw [effectOf, hfold, RowEffect.apply_none]

/-- Commitments of a key around one of them. -/
theorem replay_around {key : String} {cs : List Commitment} {i : Nat} {c : Commitment}
    (hi : cs[i]? = some c) (hc : c.keyText = key) (row : Option Document) :
    replay key cs row =
      (effectOf key (cs.drop (i + 1))).apply (c.onRow (replay key (cs.take i) row)) := by
  rw [replay_split hi, replay_singleton_of_eq hc, apply_effectOf]

theorem replay_set_around {key : String} {cs : List Commitment} {i : Nat}
    {old c : Commitment} (hi : cs[i]? = some old) (hc : c.keyText = key)
    (row : Option Document) :
    replay key (cs.set i c) row =
      (effectOf key (cs.drop (i + 1))).apply (c.onRow (replay key (cs.take i) row)) := by
  have hlt : i < cs.length := (List.getElem?_eq_some_iff.mp hi).1
  have hset : (cs.set i c)[i]? = some c := by simp [hlt]
  rw [replay_around hset hc, List.take_set_of_le (Nat.le_refl i),
    List.drop_set_of_lt (Nat.lt_succ_self i)]

/-! ## Staying in step -/

/-- The columns that the write of a snapshot carries. -/
def Snapshot.written (s : Snapshot) : Document := (s.writtenFields.toOption).getD .empty

/-- Whether a snapshot that is merged into an earlier entry acts as if it came behind
the entries that have this effect.  The row is the one before the entry.

If they fix the row, it must be as the snapshot wants it: missing for a removal, with
the written columns otherwise.  If they lay columns over the row, a removal must not
meet a new record over an old row, and in a row that is there they must agree with the
snapshot where both write, and so must the entry where neither does. -/
def InStep (entry c : Snapshot) (behind : RowEffect) (row : Option Document) : Prop :=
  match behind, c.pending.lifecycle with
  | .fix last, .deleted => last = none
  | .fix last, _ => ∀ found name v, last = some found → c.written.get? name = some v →
      found.get? name = some v
  | .lay _, .deleted => entry.pending.lifecycle = .new → row = none
  | .lay columns, _ => entry.pending.lifecycle = .new ∨ row ≠ none → ∀ name,
      (∀ v w, c.written.get? name = some v → columns.get? name = some w → w = v) ∧
      (c.written.get? name = none → columns.get? name = none →
        (entry.written.get? name).isSome = true →
        entry.data.field? name = c.data.field? name)

namespace Snapshot

variable {s : Snapshot}

theorem written_of_error {e : Error} (h : toDocument s.data = .error e) :
    s.written = .empty := by
  cases hl : s.pending.lifecycle with
  | new | normal | deleted | unavailable =>
      simp [written, writtenFields, hl, h, Except.map, Except.toOption]

theorem written_of_new {doc : Document} (hl : s.pending.lifecycle = .new)
    (h : toDocument s.data = .ok doc) :
    s.written = project doc s.type.fields fun _ => true := by
  simp [written, writtenFields, hl, h, Except.map, Except.toOption]

theorem written_of_normal {doc : Document} (hl : s.pending.lifecycle = .normal)
    (h : toDocument s.data = .ok doc) :
    s.written = project doc s.type.fields fun d => s.pending.changes.mem d.code := by
  simp [written, writtenFields, hl, h, Except.map, Except.toOption]

end Snapshot

/-! ## When a merged snapshot is in step -/

/-- One column of the row: of entry, later columns and snapshot, the snapshot has the
last word on what it writes, and merging does not change this. -/
theorem column_merge_iff {α : Type} {inEntry inLater : Bool} {old new column row : Option α}
    (hsame : old.isSome = new.isSome) :
    column.or ((if inEntry || inLater then new else none).or row) =
        (if inLater then new else none).or (column.or ((if inEntry then old else none).or row)) ↔
      (∀ v w, (if inLater then new else none) = some v → column = some w → w = v) ∧
      ((if inLater then new else none) = none → column = none →
        (if inEntry then old else none).isSome = true → old = new) := by
  cases inLater with
  | true =>
      cases new with
      | none =>
          have hold : old = none := by simpa using hsame
          simp [hold]
      | some v =>
          cases column with
          | none => simp
          | some w => simp
  | false =>
      cases inEntry with
      | false => simp
      | true =>
          cases column with
          | some w => simp
          | none =>
              cases old with
              | none =>
                  have hnew : new = none := by simpa using hsame.symm
                  simp [hnew]
              | some v =>
                  obtain ⟨w, rfl⟩ := Option.isSome_iff_exists.mp hsame.symm
                  simp [eq_comm]

section Merge

variable {e c m : Snapshot}

/-- Laying the merged columns under later ones is laying the snapshot over all. -/
theorem overlay_merge_iff {oldDoc newDoc : Document} (he : e.type.Holds e.data)
    (hc : e.type.Holds c.data) (hold : toDocument e.data = .ok oldDoc)
    (hnew : toDocument c.data = .ok newDoc) {p q : FieldDesc → Bool}
    (hwritten : e.written = project oldDoc e.type.fields p)
    (hlater : c.written = project newDoc e.type.fields q) (row columns : Document) :
    (row.overlay (project newDoc e.type.fields fun d => p d || q d)).overlay columns =
        ((row.overlay e.written).overlay columns).overlay c.written ↔
      ∀ name,
        (∀ v w, c.written.get? name = some v → columns.get? name = some w → w = v) ∧
        (c.written.get? name = none → columns.get? name = none →
          (e.written.get? name).isSome = true →
          e.data.field? name = c.data.field? name) := by
  have hcolumn : ∀ name,
      ((row.overlay (project newDoc e.type.fields fun d => p d || q d)).overlay columns).get? name =
          (((row.overlay e.written).overlay columns).overlay c.written).get? name ↔
        (∀ v w, c.written.get? name = some v → columns.get? name = some w → w = v) ∧
        (c.written.get? name = none → columns.get? name = none →
          (e.written.get? name).isSome = true →
          e.data.field? name = c.data.field? name) := by
    intro name
    have hsame := he.same_columns hc hold hnew name
    rw [← he.get?_toDocument hold, ← hc.get?_toDocument hnew, hwritten, hlater]
    simp only [SortedMap.get?_overlay, get?_project, carries_or]
    exact column_merge_iff hsame
  constructor
  · intro heq name
    exact (hcolumn name).mp (congrArg (SortedMap.get? · name) heq)
  · intro h
    exact SortedMap.ext_get? fun name => (hcolumn name).mpr (h name)

theorem apply_merge_iff_of_deleted (hm : e.merge c = some m)
    (hdeleted : c.pending.lifecycle = .deleted) (behind : RowEffect) (row : Option Document) :
    behind.apply ((Commitment.snapshot m).onRow row) =
        (Commitment.snapshot c).onRow (behind.apply ((Commitment.snapshot e).onRow row)) ↔
      InStep e c behind row := by
  rw [Snapshot.onRow_merge_of_deleted hm hdeleted, Snapshot.onRow_of_deleted hdeleted]
  cases behind with
  | fix last => simp [RowEffect.apply, InStep, hdeleted]
  | lay columns =>
      by_cases hnew : e.pending.lifecycle = .new
      · simp [RowEffect.apply, InStep, hdeleted, hnew]
      · simp [RowEffect.apply, InStep, hdeleted, hnew]

theorem fix_iff_of_normal (hnormal : c.pending.lifecycle = .normal) (last : Option Document) :
    last = (Commitment.snapshot c).onRow last ↔
      ∀ found name v, last = some found → c.written.get? name = some v →
        found.get? name = some v := by
  rw [Snapshot.onRow_of_normal hnormal]
  cases hdoc : toDocument c.data with
  | error err => simp [Snapshot.written_of_error hdoc]
  | ok doc =>
      dsimp only
      rw [← Snapshot.written_of_normal hnormal hdoc]
      cases last with
      | none => simp
      | some found =>
          constructor
          · intro heq found' name v hfound hv
            cases hfound
            have hcolumn : found.get? name = (found.overlay c.written).get? name :=
              congrArg (SortedMap.get? · name) (Option.some.inj heq)
            rw [hcolumn, SortedMap.get?_overlay, hv]
            rfl
          · intro h
            refine congrArg some (SortedMap.ext_get? fun name => ?_)
            rw [SortedMap.get?_overlay]
            cases hv : c.written.get? name with
            | none => rfl
            | some v => exact h found name v rfl hv

theorem lay_iff_of_normal (hm : e.merge c = some m) (he : e.Sound) (hc : c.Sound)
    (hnormal : c.pending.lifecycle = .normal) (columns : Document) (row : Option Document) :
    ((Commitment.snapshot m).onRow row).map (·.overlay columns) =
        (Commitment.snapshot c).onRow
          (((Commitment.snapshot e).onRow row).map (·.overlay columns)) ↔
      InStep e c (.lay columns) row := by
  obtain ⟨htype, -, halive, hmtype, -, hpending, hdata⟩ := Snapshot.merge_eq_some hm
  have hc' : e.type.Holds c.data := htype ▸ hc
  have hmdata : m.data = c.data := by simpa [hnormal] using hdata
  have hcalive : c.pending.lifecycle.isGone = false := by rw [hnormal]; rfl
  have hml := Pending.lifecycle_of_merge hpending hcalive
  rcases RecordType.Holds.toDocument_cases he hc' with
    ⟨err, err', hold, hnew⟩ | ⟨oldDoc, newDoc, hold, hnew⟩
  · have hmerror : toDocument m.data = .error err' := by rw [hmdata, hnew]
    rw [Snapshot.onRow_of_error hmerror (by rw [hml, halive]), Snapshot.onRow_of_error hold halive,
      Snapshot.onRow_of_error hnew hcalive]
    simp [InStep, hnormal, Snapshot.written_of_error hold, Snapshot.written_of_error hnew]
  · have hcwritten : c.written =
        project newDoc e.type.fields fun d => c.pending.changes.mem d.code := by
      rw [Snapshot.written_of_normal hnormal hnew, htype]
    have hmdoc : toDocument m.data = .ok newDoc := by rw [hmdata, hnew]
    rw [Snapshot.onRow_of_normal hnormal, hnew, htype]
    dsimp only
    rw [← hcwritten]
    rcases Lifecycle.isGone_eq_false_iff.mp halive with hl | hl
    · have hewritten := Snapshot.written_of_new hl hold
      have hiff := overlay_merge_iff he hc' hold hnew hewritten hcwritten .empty columns
      simp only [Bool.true_or, SortedMap.empty_overlay] at hiff
      rw [Snapshot.onRow_of_new (hml.trans hl), hmdoc, hmtype, Snapshot.onRow_of_new hl, hold]
      dsimp only
      rw [← hewritten]
      simpa [InStep, hnormal, hl] using hiff
    · have hewritten := Snapshot.written_of_normal hl hold
      have hmchanges := Pending.changes_of_merge hpending hl hcalive
      rw [Snapshot.onRow_of_normal (hml.trans hl), hmdoc, hmtype, hmchanges,
        Snapshot.onRow_of_normal hl, hold]
      dsimp only
      rw [← hewritten]
      simp only [FieldSet.mem_union]
      cases row with
      | none => simp [InStep, hnormal, hl]
      | some r =>
          have hiff := overlay_merge_iff he hc' hold hnew hewritten hcwritten r columns
          simpa [InStep, hnormal] using hiff

/-- A merged snapshot acts as if it came last exactly if it is in step with the entries
behind its own. -/
theorem apply_merge_iff_inStep (hm : e.merge c = some m) (he : e.Sound) (hc : c.Sound)
    (hnext : c.pending.lifecycle = .normal ∨ c.pending.lifecycle = .deleted)
    (behind : RowEffect) (row : Option Document) :
    behind.apply ((Commitment.snapshot m).onRow row) =
        (Commitment.snapshot c).onRow (behind.apply ((Commitment.snapshot e).onRow row)) ↔
      InStep e c behind row := by
  rcases hnext with hnormal | hdeleted
  · cases behind with
    | fix last =>
        have hiff := fix_iff_of_normal hnormal last
        simpa [InStep, hnormal, RowEffect.apply] using hiff
    | lay columns => exact lay_iff_of_normal hm he hc hnormal columns row
  · exact apply_merge_iff_of_deleted hm hdeleted behind row

end Merge

end WriteBehind
