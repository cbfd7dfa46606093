import WriteBehind.Sample
import WriteBehind.Proofs.Commits

/-!
# Lives of records

What a record emits between its start and its removal.  Edits change its data, mark
fields, delete it or fail; a commit emits a snapshot of what is pending, if anything is.
A life (`Life`) is a record together with the snapshots it has emitted, each with the
codes that were marked since the commit before.

Lifecycle, dirty flag and changes are set by different calls, which look at different
ones of them: a mark looks at the lifecycle and sets the flag, a commit looks at the
flag and moves the lifecycle.  That they fit together (`Header.Settled`) and that the
lifecycle tells what has been emitted so far (`Origin.Emitted`) is what each call
preserves (`Life.Orderly.call`).
-/

namespace WriteBehind

/-- The members of a set to which codes were added are the old ones and those codes. -/
theorem FieldSet.mem_add {s t : FieldSet} {fields : List Field} (h : s.add fields = .ok t)
    (f : Field) : f ∈ t ↔ f ∈ s ∨ f ∈ fields := by
  induction fields generalizing s with
  | nil =>
      obtain rfl : s = t := Except.ok.inj h
      simp
  | cons g fields ih =>
      rw [add] at h
      split at h
      next hg =>
        rw [ih h, List.mem_cons]
        simp only [mem_iff, mem_insert, Bool.or_eq_true, decide_eq_true_eq]
        constructor
        · rintro ((hf | ⟨rfl, -⟩) | hf)
          · exact .inl hf
          · exact .inr (.inl rfl)
          · exact .inr (.inr hf)
        · rintro (hf | rfl | hf)
          · exact .inl (.inl hf)
          · exact .inl (.inr ⟨rfl, hg⟩)
          · exact .inr hf
      · cases h

theorem FieldSet.not_mem_empty (f : Field) : f ∉ FieldSet.empty := by
  simp [mem_iff]

namespace Record

/-! ## What an edit does -/

/-- The codes that an edit marks on a stored record.  On any other record, and where it
fails, it marks none. -/
def marks (r : Record) : Edit → List Field
  | .mark fields =>
    match r.lifecycle, r.setChanged fields with
    | .normal, .ok _ => fields
    | _, _ => []
  | .update incoming listed =>
    match r.lifecycle, r.update incoming listed with
    | .normal, .ok _ => listed.codes
    | _, _ => []
  | .assign _ | .delete => []

/-- The breach that an edit is, if it is one. -/
def breach? (r : Record) : Edit → Option Breach
  | .mark fields =>
    match r.setChanged fields with
    | .error (.breach b) => some b
    | _ => none
  | .assign _ | .update _ _ | .delete => none

/-- What an edit can do to a header: nothing, add its marks to the changes of a stored
record, or delete a record that is not gone. -/
inductive EditCase (r : Record) (e : Edit) : Prop where
  | kept (same : (r.edit e).header = r.header) (unmarked : r.marks e = [])
  | marked (changes : FieldSet) (normal : r.lifecycle = .normal)
      (added : ∀ f, f ∈ changes ↔ f ∈ r.header.changes ∨ f ∈ r.marks e)
      (header : (r.edit e).header = { r.header with changes, dirty := true })
  | dropped (delete : e = .delete) (new : r.lifecycle = .new)
      (header : (r.edit e).header = { r.header with lifecycle := .unavailable, dirty := false })
  | deleted (delete : e = .delete) (normal : r.lifecycle = .normal)
      (header : (r.edit e).header = { r.header with lifecycle := .deleted, dirty := true })

theorem setChanged_cases {r r' : Record} {fields : List Field}
    (h : r.setChanged fields = .ok r') :
    r' = r ∧ r.lifecycle = .new ∨
      r.lifecycle = .normal ∧ ∃ changes, r.header.changes.add fields = .ok changes ∧
        r' = { r with header := { r.header with changes, dirty := true } } := by
  cases hl : r.header.lifecycle with
  | new => exact .inl ⟨by simpa [setChanged, Header.setChanged, hl, Except.map] using h.symm, hl⟩
  | normal =>
      cases hadd : r.header.changes.add fields with
      | error b => simp [setChanged, Header.setChanged, hl, hadd, Except.map] at h
      | ok changes =>
          refine .inr ⟨hl, changes, rfl, ?_⟩
          simpa [setChanged, Header.setChanged, hl, hadd, Except.map] using h.symm
  | deleted | unavailable => simp [setChanged, Header.setChanged, hl, Except.map] at h

theorem header_update {r r' : Record} {incoming : Json} {listed : FieldSet}
    (h : r.update incoming listed = .ok r') :
    r.header.markChanged listed = .ok r'.header := by
  obtain ⟨_, _, _, header, -, -, -, hheader, rfl⟩ := update_eq_ok h
  exact hheader

theorem edit_cases (r : Record) (e : Edit) : r.EditCase e := by
  cases e with
  | assign data => exact .kept rfl rfl
  | mark fields =>
      cases hok : r.setChanged fields with
      | error e => exact .kept (by simp [edit, hok]) (by simp [marks, hok])
      | ok r' =>
          obtain ⟨rfl, hnew⟩ | ⟨hnormal, changes, hadd, rfl⟩ := setChanged_cases hok
          · exact .kept (by simp [edit, hok]) (by simp [marks, hok, hnew])
          · refine .marked changes hnormal (fun f => ?_) (by simp [edit, hok])
            rw [FieldSet.mem_add hadd]
            simp [marks, hok, hnormal]
  | update incoming listed =>
      cases hok : r.update incoming listed with
      | error e => exact .kept (by simp [edit, hok]) (by simp [marks, hok])
      | ok r' =>
          have hheader := header_update hok
          cases hl : r.header.lifecycle with
          | new =>
              have hsame : r'.header = r.header := by
                simpa [Header.markChanged, hl] using hheader.symm
              exact .kept (by simp [edit, hok, hsame]) (by simp [marks, hok, lifecycle, hl])
          | normal =>
              have hset : r'.header =
                  { r.header with changes := r.header.changes.union listed, dirty := true } := by
                simpa [Header.markChanged, hl] using hheader.symm
              refine .marked (r.header.changes.union listed) hl (fun f => ?_)
                (by simp [edit, hok, hset])
              simp [marks, hok, lifecycle, hl, FieldSet.mem_iff]
          | deleted | unavailable => simp [Header.markChanged, hl] at hheader
  | delete =>
      cases hl : r.header.lifecycle with
      | new => exact .dropped rfl hl (by simp [edit, delete, Header.markAsDeleted, hl])
      | normal => exact .deleted rfl hl (by simp [edit, delete, Header.markAsDeleted, hl])
      | deleted | unavailable =>
          exact .kept (by simp [edit, delete, Header.markAsDeleted, hl]) rfl

/-- An edit adds its marks to the changes. -/
theorem mem_changes_edit (r : Record) (e : Edit) (f : Field) :
    f ∈ (r.edit e).header.changes ↔ f ∈ r.header.changes ∨ f ∈ r.marks e := by
  cases r.edit_cases e with
  | kept same unmarked => simp [same, unmarked]
  | marked changes _ added header =>
      rw [header]
      exact added f
  | dropped delete _ header | deleted delete _ header =>
      rw [header, delete]
      simp [marks]

/-- A record that is gone for good stays so. -/
theorem lifecycle_edit_of_unavailable {r : Record} (h : r.lifecycle = .unavailable) (e : Edit) :
    (r.edit e).lifecycle = .unavailable := by
  cases r.edit_cases e with
  | kept same _ => rwa [lifecycle, same]
  | dropped _ _ header => rw [lifecycle, header]
  | marked _ normal _ _ | deleted _ normal _ => simp [normal] at h

/-- A record that was never stored is new or gone, whatever the edits. -/
theorem lifecycle_edit_of_unstored {r : Record}
    (h : r.lifecycle = .new ∨ r.lifecycle = .unavailable) (e : Edit) :
    (r.edit e).lifecycle = .new ∨ (r.edit e).lifecycle = .unavailable := by
  cases r.edit_cases e with
  | kept same _ => rwa [lifecycle, same]
  | dropped _ _ header => exact .inr (by rw [lifecycle, header])
  | marked _ normal _ _ | deleted _ normal _ => simp [normal] at h

theorem lifecycle_delete_of_unstored {r : Record}
    (h : r.lifecycle = .new ∨ r.lifecycle = .unavailable) :
    (r.edit .delete).lifecycle = .unavailable := by
  obtain hnew | hgone := h
  · rw [lifecycle] at hnew
    simp [edit, delete, Header.markAsDeleted, lifecycle, hnew]
  · exact lifecycle_edit_of_unavailable hgone .delete

end Record

/-! ## Lives -/

/-- A call on a record. -/
inductive RecordCall where
  | edit (e : Edit)
  | commit

/-- How a record starts. -/
inductive Origin where
  | created
  | loaded
deriving DecidableEq

/-- A record at its start. -/
def Origin.start (o : Origin) (type : RecordType) (data : Json) : Record :=
  match o with
  | .created => .init type data
  | .loaded => .load type data

/-- A record between two calls, with what it has emitted. -/
structure Life where
  record : Record
  /-- The emitted snapshots, each with the codes marked since the commit before. -/
  emitted : List (Snapshot × List Field) := []
  /-- The codes that were marked since the last commit. -/
  marked : List Field := []

namespace Life

/-- A life after a call.  Nothing comes after a breach. -/
def call (l : Life) : RecordCall → Except Breach Life
  | .edit e =>
    match l.record.breach? e with
    | some b => .error b
    | none => .ok { l with record := l.record.edit e, marked := l.marked ++ l.record.marks e }
  | .commit =>
    match l.record.commit with
    | some (s, record) => .ok { record, emitted := l.emitted ++ [(s, l.marked)] }
    | none => .ok { l with marked := [] }

/-- A life after calls. -/
def run (l : Life) (calls : List RecordCall) : Except Breach Life :=
  calls.foldlM call l

/-- The lifecycles of the emitted snapshots. -/
def lifecycles (l : Life) : List Lifecycle :=
  l.emitted.map (·.1.pending.lifecycle)

theorem eq_of_run_nil {l l' : Life} (h : l.run [] = .ok l') : l' = l :=
  (Except.ok.inj h).symm

theorem run_cons {l l' : Life} {call : RecordCall} {calls : List RecordCall}
    (h : l.run (call :: calls) = .ok l') :
    ∃ next, l.call call = .ok next ∧ next.run calls = .ok l' := by
  rw [run, List.foldlM_cons] at h
  cases hcall : l.call call with
  | error b => simp [hcall, bind, Except.bind] at h
  | ok next => exact ⟨next, rfl, by simpa [run, hcall, bind, Except.bind] using h⟩

theorem run_append {l l' : Life} {before after : List RecordCall}
    (h : l.run (before ++ after) = .ok l') :
    ∃ mid, l.run before = .ok mid ∧ mid.run after = .ok l' := by
  rw [run, List.foldlM_append] at h
  cases hbefore : before.foldlM call l with
  | error b => simp [hbefore, bind, Except.bind] at h
  | ok mid => exact ⟨mid, hbefore, by simpa [run, hbefore, bind, Except.bind] using h⟩

theorem call_edit {l next : Life} {e : Edit} (h : l.call (.edit e) = .ok next) :
    next = { l with record := l.record.edit e, marked := l.marked ++ l.record.marks e } := by
  rw [call] at h
  split at h
  · cases h
  · exact (Except.ok.inj h).symm

/-- A commit emits what is pending, or nothing if nothing is. -/
theorem call_commit {l next : Life} (h : l.call .commit = .ok next) :
    l.record.header.dirty = true ∧
        next.record.header = l.record.header.beginCommit.finishCommit ∧ next.marked = [] ∧
        next.emitted = l.emitted ++ [(l.record.capture, l.marked)] ∨
      l.record.header.dirty = false ∧ next = { l with marked := [] } := by
  cases hdirty : l.record.header.dirty with
  | false =>
      rw [call, Record.commit_of_clean hdirty] at h
      exact .inr ⟨rfl, (Except.ok.inj h).symm⟩
  | true =>
      rw [call, Record.commit_of_dirty hdirty] at h
      obtain rfl := Except.ok.inj h
      exact .inl ⟨rfl, rfl, rfl, rfl⟩

end Life

/-! ## What is emitted -/

namespace Origin

/-- What a record emits before it goes through its changes: its creation. -/
def stem : Origin → List Lifecycle
  | .created => [.new]
  | .loaded => []

/-- What a record has emitted that is now stored. -/
def Stored (o : Origin) (emitted : List Lifecycle) : Prop :=
  ∃ n, emitted = o.stem ++ List.replicate n .normal

/-- The words of a life: nothing from a created record, or else its creation, any number
of changes, and perhaps its removal. -/
def Word (o : Origin) (emitted : List Lifecycle) : Prop :=
  o = .created ∧ emitted = [] ∨
    ∃ changes removal, o.Stored changes ∧ (removal = [] ∨ removal = [.deleted]) ∧
      emitted = changes ++ removal

/-- What a record has emitted by the time it has a lifecycle. -/
def Emitted (o : Origin) (emitted : List Lifecycle) : Lifecycle → Prop
  | .new => o = .created ∧ emitted = []
  | .normal | .deleted => o.Stored emitted
  | .unavailable =>
    o = .created ∧ emitted = [] ∨ ∃ changes, o.Stored changes ∧ emitted = changes ++ [.deleted]

variable {o : Origin} {emitted : List Lifecycle}

theorem Stored.snoc (h : o.Stored emitted) : o.Stored (emitted ++ [.normal]) := by
  obtain ⟨n, rfl⟩ := h
  refine ⟨n + 1, ?_⟩
  rw [List.append_assoc, List.replicate_succ']

theorem stored_new : created.Stored [.new] := ⟨0, rfl⟩

theorem Emitted.word {lifecycle : Lifecycle} (h : o.Emitted emitted lifecycle) :
    o.Word emitted := by
  cases lifecycle with
  | new => exact .inl h
  | normal | deleted => exact .inr ⟨emitted, [], h, .inl rfl, (List.append_nil _).symm⟩
  | unavailable =>
      obtain hnone | ⟨changes, hstored, rfl⟩ := h
      · exact .inl hnone
      · exact .inr ⟨changes, [.deleted], hstored, .inr rfl, rfl⟩

theorem Emitted.edit {r : Record} (h : o.Emitted emitted r.lifecycle) (e : Edit) :
    o.Emitted emitted (r.edit e).lifecycle := by
  cases r.edit_cases e with
  | kept same _ => rwa [Record.lifecycle, same]
  | marked _ _ _ header => rwa [Record.lifecycle, header]
  | dropped _ new header =>
      rw [new] at h
      rw [Record.lifecycle, header]
      exact .inl h
  | deleted _ normal header =>
      rw [normal] at h
      rw [Record.lifecycle, header]
      exact h

/-- A commit of a record that is not gone for good emits its lifecycle and moves it on. -/
theorem Emitted.commit {lifecycle : Lifecycle} (h : o.Emitted emitted lifecycle)
    (hpresent : lifecycle ≠ .unavailable) :
    o.Emitted (emitted ++ [lifecycle]) (Header.committedLifecycle lifecycle) := by
  cases lifecycle with
  | new =>
      obtain ⟨rfl, rfl⟩ := h
      exact stored_new
  | normal => exact Stored.snoc h
  | deleted => exact .inr ⟨emitted, h, rfl⟩
  | unavailable => exact absurd rfl hpresent

end Origin

/-- The flags and changes of a header fit its lifecycle. -/
structure Header.Settled (h : Header) : Prop where
  idle : h.committing = false
  waiting : h.lifecycle = .new ∨ h.lifecycle = .deleted ∨ h.changes ≠ .empty → h.dirty = true
  gone : h.lifecycle = .unavailable → h.dirty = false
  whole : h.lifecycle = .new → h.changes = .empty

namespace Header.Settled

variable {h : Header}

theorem changes_of_clean (hs : h.Settled) (hclean : h.dirty = false) : h.changes = .empty := by
  refine Classical.byContradiction fun hne => ?_
  rw [hs.waiting (.inr (.inr hne))] at hclean
  cases hclean

theorem changed (hs : h.Settled) (hnormal : h.lifecycle = .normal) (changes : FieldSet) :
    { h with changes, dirty := true }.Settled where
  idle := hs.idle
  waiting _ := rfl
  gone hl := absurd (hnormal.symm.trans hl) (by decide)
  whole hl := absurd (hnormal.symm.trans hl) (by decide)

theorem dropped (hs : h.Settled) (hnew : h.lifecycle = .new) :
    { h with lifecycle := .unavailable, dirty := false }.Settled where
  idle := hs.idle
  waiting := by
    rintro (hl | hl | hne)
    · cases hl
    · cases hl
    · exact absurd (hs.whole hnew) hne
  gone _ := rfl
  whole hl := by cases hl

theorem deleted (hs : h.Settled) : { h with lifecycle := .deleted, dirty := true }.Settled where
  idle := hs.idle
  waiting _ := rfl
  gone hl := by cases hl
  whole hl := by cases hl

theorem committed (h : Header) : h.beginCommit.finishCommit.Settled where
  idle := rfl
  waiting := by
    cases hl : h.lifecycle <;> simp [finishCommit, beginCommit, committedLifecycle, hl]
  gone _ := rfl
  whole _ := rfl

theorem edit {r : Record} (hs : r.header.Settled) (e : Edit) : (r.edit e).header.Settled := by
  cases r.edit_cases e with
  | kept same _ => exact same ▸ hs
  | marked changes normal _ header => exact header ▸ hs.changed normal changes
  | dropped _ new header => exact header ▸ hs.dropped new
  | deleted _ _ header => exact header ▸ hs.deleted

end Header.Settled

/-! ## Orderly lives -/

namespace Life

/-- The invariant of a life. -/
structure Orderly (o : Origin) (l : Life) : Prop where
  settled : l.record.header.Settled
  marked : ∀ f, f ∈ l.record.header.changes ↔ f ∈ l.marked
  stage : o.Emitted l.lifecycles l.record.lifecycle
  told : ∀ s marked, (s, marked) ∈ l.emitted → s.pending.lifecycle = .normal →
    ∀ f, f ∈ s.pending.changes ↔ f ∈ marked

theorem orderly_start (o : Origin) (type : RecordType) (data : Json) :
    Orderly o { record := o.start type data } := by
  cases o with
  | created =>
      refine ⟨⟨rfl, fun _ => rfl, fun hl => ?_, fun _ => rfl⟩, fun f => ?_, ⟨rfl, rfl⟩, ?_⟩
      · cases hl
      · exact iff_of_false (FieldSet.not_mem_empty f) List.not_mem_nil
      · simp
  | loaded =>
      refine ⟨⟨rfl, ?_, fun hl => ?_, fun hl => ?_⟩, fun f => ?_, ⟨0, rfl⟩, ?_⟩
      · rintro (hl | hl | hne)
        · cases hl
        · cases hl
        · exact absurd rfl hne
      · cases hl
      · cases hl
      · exact iff_of_false (FieldSet.not_mem_empty f) List.not_mem_nil
      · simp

variable {o : Origin} {l next : Life}

theorem Orderly.edit (h : Orderly o l) {e : Edit} (hcall : l.call (.edit e) = .ok next) :
    Orderly o next := by
  rw [call_edit hcall]
  refine ⟨h.settled.edit e, fun f => ?_, h.stage.edit e, h.told⟩
  rw [List.mem_append, Record.mem_changes_edit, h.marked f]

theorem Orderly.commit (h : Orderly o l) (hcall : l.call .commit = .ok next) :
    Orderly o next := by
  obtain ⟨hdirty, hheader, hmarked, hemitted⟩ | ⟨hclean, rfl⟩ := call_commit hcall
  · have hpresent : l.record.lifecycle ≠ .unavailable := by
      intro hl
      rw [h.settled.gone hl] at hdirty
      cases hdirty
    refine ⟨hheader ▸ .committed _, fun f => ?_, ?_, ?_⟩
    · rw [hheader, hmarked]
      exact iff_of_false (FieldSet.not_mem_empty f) List.not_mem_nil
    · have hlifecycles : next.lifecycles = l.lifecycles ++ [l.record.lifecycle] := by
        rw [lifecycles, hemitted, List.map_append]
        rfl
      have hnext : next.record.lifecycle = Header.committedLifecycle l.record.lifecycle := by
        rw [Record.lifecycle, hheader]
        rfl
      rw [hlifecycles, hnext]
      exact h.stage.commit hpresent
    · intro s marked hs hnormal
      rw [hemitted, List.mem_append, List.mem_singleton, Prod.mk.injEq] at hs
      obtain hs | ⟨rfl, rfl⟩ := hs
      · exact h.told s marked hs hnormal
      · exact h.marked
  · refine ⟨h.settled, fun f => ?_, h.stage, h.told⟩
    rw [h.settled.changes_of_clean hclean]
    exact iff_of_false (FieldSet.not_mem_empty f) List.not_mem_nil

theorem Orderly.call (h : Orderly o l) {call : RecordCall} (hcall : l.call call = .ok next) :
    Orderly o next := by
  cases call with
  | edit e => exact h.edit hcall
  | commit => exact h.commit hcall

theorem Orderly.run (h : Orderly o l) {calls : List RecordCall} (hrun : l.run calls = .ok next) :
    Orderly o next := by
  induction calls generalizing l with
  | nil => exact eq_of_run_nil hrun ▸ h
  | cons call calls ih =>
      obtain ⟨mid, hcall, hrest⟩ := run_cons hrun
      exact ih (h.call hcall) hrest

/-! ## Records deleted before their first commit -/

/-- Without a commit a created record stays new or is dropped. -/
theorem unstored_of_edits {calls : List RecordCall} (hedits : .commit ∉ calls)
    (hl : l.record.lifecycle = .new ∨ l.record.lifecycle = .unavailable)
    (hrun : l.run calls = .ok next) :
    (next.record.lifecycle = .new ∨ next.record.lifecycle = .unavailable) ∧
      next.emitted = l.emitted := by
  induction calls generalizing l with
  | nil =>
      obtain rfl := eq_of_run_nil hrun
      exact ⟨hl, rfl⟩
  | cons call calls ih =>
      obtain ⟨mid, hcall, hrest⟩ := run_cons hrun
      rw [List.mem_cons, not_or] at hedits
      cases call with
      | commit => exact absurd rfl hedits.1
      | edit e =>
          rw [call_edit hcall] at hrest
          have hlast := ih hedits.2 (Record.lifecycle_edit_of_unstored hl e) hrest
          exact hlast

/-- A record that is gone emits nothing more. -/
theorem emitted_of_unavailable {calls : List RecordCall} (h : Orderly o l)
    (hl : l.record.lifecycle = .unavailable) (hrun : l.run calls = .ok next) :
    next.emitted = l.emitted := by
  induction calls generalizing l with
  | nil => rw [eq_of_run_nil hrun]
  | cons call calls ih =>
      obtain ⟨mid, hcall, hrest⟩ := run_cons hrun
      have hmid : mid.record.lifecycle = .unavailable ∧ mid.emitted = l.emitted := by
        cases call with
        | commit =>
            obtain ⟨hdirty, -⟩ | ⟨-, rfl⟩ := call_commit hcall
            · rw [h.settled.gone hl] at hdirty
              cases hdirty
            · exact ⟨hl, rfl⟩
        | edit e =>
            rw [call_edit hcall]
            exact ⟨Record.lifecycle_edit_of_unavailable hl e, rfl⟩
      exact (ih (h.call hcall) hmid.1 hrest).trans hmid.2

/-- A created record that is deleted before its first commit emits nothing. -/
theorem emitted_of_dropped {type : RecordType} {data : Json} {before after : List RecordCall}
    (hedits : .commit ∉ before)
    (hrun : Life.run { record := .init type data } (before ++ .edit .delete :: after) = .ok l) :
    l.emitted = [] := by
  obtain ⟨mid, hbefore, hrest⟩ := run_append hrun
  obtain ⟨hl, hnone⟩ := unstored_of_edits hedits (.inl rfl) hbefore
  obtain ⟨gone, hdelete, hafter⟩ := run_cons hrest
  have horderly := ((orderly_start .created type data).run hbefore).call hdelete
  obtain rfl := call_edit hdelete
  rw [emitted_of_unavailable horderly (Record.lifecycle_delete_of_unstored hl) hafter]
  exact hnone

/-! ## What a life can emit -/

/-- The lifecycles that a record emits form a word of its origin, none if it was created
and deleted before its first commit.  Each emitted change carries the codes marked since
the commit before.  Between calls the record is not committing, dirty if it waits for
storage, and clean if it is gone. -/
theorem emissions_of_run {type : RecordType} {data : Json} {calls : List RecordCall}
    (hrun : Life.run { record := o.start type data } calls = .ok l) :
    (o.Word l.lifecycles ∧
      ∀ before after, o = .created → calls = before ++ .edit .delete :: after →
        .commit ∉ before → l.emitted = []) ∧
    (∀ s marked, (s, marked) ∈ l.emitted → s.pending.lifecycle = .normal →
      ∀ f, f ∈ s.pending.changes ↔ f ∈ marked) ∧
    (l.record.lifecycle = .new ∨ l.record.lifecycle = .deleted ∨
        l.record.header.changes ≠ .empty → l.record.header.dirty = true) ∧
      (l.record.lifecycle = .unavailable → l.record.header.dirty = false) ∧
      l.record.header.committing = false := by
  have h : Orderly o l := (orderly_start o type data).run hrun
  refine ⟨⟨h.stage.word, ?_⟩, h.told, h.settled.waiting, h.settled.gone, h.settled.idle⟩
  rintro before after rfl rfl hedits
  exact emitted_of_dropped hedits hrun

end Life

namespace Sample

/-- A hero is stored, given a new level and removed.  The mark before the first commit and
the one after the deletion count for nothing. -/
def heroRetiring : List RecordCall :=
  [.edit (.mark [1]), .commit, .edit (.update (heroOf 7 5) heroLevel), .edit (.mark [2]), .commit,
    .commit, .edit .delete, .edit (.mark [1]), .commit]

/-- The hero emits its creation, one change and its removal, and is clean in the end. -/
theorem emissions_heroRetired :
    ∃ l, Life.run { record := Origin.created.start hero.record (heroOf 7 3) } heroRetiring = .ok l ∧
      Origin.created.Word l.lifecycles ∧ l.lifecycles = [.new, .normal, .deleted] ∧
      l.emitted.map (·.2) = [[], [2, 2], []] ∧ l.record.header.dirty = false := by
  obtain ⟨l, hrun⟩ : ∃ l, Life.run { record := Origin.created.start hero.record (heroOf 7 3) }
      heroRetiring = .ok l := ⟨_, rfl⟩
  obtain ⟨⟨hword, -⟩, -, -, hclean, -⟩ := Life.emissions_of_run hrun
  obtain rfl := Except.ok.inj hrun
  exact ⟨_, rfl, hword, by decide +kernel, by decide +kernel, hclean (by decide +kernel)⟩

end Sample

end WriteBehind
