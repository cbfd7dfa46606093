import WriteBehind.Proofs.Merging
import WriteBehind.Record
import WriteBehind.Sample

/-!
# Offering a commitment to another one

A commitment that is offered to an entry of a batch is merged into it or handed back.
`Snapshot.offer` goes through that step by step, on the snapshot that is there, so that
something half done would show: the type and the key are compared, the pending changes
are merged, and then the data, the version and the pending changes are replaced one
after the other.  It comes to `Snapshot.merge` (`Snapshot.offer_snapshot`), and `absorbs`,
which is asked before anything is done, foretells it (`Snapshot.Reached.merge_iff_absorbs`).

The bytes of a snapshot and the data that a merge takes over say nothing about its key.
That the key is still the one of the data is what every way to a snapshot preserves
(`Snapshot.Reached.key_eq`).
-/

namespace WriteBehind

namespace Snapshot

/-! ## Offers -/

/-- A snapshot after a commitment was offered to it, and the commitment if it is handed
back. -/
def offer (s : Snapshot) (c : Commitment) : Snapshot × Option Commitment :=
  match c with
  | .foreign _ => (s, some c)
  | .snapshot later =>
    if later.type ≠ s.type then (s, some c)
    else if later.key ≠ s.key then (s, some c)
    else
      match s.pending.merge later.pending with
      | none => (s, some c)
      | some pending =>
        let s := if later.pending.lifecycle.isGone then s else { s with data := later.data }
        let s := { s with version := max s.version later.version }
        ({ s with pending }, none)

/-- A snapshot after commitments were offered to it, and those that are handed back. -/
def offerAll (s : Snapshot) : List Commitment → Snapshot × List Commitment
  | [] => (s, [])
  | c :: rest =>
    let (s, back) := s.offer c
    let (s, backs) := s.offerAll rest
    (s, back.toList ++ backs)

/-- What a later snapshot makes of one that it is merged into. -/
structure Merged (s later m : Snapshot) : Prop where
  type : m.type = s.type
  key : m.key = s.key
  keyed : m.key = m.type.keyOf m.data
  version : m.version = max s.version later.version
  data : m.data = if later.pending.lifecycle.isGone then s.data else later.data
  new : s.pending.lifecycle = .new →
    m.pending = ⟨if later.pending.lifecycle.isGone then .unavailable else .new, s.pending.changes⟩
  normal : s.pending.lifecycle = .normal →
    m.pending = if later.pending.lifecycle.isGone then ⟨.deleted, s.pending.changes⟩
      else ⟨.normal, s.pending.changes.union later.pending.changes⟩

/-- A snapshot takes those that it merges with and hands the others back. -/
theorem offer_snapshot (s later : Snapshot) :
    s.offer (.snapshot later) =
      match s.merge later with
      | some m => (m, none)
      | none => (s, some (.snapshot later)) := by
  rw [offer, merge]
  by_cases htype : later.type = s.type
  · by_cases hkey : later.key = s.key
    · have hsame : (s.type == later.type && s.key == later.key) = true := by simp [htype, hkey]
      rw [if_neg (not_not_intro htype), if_neg (not_not_intro hkey), if_pos hsame]
      cases s.pending.merge later.pending with
      | none => rfl
      | some pending => cases later.pending.lifecycle.isGone <;> rfl
    · have hother : ¬ (s.type == later.type && s.key == later.key) = true := by
        simp [Ne.symm hkey]
      rw [if_neg (not_not_intro htype), if_pos hkey, if_neg hother]
  · have hother : ¬ (s.type == later.type && s.key == later.key) = true := by
      simp [Ne.symm htype]
    rw [if_pos htype, if_neg hother]

end Snapshot

namespace Commitment

/-- A commitment after another one was offered to it, and that one if it is handed back. -/
def offer : Commitment → Commitment → Commitment × Option Commitment
  | .snapshot s, c => (.snapshot (s.offer c).1, (s.offer c).2)
  | .foreign f, c => (.foreign f, some c)

theorem offer_eq (c later : Commitment) :
    c.offer later =
      match c.merge later with
      | some m => (m, none)
      | none => (c, some later) := by
  cases c with
  | foreign f => rfl
  | snapshot s =>
      cases later with
      | foreign f => rfl
      | snapshot later =>
          rw [offer, Snapshot.offer_snapshot, merge]
          cases s.merge later <;> rfl

end Commitment

namespace Snapshot

variable {s later m : Snapshot} {c : Commitment}

/-! ## Who absorbs whom -/

theorem absorbs_iff :
    s.absorbs later = true ↔ later.type = s.type ∧ later.key = s.key ∧
      (s.pending.lifecycle = .new ∨ s.pending.lifecycle = .normal) := by
  rw [absorbs, Pending.isSome_merge, Bool.and_eq_true, Bool.and_eq_true, beq_iff_eq, beq_iff_eq,
    Bool.not_eq_true', Lifecycle.isGone_eq_false_iff, and_assoc, eq_comm, eq_comm (a := s.key)]

theorem commitment_absorbs_iff :
    (Commitment.snapshot s).absorbs c = true ↔ ∃ later, c = .snapshot later ∧
      later.type = s.type ∧ later.key = s.key ∧
      (s.pending.lifecycle = .new ∨ s.pending.lifecycle = .normal) := by
  cases c with
  | foreign f => simp [Commitment.absorbs]
  | snapshot later => simp [Commitment.absorbs, absorbs_iff]

/-- A snapshot of a record that is gone hands everything back. -/
theorem offer_of_gone (h : s.pending.lifecycle.isGone = true) (c : Commitment) :
    s.offer c = (s, some c) := by
  cases c with
  | foreign f => rfl
  | snapshot later =>
      have hnone : s.merge later = none := by
        rw [← Option.isNone_iff_eq_none, ← Option.not_isSome, isSome_merge, Bool.not_eq_true',
          Bool.eq_false_iff, Ne, absorbs_iff]
        rintro ⟨-, -, halive⟩
        rw [Lifecycle.isGone_eq_false_iff.mpr halive] at h
        cases h
      rw [offer_snapshot, hnone]

/-- Nothing changes a snapshot of a record that is gone. -/
theorem offerAll_of_gone (h : s.pending.lifecycle.isGone = true) (cs : List Commitment) :
    s.offerAll cs = (s, cs) := by
  induction cs with
  | nil => rfl
  | cons c rest ih =>
      simp only [offerAll, offer_of_gone h c, ih]
      rfl

/-! ## How snapshots come about -/

/-- The snapshots that come about: taken of a record, received, or merged. -/
inductive Reached : Snapshot → Prop
  | capture (r : Record) : Reached r.capture
  | unmarshal {t : RecordType} {bytes : Wire.Bytes} {s : Snapshot}
      (h : Snapshot.unmarshal t bytes = .ok s) : Reached s
  | merge {s later merged : Snapshot} (hs : Reached s) (hlater : Reached later)
      (h : s.merge later = some merged) : Reached merged

theorem version_of_merge (h : s.merge later = some m) :
    m.version = max s.version later.version := by
  rw [merge] at h
  split at h
  · obtain ⟨pending, -, rfl⟩ := Option.map_eq_some_iff.mp h
    rfl
  · cases h

/-- A merge keeps the key of the data, if both snapshots have it. -/
theorem key_eq_of_merge (h : s.merge later = some m) (hs : s.key = s.type.keyOf s.data)
    (hlater : later.key = later.type.keyOf later.data) : m.key = m.type.keyOf m.data := by
  obtain ⟨htype, hkey, -, hmtype, hmkey, -, hdata⟩ := merge_eq_some h
  rw [hmkey, hmtype, hdata]
  split
  · exact hs
  · rw [← hkey, ← htype]
    exact hlater

/-- However a snapshot came about, its key is the key of its data. -/
theorem Reached.key_eq (h : s.Reached) : s.key = s.type.keyOf s.data := by
  induction h with
  | capture r => rfl
  | unmarshal h =>
      rw [Snapshot.unmarshal] at h
      split at h
      · cases h
      · rw [← Except.ok.inj h]
  | merge _ _ h ihs ihlater => exact key_eq_of_merge h ihs ihlater

theorem Reached.merged (hs : s.Reached) (hlater : later.Reached) (h : s.merge later = some m) :
    Merged s later m := by
  obtain ⟨-, -, -, htype, hkey, hpending, hdata⟩ := merge_eq_some h
  refine ⟨htype, hkey, key_eq_of_merge h hs.key_eq hlater.key_eq, version_of_merge h, hdata, ?_, ?_⟩
  · intro hnew
    simp only [Pending.merge, hnew, Option.some.injEq] at hpending
    rw [← hpending]
    split
    · rfl
    · rw [← hnew]
  · intro hnormal
    simp only [Pending.merge, hnormal, Option.some.injEq] at hpending
    rw [← hpending, ← hnormal]

end Snapshot

/-- A commitment that comes about: a snapshot does so, of any other one nothing is
asked. -/
def Commitment.Reached : Commitment → Prop
  | .snapshot s => s.Reached
  | .foreign _ => True

namespace Snapshot

variable {s : Snapshot}

/-- A snapshot stays one that comes about, with its type and its key, whatever is offered
to it. -/
theorem Reached.offerAll (hs : s.Reached) {cs : List Commitment} (hcs : ∀ c ∈ cs, c.Reached) :
    (s.offerAll cs).1.Reached ∧ (s.offerAll cs).1.type = s.type ∧
      (s.offerAll cs).1.key = s.key := by
  induction cs generalizing s with
  | nil => exact ⟨hs, rfl, rfl⟩
  | cons c rest ih =>
      have hrest : ∀ c ∈ rest, c.Reached := fun c hc => hcs c (List.mem_cons_of_mem _ hc)
      have hstep : (s.offer c).1.Reached ∧ (s.offer c).1.type = s.type ∧
          (s.offer c).1.key = s.key := by
        cases c with
        | foreign f => exact ⟨hs, rfl, rfl⟩
        | snapshot later =>
            rw [offer_snapshot]
            cases hm : s.merge later with
            | none => exact ⟨hs, rfl, rfl⟩
            | some m =>
                obtain ⟨-, -, -, htype, hkey, -, -⟩ := merge_eq_some hm
                exact ⟨hs.merge (hcs _ List.mem_cons_self) hm, htype, hkey⟩
      obtain ⟨hreached, htype, hkey⟩ := hstep
      obtain ⟨hreached', htype', hkey'⟩ := ih hreached hrest
      exact ⟨hreached', htype'.trans htype, hkey'.trans hkey⟩

/-- A commitment is merged into a snapshot exactly if it is absorbed, which depends on its
type, its key and on whether the record of the snapshot is gone.  If it is not, it is handed
back and the snapshot is what it was.  What comes of merges, one or many, is a snapshot of
the same type and key, and once its record is gone nothing changes it. -/
theorem Reached.merge_iff_absorbs (hs : s.Reached) {c : Commitment} (hc : c.Reached) :
    ((Commitment.snapshot s).merge c).isSome = (Commitment.snapshot s).absorbs c ∧
      ((Commitment.snapshot s).absorbs c = true ↔ ∃ later, c = .snapshot later ∧
        later.type = s.type ∧ later.key = s.key ∧
        (s.pending.lifecycle = .new ∨ s.pending.lifecycle = .normal)) ∧
      ((Commitment.snapshot s).merge c = none → s.offer c = (s, some c)) ∧
      (∀ m, (Commitment.snapshot s).merge c = some m → ∃ later merged, c = .snapshot later ∧
        m = .snapshot merged ∧ s.offer c = (merged, none) ∧ Merged s later merged) ∧
      (∀ cs : List Commitment, (∀ c ∈ cs, c.Reached) → (s.offerAll cs).1.Reached ∧
        (s.offerAll cs).1.type = s.type ∧ (s.offerAll cs).1.key = s.key) ∧
      (s.pending.lifecycle.isGone = true → ∀ cs, s.offerAll cs = (s, cs)) := by
  refine ⟨Commitment.isSome_merge _ _, commitment_absorbs_iff, ?_, ?_, fun cs => hs.offerAll,
    offerAll_of_gone⟩
  · intro hnone
    have hoffer := Commitment.offer_eq (.snapshot s) c
    rw [hnone] at hoffer
    obtain ⟨hsame, hback⟩ := Prod.mk.inj hoffer
    exact Prod.ext (Commitment.snapshot.inj hsame) hback
  · intro m hm
    cases c with
    | foreign f => cases hm
    | snapshot later =>
        obtain ⟨merged, hmerged, rfl⟩ := Option.map_eq_some_iff.mp hm
        refine ⟨later, merged, rfl, rfl, ?_, hs.merged hc hmerged⟩
        rw [offer_snapshot, hmerged]

end Snapshot

namespace Sample

/-- A hero that was never stored. -/
def heroDraft : Snapshot := (Record.init hero.record (heroOf 7 1)).capture

/-- The removal of a hero of the next level. -/
def heroDropped : Snapshot := (Record.load hero.record (heroOf 7 2)).delete.1.capture

/-- A removal takes a new hero back, who keeps the data and is done with. -/
theorem merge_heroDropped : ∃ m, heroDraft.merge heroDropped = some m ∧
    m.pending.lifecycle = .unavailable ∧ m.data = heroOf 7 1 ∧
    ∀ cs, m.offerAll cs = (m, cs) := by
  have hdraft : heroDraft.Reached := .capture _
  have hdropped : heroDropped.Reached := .capture _
  obtain ⟨m, hm⟩ : ∃ m, heroDraft.merge heroDropped = some m := ⟨_, rfl⟩
  have hcommitment : (Commitment.snapshot heroDraft).merge (.snapshot heroDropped) =
      some (.snapshot m) := by
    rw [Commitment.merge, hm]
    rfl
  obtain ⟨-, -, -, hmerge, -, -⟩ :=
    hdraft.merge_iff_absorbs (c := .snapshot heroDropped) hdropped
  obtain ⟨later, merged, hlater, hsame, -, hmerged⟩ := hmerge _ hcommitment
  obtain rfl := Commitment.snapshot.inj hlater
  obtain rfl := Commitment.snapshot.inj hsame
  have hgone : m.pending.lifecycle = .unavailable := by
    rw [hmerged.new rfl]
    rfl
  obtain ⟨-, -, -, -, -, hstays⟩ :=
    (hdraft.merge hdropped hm).merge_iff_absorbs (c := .snapshot heroDropped) hdropped
  refine ⟨m, hm, hgone, hmerged.data, hstays ?_⟩
  rw [hgone]
  rfl

end Sample

end WriteBehind
