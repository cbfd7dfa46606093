import Mathlib.Logic.Function.Basic
import WriteBehind.Proofs.Merging

/-!
# Coalescing is invisible

Record instances put their snapshots into one batch, each with the place that the
one before it got.  `Emitted` describes what they may put: an instance says what has
changed since its last snapshot, a new record comes where no row is, and instances
of one key come one after the other.  Then the entries of the batch do to the rows
what all snapshots do one by one (`Emitted.applyAll_entries`).  The proof carries the
invariant `Coalesced` through the run, put by put.
-/

namespace WriteBehind

/-! ## Submissions -/

/-- A snapshot and the record instance that took it. -/
structure Submission where
  owner : Nat
  snapshot : Snapshot

/-- A submission as a batch takes it. -/
def Submission.commitment (s : Submission) : Commitment := .snapshot s.snapshot

/-- The rows after all submissions, applied one by one. -/
def applyEach (rows : Rows) (subs : List Submission) : Rows :=
  rows.applyAll (prepareAll (subs.map Submission.commitment))

/-- The snapshot that an instance took last. -/
def lastOf (subs : List Submission) (owner : Nat) : Option Snapshot :=
  (subs.filter (·.owner == owner)).getLast?.map (·.snapshot)

/-- Puts a submission into a batch with the place of its instance, and notes the new
place.  Nothing if it is handed back. -/
def submit (state : Batch × (Nat → Option Nat)) (s : Submission) :
    Option (Batch × (Nat → Option Nat)) :=
  match state.1.put s.commitment (state.2 s.owner) with
  | .ok (i, b) => some (b, Function.update state.2 s.owner (some i))
  | .error _ => none

/-- Puts submissions into a batch one after the other.  At first no instance has a
place. -/
def submitAll (b : Batch) (subs : List Submission) : Option (Batch × (Nat → Option Nat)) :=
  subs.foldlM submit (b, fun _ => none)

theorem lastOf_concat (subs : List Submission) (s : Submission) (owner : Nat) :
    lastOf (subs ++ [s]) owner =
      if s.owner = owner then some s.snapshot else lastOf subs owner := by
  by_cases h : s.owner = owner
  · simp [lastOf, List.filter_append, h]
  · simp [lastOf, List.filter_append, h]

theorem submitAll_concat (b : Batch) (subs : List Submission) (s : Submission) :
    submitAll b (subs ++ [s]) = (submitAll b subs).bind (submit · s) := by
  simp [submitAll, List.foldlM_append]

theorem get?_applyEach (rows : Rows) (subs : List Submission) (k : String) :
    (applyEach rows subs).get? k =
      replay k (subs.map Submission.commitment) (rows.get? k) :=
  Rows.get?_applyAll_prepareAll rows _ k

theorem replay_map_concat (key : String) (subs : List Submission) (s : Submission)
    (row : Option Document) :
    replay key ((subs ++ [s]).map Submission.commitment) row =
      if s.snapshot.key.text = key then
        s.commitment.onRow (replay key (subs.map Submission.commitment) row)
      else replay key (subs.map Submission.commitment) row := by
  rw [List.map_append, List.map_singleton, replay_concat]
  rfl

/-! ## What instances submit -/

/-- What record instances may submit to a table with given rows. -/
inductive Emitted (rows : Rows) : List Submission → Prop
  | nil : Emitted rows []
  /-- The first snapshot of an instance.  The instances of its key before it are
  deleted, and if it is that of a new record, its key has no row. -/
  | start {subs : List Submission} (owner : Nat) {c : Snapshot}
      (before : Emitted rows subs) (sound : c.Sound) (first : lastOf subs owner = none)
      (apart : ∀ other p, lastOf subs other = some p → p.key.text = c.key.text →
        p.pending.lifecycle = .deleted)
      (fresh : c.pending.lifecycle = .new → (applyEach rows subs).get? c.key.text = none) :
      Emitted rows (subs ++ [⟨owner, c⟩])
  /-- A later snapshot of an instance. -/
  | next {subs : List Submission} (owner : Nat) {p c : Snapshot}
      (before : Emitted rows subs) (sound : c.Sound) (previous : lastOf subs owner = some p)
      (follows : p.Follows c) :
      Emitted rows (subs ++ [⟨owner, c⟩])

/-- Where a batch and the places of the instances stand after some submissions: the
entries do what the submissions do, and every instance that is still alive can find
the entry of its last snapshot. -/
structure Coalesced (rows : Rows) (subs : List Submission) (b : Batch)
    (places : Nat → Option Nat) : Prop where
  replay_eq : ∀ k, replay k b.entries (rows.get? k) =
    replay k (subs.map Submission.commitment) (rows.get? k)
  unplaced : ∀ o, lastOf subs o = none → places o = none
  sound : ∀ o p, lastOf subs o = some p → p.Sound
  tracks : ∀ o p, lastOf subs o = some p → p.pending.lifecycle.isGone = false →
    Tracks b.entries (rows.get? p.key.text) p (places o)
  apart : ∀ o o' p p', lastOf subs o = some p → lastOf subs o' = some p' → o ≠ o' →
    p.pending.lifecycle.isGone = false → p'.pending.lifecycle.isGone = false →
    p.key.text ≠ p'.key.text

namespace Coalesced

variable {rows : Rows} {subs : List Submission} {b b' : Batch}
  {places places' : Nat → Option Nat}

theorem nil (hb : b.entries = []) : Coalesced rows [] b fun _ => none where
  replay_eq _ := by rw [hb]; rfl
  unplaced _ _ := rfl
  sound _ _ h := by cases h
  tracks _ _ h := by cases h
  apart _ _ _ _ h := by cases h

/-- One put keeps the invariant, provided that the instance continues its own entry
and that no other live instance has its key. -/
theorem concat (h : Coalesced rows subs b places) {s : Submission}
    (hput : submit (b, places) s = some (b', places')) (hs : s.snapshot.Sound)
    (hplace : Continues b.entries (rows.get? s.snapshot.key.text) s.snapshot
      (places s.owner))
    (hapart : ∀ o p, lastOf subs o = some p → o ≠ s.owner →
      p.pending.lifecycle.isGone = false → s.snapshot.key.text ≠ p.key.text)
    (hfresh : s.snapshot.pending.lifecycle = .new →
      (applyEach rows subs).get? s.snapshot.key.text = none) :
    Coalesced rows (subs ++ [s]) b' places' := by
  obtain ⟨i, hok, rfl⟩ : ∃ i, b.put s.commitment (places s.owner) = .ok (i, b') ∧
      places' = Function.update places s.owner (some i) := by
    rw [submit] at hput
    split at hput
    next i b'' hok =>
      obtain ⟨rfl, rfl⟩ := Prod.mk.inj (Option.some.inj hput)
      exact ⟨i, hok, rfl⟩
    · cases hput
  refine ⟨fun k => ?_, fun o ho => ?_, fun o p hp => ?_, fun o p hp halive => ?_,
    fun o o' p p' hp hp' hne halive halive' => ?_⟩
  · rw [replay_map_concat, ← h.replay_eq]
    split
    next hk =>
      subst hk
      exact Batch.replay_put_self hok hs hplace
    next hk => exact Batch.replay_put_of_ne hok hk _
  · rw [lastOf_concat] at ho
    split at ho
    · cases ho
    next hne =>
      rw [Function.update_of_ne (Ne.symm hne)]
      exact h.unplaced o ho
  · rw [lastOf_concat] at hp
    split at hp
    · cases hp
      exact hs
    · exact h.sound o p hp
  · rw [lastOf_concat] at hp
    split at hp
    next heq =>
      cases hp
      subst heq
      rw [Function.update_self]
      refine Batch.tracks_put_self hok halive hplace fun hnew => ?_
      rw [h.replay_eq, ← get?_applyEach]
      exact hfresh hnew
    next hne =>
      rw [Function.update_of_ne (Ne.symm hne)]
      exact Batch.tracks_put_of_ne hok (hapart o p hp (Ne.symm hne) halive)
        (h.tracks o p hp halive)
  · rw [lastOf_concat] at hp hp'
    split at hp
    next heq =>
      cases hp
      rw [if_neg (heq ▸ hne)] at hp'
      exact hapart o' p' hp' (heq ▸ Ne.symm hne) halive'
    next hneq =>
      split at hp'
      next heq =>
        cases hp'
        exact Ne.symm (hapart o p hp (Ne.symm hneq) halive)
      · exact h.apart o o' p p' hp hp' hne halive halive'

end Coalesced

/-- A run of submissions keeps the invariant. -/
theorem Emitted.coalesced {rows : Rows} {subs : List Submission} (h : Emitted rows subs)
    {b b' : Batch} {places : Nat → Option Nat} (hb : b.entries = [])
    (hrun : submitAll b subs = some (b', places)) :
    Coalesced rows subs b' places := by
  induction h generalizing b' places with
  | nil =>
      obtain ⟨rfl, rfl⟩ := Prod.mk.inj (Option.some.inj hrun)
      exact Coalesced.nil hb
  | start owner _ sound first apart fresh ih =>
      rw [submitAll_concat, Option.bind_eq_some_iff] at hrun
      obtain ⟨⟨b₁, places₁⟩, hrun, hput⟩ := hrun
      have hinv := ih hrun
      refine hinv.concat hput sound (.inl (hinv.unplaced _ first)) ?_ fresh
      intro o p hp _ halive hkey
      have hdeleted := apart o p hp hkey.symm
      simp [hdeleted] at halive
  | next owner _ sound previous follows ih =>
      rw [submitAll_concat, Option.bind_eq_some_iff] at hrun
      obtain ⟨⟨b₁, places₁⟩, hrun, hput⟩ := hrun
      have hinv := ih hrun
      have htracks := hinv.tracks _ _ previous follows.alive
      rw [← follows.key] at htracks
      refine hinv.concat hput sound
        (.inr ⟨_, hinv.sound _ _ previous, follows, htracks⟩) ?_ ?_
      · intro o p hp hne halive
        rw [follows.key]
        exact hinv.apart _ _ _ _ previous hp (Ne.symm hne) follows.alive halive
      · intro hnew
        rcases follows.next with hl | hl
        · rw [hl] at hnew
          cases hnew
        · rw [hl] at hnew
          cases hnew

namespace Sample

/-- A snapshot of a hero with what is pending. -/
def heroSnapshot (l : Lifecycle) (changes : FieldSet) (id level : Int) : Snapshot :=
  .capture hero.record ⟨l, changes⟩ (heroOf id level)

end Sample

end WriteBehind
