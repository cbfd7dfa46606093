import WriteBehind.Scope
import WriteBehind.Proofs.Commits
import WriteBehind.Proofs.Delivery

/-!
# The ledger of a source

What a source keeps of its records: the cache of instances, the workers with what is
pending, and the table.  `Ledger.Kept` is the invariant that ties them together, key
by key.  At any time the row of a key as it will be in the end (`Ledger.eventual`) is
that of the data that the live instance committed last; no instance but the live one
has anything left to commit; and of a key that nothing is known of, nothing is
pending.  Here are the invariant and the steps of the workers; what commits do to it
is in the next module.
-/

namespace WriteBehind

variable {σ : Type}

/-- What a source keeps of its records. -/
structure Ledger (σ : Type) where
  repo : Repo Key Nat
  instances : List Instance
  workers : List Worker
  table : σ

/-- What the records of a source are, under which keys they are stored, and when a table
is good and what its rows are. -/
structure Domain (σ : Type) where
  type : RecordType
  inUse : Key → Prop
  rowsOf : σ → Rows
  Good : σ → Prop

/-- Keys in use differ in their texts. -/
def Domain.Distinct (d : Domain σ) : Prop :=
  ∀ k k' : Key, d.inUse k → d.inUse k' → k.text = k'.text → k = k'

/-- The snapshot that stands for a commit of data. -/
def anchor (t : RecordType) (data : Json) : Snapshot :=
  .capture t { lifecycle := .normal } data

/-- What holds of every instance of the source's type, by the data that it committed
last. -/
structure Instance.Fits (inUse : Key → Prop) (kept : Json) (i : Instance) : Prop where
  holds : i.record.type.Holds i.record.data
  kept_holds : i.record.type.Holds kept
  kept_key : i.record.type.keyOf kept = i.record.key
  used : inUse i.record.key
  attached : i.record.header.detached = false
  known : i.record.header.expired = false
  settled : i.record.lifecycle = .unavailable → i.record.header.dirty = false

namespace Ledger

/-! ## The row of a key -/

section Rows

variable (d : Domain σ) (l : Ledger σ) (key : Key)

/-- The number of the worker for a key. -/
def laneOf : Nat := key.hash.toNat % l.workers.length

/-- The worker for a key. -/
def worker : Worker := (l.workers[l.laneOf key]?).getD {}

/-- The row of a key when the receiving batch will be delivered. -/
def before : Option Document :=
  replay key.text (l.worker key).leaving ((d.rowsOf l.table).get? key.text)

/-- The row of a key when everything pending will have been delivered. -/
def eventual : Option Document :=
  replay key.text (l.worker key).pending ((d.rowsOf l.table).get? key.text)

/-- An instance of the source's type with a key. -/
def Owns (id : Nat) (i : Instance) : Prop :=
  l.instances[id]? = some i ∧ i.record.type = d.type ∧ i.record.key = key

theorem eventual_eq : l.eventual d key =
    replay key.text (l.worker key).incoming (l.before d key) := by
  rw [eventual, Worker.pending, replay_append, before]

end Rows

/-! ## The invariant -/

section Invariant

variable (d : Domain σ) (l : Ledger σ) (kept : Nat → Json)

/-- A worker of the source: it is fit, and what is pending has keys of its lane. -/
structure Lane (n : Nat) (w : Worker) : Prop where
  fit : Worker.Fit d.Good w l.table
  routed : ∀ c ∈ w.pending, ∃ s : Snapshot, c = .snapshot s ∧ d.inUse s.key ∧
    l.laneOf s.key = n

/-- A key of which nothing is known. -/
structure Unknown (key : Key) : Prop where
  unowned : ∀ id i, ¬ l.Owns d key id i
  idle : ∀ c ∈ (l.worker key).pending, c.keyText ≠ key.text
  stored : ∀ row, l.eventual d key = some row →
    ∃ data, d.type.Holds data ∧ d.type.keyOf data = key ∧ d.type.storedRow data = .ok row

/-- A key without a row, whose instances are gone. -/
structure Missing (key : Key) : Prop where
  absent : l.eventual d key = none
  gone : ∀ id i, l.Owns d key id i → i.record.lifecycle = .unavailable

/-- The row of a stored instance is that of the data that it committed last, and its
place leads to its last entry. -/
structure Backed (key : Key) (data : Json) (i : Instance) : Prop where
  row : ∃ row, l.eventual d key = some row ∧ d.type.storedRow data = .ok row
  place : Tracks (l.worker key).incoming (l.before d key) (anchor d.type data)
    i.record.header.savingIndex

/-- A key with a live instance, which is the latest one. -/
structure Alive (key : Key) (id : Nat) (i : Instance) : Prop where
  owns : l.Owns d key id i
  others : ∀ id' i', l.Owns d key id' i' → id' ≠ id →
    id' < id ∧ i'.record.lifecycle = .unavailable
  new : i.record.lifecycle = .new →
    l.eventual d key = none ∧ i.record.header.savingIndex = none
  gone : i.record.lifecycle = .unavailable → l.eventual d key = none
  stored : i.record.lifecycle = .normal ∨ i.record.lifecycle = .deleted →
    l.Backed d key (kept id) i

/-- How cache, instances and pending commitments of a key belong together. -/
structure KeyKept (key : Key) : Prop where
  unknown : l.repo.get key = none → l.Unknown d key
  missing : l.repo.get key = some .missing → l.Missing d key
  live : ∀ id, l.repo.get key = some (.live id) → ∃ i, l.Alive d kept key id i

/-- The workers of a source are there, and each has only what belongs to its lane. -/
structure Manned : Prop where
  staffed : 0 < l.workers.length
  good : d.Good l.table
  lanes : ∀ n w, l.workers[n]? = some w → l.Lane d n w

/-- The invariant of a source. -/
structure Kept : Prop where
  keeps : l.repo.volatile = false
  staffed : 0 < l.workers.length
  good : d.Good l.table
  lanes : ∀ n w, l.workers[n]? = some w → l.Lane d n w
  instances : ∀ (id : Nat) (i : Instance), l.instances[id]? = some i →
    i.record.type = d.type → i.Fits d.inUse (kept id)
  keys : ∀ key, d.inUse key → l.KeyKept d kept key

end Invariant

section Slots

variable {d : Domain σ} {l : Ledger σ} {kept : Nat → Json} {key : Key}

theorem Kept.manned (h : l.Kept d kept) : l.Manned d :=
  ⟨h.staffed, h.good, h.lanes⟩

theorem KeyKept.of_unknown (hget : l.repo.get key = none) (h : l.Unknown d key) :
    l.KeyKept d kept key := by
  refine ⟨fun _ => h, ?_, ?_⟩
  · intro hmissing
    rw [hget] at hmissing
    cases hmissing
  · intro id hlive
    rw [hget] at hlive
    cases hlive

theorem KeyKept.of_missing (hget : l.repo.get key = some .missing) (h : l.Missing d key) :
    l.KeyKept d kept key := by
  refine ⟨?_, fun _ => h, ?_⟩
  · intro hnone
    rw [hget] at hnone
    cases hnone
  · intro id hlive
    rw [hget] at hlive
    cases hlive

theorem KeyKept.of_live {id : Nat} {i : Instance} (h : l.Alive d kept key id i)
    (hget : l.repo.get key = some (.live id)) : l.KeyKept d kept key := by
  refine ⟨?_, ?_, ?_⟩
  · intro hnone
    rw [hget] at hnone
    cases hnone
  · intro hmissing
    rw [hget] at hmissing
    cases hmissing
  · intro id' hlive
    rw [hget, Option.some.injEq, Slot.live.injEq] at hlive
    exact ⟨i, hlive ▸ h⟩

theorem Owns.unique {id : Nat} {i i' : Instance} (h : l.Owns d key id i)
    (h' : l.Owns d key id i') : i = i' :=
  Option.some.inj (h.1.symm.trans h'.1)

/-- An instance is the live one of its key, or it is gone. -/
theorem Kept.live_or_gone (h : l.Kept d kept) {id : Nat} {i : Instance}
    (hi : l.Owns d key id i) :
    (l.repo.get key = some (.live id) ∧ l.Alive d kept key id i) ∨
      l.repo.get key ≠ some (.live id) ∧ i.record.lifecycle = .unavailable := by
  have hused : d.inUse key := hi.2.2 ▸ (h.instances id i hi.1 hi.2.1).used
  have hkey := h.keys key hused
  cases hget : l.repo.get key with
  | none => exact absurd hi ((hkey.unknown hget).unowned id i)
  | some slot =>
      cases slot with
      | missing =>
          right
          exact ⟨by simp, (hkey.missing hget).gone id i hi⟩
      | live id' =>
          obtain ⟨i', halive⟩ := hkey.live id' hget
          by_cases hid : id = id'
          · subst hid
            left
            rw [hi.unique halive.owns]
            exact ⟨rfl, halive⟩
          · right
            exact ⟨by simpa using Ne.symm hid, (halive.others id i hi hid).2⟩

end Slots

/-! ## Keys that a step leaves alone -/

section Same

variable {d : Domain σ} {l l' : Ledger σ} {kept kept' : Nat → Json} {key : Key}

/-- Nothing that the invariant says of the pending commitments of a key is lost. -/
structure Carries (d : Domain σ) (l l' : Ledger σ) (key : Key) : Prop where
  eventual : l'.eventual d key = l.eventual d key
  idle : (∀ c ∈ (l.worker key).pending, c.keyText ≠ key.text) →
    ∀ c ∈ (l'.worker key).pending, c.keyText ≠ key.text
  place : ∀ p place, p.key = key → Tracks (l.worker key).incoming (l.before d key) p place →
    Tracks (l'.worker key).incoming (l'.before d key) p place

/-- Cache and instances of a key are the same. -/
structure SameSlot (d : Domain σ) (l l' : Ledger σ) (kept kept' : Nat → Json) (key : Key) :
    Prop where
  slot : l'.repo.get key = l.repo.get key
  owns : ∀ id i, l'.Owns d key id i ↔ l.Owns d key id i
  kept : ∀ id i, l.Owns d key id i → kept' id = kept id

theorem KeyKept.congr (h : l.KeyKept d kept key) (hsame : SameSlot d l l' kept kept' key)
    (hcarries : Carries d l l' key)
    (hkeys : ∀ id i, l.Owns d key id i → d.type.keyOf (kept id) = key) :
    l'.KeyKept d kept' key := by
  refine ⟨?_, ?_, ?_⟩
  · intro hget
    have hunknown := h.unknown (hsame.slot.symm.trans hget)
    refine ⟨?_, hcarries.idle hunknown.idle, ?_⟩
    · intro id i hi
      exact hunknown.unowned id i ((hsame.owns id i).mp hi)
    · rw [hcarries.eventual]
      exact hunknown.stored
  · intro hget
    have hmissing := h.missing (hsame.slot.symm.trans hget)
    constructor
    · rw [hcarries.eventual]
      exact hmissing.absent
    · intro id i hi
      exact hmissing.gone id i ((hsame.owns id i).mp hi)
  · intro id hget
    obtain ⟨i, halive⟩ := h.live id (hsame.slot.symm.trans hget)
    have hkept := hsame.kept id i halive.owns
    refine ⟨i, (hsame.owns id i).mpr halive.owns, ?_, ?_, ?_, ?_⟩
    · intro id' i' hi'
      exact halive.others id' i' ((hsame.owns id' i').mp hi')
    · rw [hcarries.eventual]
      exact halive.new
    · rw [hcarries.eventual]
      exact halive.gone
    · intro hlife
      have hbacked := halive.stored hlife
      rw [hkept]
      refine ⟨?_, hcarries.place _ _ (hkeys id i halive.owns) hbacked.place⟩
      rw [hcarries.eventual]
      exact hbacked.row

theorem Kept.keyOf_kept (h : l.Kept d kept) {id : Nat} {i : Instance}
    (hi : l.Owns d key id i) : d.type.keyOf (kept id) = key := by
  have hfits := h.instances id i hi.1 hi.2.1
  rw [← hi.2.1, hfits.kept_key, hi.2.2]

/-- The invariant after a step, if one key is dealt with and all others are left
alone. -/
theorem Kept.of_key (h : l.Kept d kept) {P : Key → Prop} (hkeeps : l'.repo.volatile = false)
    (hstaffed : 0 < l'.workers.length) (hgood : d.Good l'.table)
    (hlanes : ∀ n w, l'.workers[n]? = some w → l'.Lane d n w)
    (hinstances : ∀ (id : Nat) (i : Instance), l'.instances[id]? = some i →
      i.record.type = d.type → i.Fits d.inUse (kept' id))
    (hothers : ∀ key, d.inUse key → ¬ P key →
      SameSlot d l l' kept kept' key ∧ Carries d l l' key)
    (hkey : ∀ key, d.inUse key → P key → l'.KeyKept d kept' key) :
    l'.Kept d kept' := by
  refine ⟨hkeeps, hstaffed, hgood, hlanes, hinstances, ?_⟩
  intro key hused
  by_cases hP : P key
  · exact hkey key hused hP
  · obtain ⟨hsame, hcarries⟩ := hothers key hused hP
    exact (h.keys key hused).congr hsame hcarries fun id i hi => h.keyOf_kept hi

end Same

/-! ## Steps of the workers -/

section Workers

variable {d : Domain σ} {l : Ledger σ} {kept : Nat → Json} {key : Key} {n : Nat}
  {w w' : Worker} {t' : σ}

/-- The ledger with another worker and another table. -/
def setWorker (l : Ledger σ) (n : Nat) (w : Worker) (table : σ) : Ledger σ :=
  { l with workers := l.workers.set n w, table }

@[simp] theorem laneOf_setWorker (l : Ledger σ) (n : Nat) (w : Worker) (t : σ) (key : Key) :
    (l.setWorker n w t).laneOf key = l.laneOf key := by
  rw [laneOf, laneOf, setWorker, List.length_set]

theorem worker_of_lane (hw : l.workers[n]? = some w) (hn : l.laneOf key = n) :
    l.worker key = w := by
  rw [worker, hn, hw]
  rfl

theorem worker_setWorker_self (hw : l.workers[n]? = some w) (hn : l.laneOf key = n) :
    (l.setWorker n w' t').worker key = w' := by
  have hlt : n < l.workers.length := (List.getElem?_eq_some_iff.mp hw).1
  refine worker_of_lane ?_ ((laneOf_setWorker l n w' t' key).trans hn)
  simp [setWorker, hlt]

theorem worker_setWorker_of_ne (hn : l.laneOf key ≠ n) :
    (l.setWorker n w' t').worker key = l.worker key := by
  rw [worker, worker, laneOf_setWorker, setWorker]
  dsimp only
  rw [List.getElem?_set_ne (Ne.symm hn)]

/-- What is pending in a lane does not have a key of another lane. -/
theorem Lane.keyText_ne (h : l.Lane d n w) (hd : d.Distinct) (hused : d.inUse key)
    (hn : l.laneOf key ≠ n) {c : Commitment} (hc : c ∈ w.pending) : c.keyText ≠ key.text := by
  obtain ⟨s, rfl, hs, hlane⟩ := h.routed c hc
  intro htext
  have hkey : s.key = key := hd _ _ hs hused htext
  rw [hkey] at hlane
  exact hn hlane

theorem Lane.advance (h : l.Lane d n w) (hadvance : Worker.Advance d.rowsOf w l.table w' t')
    (hfit : Worker.Fit d.Good w' t') : (l.setWorker n w' t').Lane d n w' := by
  refine ⟨hfit, ?_⟩
  intro c hc
  obtain ⟨s, hs, hused, hlane⟩ := h.routed c (hadvance.subset c hc)
  exact ⟨s, hs, hused, by rw [laneOf_setWorker]; exact hlane⟩

theorem lanes_setWorker (h : l.Manned d) (hlane : (l.setWorker n w' t').Lane d n w')
    (m : Nat) (v : Worker) (hv : (l.setWorker n w' t').workers[m]? = some v) :
    (l.setWorker n w' t').Lane d m v := by
  by_cases hm : m = n
  · subst hm
    have hlt : m < l.workers.length := by
      have hlt' := (List.getElem?_eq_some_iff.mp hv).1
      simpa [setWorker] using hlt'
    have heq : w' = v := by simpa [setWorker, hlt] using hv
    exact heq ▸ hlane
  · have hold : l.workers[m]? = some v := by
      simpa [setWorker, List.getElem?_set_ne (Ne.symm hm)] using hv
    have hlane' := h.lanes m v hold
    refine ⟨⟨hlane'.fit.orderly, hlane'.fit.sound, hlane.fit.good⟩, ?_⟩
    intro c hc
    obtain ⟨s, hs, hused, hn⟩ := hlane'.routed c hc
    exact ⟨s, hs, hused, by rw [laneOf_setWorker]; exact hn⟩

theorem carries_advance (h : l.Manned d) (hd : d.Distinct)
    (hw : l.workers[n]? = some w) (hadvance : Worker.Advance d.rowsOf w l.table w' t')
    (hused : d.inUse key) : Carries d l (l.setWorker n w' t') key := by
  -- In the lane of the key the advance settles its row; in any other lane nothing has its key.
  by_cases hn : l.laneOf key = n
  · have hold := worker_of_lane hw hn
    have hnew : (l.setWorker n w' t').worker key = w' := worker_setWorker_self hw hn
    refine ⟨?_, ?_, ?_⟩
    · have hsettled := congrArg (SortedMap.get? · key.text) hadvance.settled
      rw [Rows.get?_applyAll_prepareAll, Rows.get?_applyAll_prepareAll] at hsettled
      rw [eventual, eventual, hold, hnew]
      exact hsettled
    · rw [hold, hnew]
      intro hidle c hc
      exact hidle c (hadvance.subset c hc)
    · intro p place _ htracks
      rw [hnew]
      rw [hold] at htracks
      rcases hadvance.incoming with hempty | ⟨hsame, hrows⟩
      · rw [hempty]
        exact .nil _ _ _
      · have hbefore : (l.setWorker n w' t').before d key = l.before d key := by
          have hget := congrArg (SortedMap.get? · key.text) hrows
          rw [Rows.get?_applyAll_prepareAll, Rows.get?_applyAll_prepareAll] at hget
          rw [before, before, hold, hnew]
          exact hget
        rw [hsame, hbefore]
        exact htracks
  · have hsame : (l.setWorker n w' t').worker key = l.worker key := worker_setWorker_of_ne hn
    have hrow : (d.rowsOf t').get? key.text = (d.rowsOf l.table).get? key.text :=
      hadvance.others key.text fun c hc => (h.lanes n w hw).keyText_ne hd hused hn hc
    refine ⟨?_, ?_, ?_⟩
    · rw [eventual, eventual, hsame]
      exact congrArg _ hrow
    · rw [hsame]
      exact fun hidle => hidle
    · intro p place _ htracks
      have hbefore : (l.setWorker n w' t').before d key = l.before d key := by
        rw [before, before, hsame]
        exact congrArg _ hrow
      rw [hsame, hbefore]
      exact htracks

end Workers

end Ledger

end WriteBehind
