import WriteBehind.Proofs.Journals
import WriteBehind.Proofs.TableWrites

/-!
# A worker with its table

A `Depot` is a worker and the storage with the table that it writes to.  Record
instances put their snapshots into the worker, each with the index that its previous put
returned, and the consumer hands its batches to the table, which may refuse them.  All
orders of steps are possible, and a crash may come between any two of them.  In every
state the table holds what the saved batches made of its rows, and nothing else
(`Depot.Balanced`).
-/

namespace WriteBehind

/-! ## Saved entries -/

namespace Worker

/-- The entries of the batches that were saved, in the order of the saves. -/
def savedEntries (w : Worker) : List Commitment :=
  (w.flushed.filter (·.saved)).flatMap (·.entries) ++
    match w.consumer with
    | .recycling b false _ => b.entries
    | _ => []

variable {w : Worker}

/-- Before a batch was handed to the table it adds nothing. -/
theorem savedEntries_of_ne (h : ∀ b final, w.consumer ≠ .recycling b false final) :
    w.savedEntries = (w.flushed.filter (·.saved)).flatMap (·.entries) := by
  rw [savedEntries]
  split
  next b final hc => exact absurd hc (h b final)
  · rw [List.append_nil]

/-- An empty batch goes without the table. -/
theorem savedEntries_of_take {b : Batch} {final : Bool} (h : w.consumer = take b final) :
    w.savedEntries = (w.flushed.filter (·.saved)).flatMap (·.entries) := by
  cases hb : b.isEmpty with
  | false => exact savedEntries_of_ne (by simp [h, take, hb])
  | true =>
      have hnil : b.entries = [] := by simpa [Batch.isEmpty] using hb
      simp [savedEntries, h, take, hb, hnil]

theorem savedEntries_poll (w : Worker) : w.poll.savedEntries = w.savedEntries := by
  rcases poll_cases w with hpoll | ⟨b, -, hpoll⟩ | ⟨b, hc, -, -, -, hpoll⟩ |
    ⟨b, hc, -, -, hpoll⟩ | ⟨hc, -, -, hpoll⟩
  · rw [hpoll]
  · rw [hpoll]
    rfl
  · rw [hpoll, savedEntries_of_take rfl, savedEntries_of_ne (by simp [hc])]
  · rw [hpoll, savedEntries_of_take rfl, savedEntries_of_ne (by simp [hc])]
  · rw [hpoll, savedEntries_of_ne (by simp), savedEntries_of_ne (by simp [hc])]

theorem savedEntries_saved {b : Batch} {final : Bool} (h : w.consumer = .saving b final)
    (ok : Bool) :
    (w.saved ok).savedEntries = w.savedEntries ++ if ok then b.entries else [] := by
  cases ok <;> simp [savedEntries, saved, h]

theorem savedEntries_recycle (w : Worker) : w.recycle.savedEntries = w.savedEntries := by
  rcases recycle_cases w with hsame | ⟨b, aborted, final, hc, hrecycle⟩
  · rw [hsame]
  · rw [hrecycle]
    cases final <;> cases aborted <;> simp [savedEntries, hc]

end Worker

/-! ## Depots -/

/-- A worker with the storage that it writes to. -/
structure Depot where
  session : Session := {}
  storage : Storage

/-- An atomic step around a worker and its table. -/
inductive DepotStep where
  | start
  /-- The record instance of the next call puts its snapshot. -/
  | put (c : Snapshot)
  | retry (position : Nat)
  | sync
  | expire
  | poll
  /-- The table is handed the batch of the consumer.  While the worker runs every
  refused attempt is followed by another one; if it was closed, the `k`-th one is
  followed by another one if `answers k` holds. -/
  | save (answers : Nat → Bool)
  | recycle
  | close

/-- The index that the latest put of an instance returned.  Calls are made by the
instances that own them. -/
def Session.placeOf (owner : Nat → Nat) (s : Session) (o : Nat) : Option Nat :=
  (s.placed.filter (owner ·.call == o)).getLast?.map (·.entry)

namespace Depot

/-- The table is handed the batch of the consumer. -/
def save (table : TableRef) (answers : Nat → Bool) (d : Depot) : Depot :=
  match d.session.worker.consumer with
  | .saving batch _ =>
    let (ok, storage) := Storage.saveWhile (fun k => d.session.worker.running || answers k)
      table batch.entries d.storage
    ⟨d.session.step (.outcome ok), storage⟩
  | _ => d

/-- One atomic step. -/
def step (table : TableRef) (owner : Nat → Nat) (d : Depot) : DepotStep → Depot
  | .start => { d with session := d.session.step .start }
  | .put c =>
    let index := d.session.placeOf owner (owner d.session.calls)
    { d with session := d.session.step (.put (.snapshot c) index) }
  | .retry position => { d with session := d.session.step (.retry position) }
  | .sync => { d with session := d.session.step .sync }
  | .expire => { d with session := d.session.step .expire }
  | .poll => { d with session := d.session.step .poll }
  | .save answers => d.save table answers
  | .recycle => { d with session := d.session.step .recycle }
  | .close => { d with session := d.session.step .close }

/-- A new worker and a storage after some steps. -/
def run (table : TableRef) (owner : Nat → Nat) (storage : Storage) (steps : List DepotStep) :
    Depot :=
  steps.foldl (step table owner) { storage }

end Depot

/-! ## What was accepted -/

/-- A placed snapshot and the instance that took it. -/
def Placed.submission? (owner : Nat → Nat) (p : Placed) : Option Submission :=
  match p.commitment with
  | .snapshot c => some ⟨owner p.call, c⟩
  | .foreign _ => none

namespace Session

/-- The snapshots that were accepted, in the order they were accepted. -/
def submissions (owner : Nat → Nat) (s : Session) : List Submission :=
  s.placed.filterMap (Placed.submission? owner)

/-- Everything that a worker was given is a snapshot. -/
structure Stated (s : Session) : Prop where
  placed : ∀ p ∈ s.placed, ∃ c, p.commitment = .snapshot c
  blocked : ∀ e ∈ s.blocked, ∃ c, e.2 = .snapshot c

variable {s : Session}

theorem mem_submissions {p : Placed} (hp : p ∈ s.placed) {c : Snapshot}
    (hc : p.commitment = .snapshot c) (owner : Nat → Nat) :
    ⟨owner p.call, c⟩ ∈ s.submissions owner := by
  rw [submissions, List.mem_filterMap]
  exact ⟨p, hp, by simp [Placed.submission?, hc]⟩

theorem Stated.commitments (h : s.Stated) (owner : Nat → Nat) :
    (s.submissions owner).map Submission.commitment = s.placed.map (·.commitment) := by
  have hall : ∀ ps : List Placed, (∀ p ∈ ps, ∃ c, p.commitment = .snapshot c) →
      (ps.filterMap (Placed.submission? owner)).map Submission.commitment =
        ps.map (·.commitment) := by
    intro ps hps
    induction ps with
    | nil => rfl
    | cons p ps ih =>
        obtain ⟨c, hc⟩ := hps p List.mem_cons_self
        have hp : Placed.submission? owner p = some ⟨owner p.call, c⟩ := by
          simp [Placed.submission?, hc]
        rw [List.filterMap_cons_some hp, List.map_cons, List.map_cons,
          ih fun q hq => hps q (List.mem_cons_of_mem p hq), hc]
        rfl
  exact hall s.placed h.placed

theorem Stated.attempt (h : s.Stated) (call : Nat) (c : Snapshot) (index : Option Nat) :
    (s.attempt call (.snapshot c) index).Stated := by
  cases hput : s.worker.put (.snapshot c) index with
  | placed i w =>
      rw [Session.attempt, hput]
      refine ⟨?_, h.blocked⟩
      intro p hp
      rcases List.mem_append.mp hp with hp | hp
      · exact h.placed p hp
      · rw [List.mem_singleton.mp hp]
        exact ⟨c, rfl⟩
  | full =>
      rw [Session.attempt, hput]
      refine ⟨h.placed, ?_⟩
      intro e he
      rcases List.mem_append.mp he with he | he
      · exact h.blocked e he
      · rw [List.mem_singleton.mp he]
        exact ⟨c, rfl⟩
  | refused =>
      rw [Session.attempt, hput]
      exact ⟨h.placed, h.blocked⟩

theorem Places.mem {t : Session} {call : Nat} {c : Commitment} {index : Option Nat}
    {b b' : Batch} {i : Nat} (h : Places s t call c index b b' i) :
    ⟨call, c, s.worker.opened, i⟩ ∈ t.placed := by
  rw [h.placed]
  exact List.mem_append_right _ (List.mem_singleton.mpr rfl)

/-- What is placed is a snapshot. -/
theorem Places.exists_snapshot {t : Session} {call : Nat} {c : Commitment}
    {index : Option Nat} {b b' : Batch} {i : Nat} (h : Places s t call c index b b' i)
    (hstated : t.Stated) : ∃ snapshot, c = .snapshot snapshot :=
  hstated.placed _ h.mem

/-- Only puts bring something new. -/
theorem Stated.step (h : s.Stated) {a : WorkerStep}
    (ha : ∀ c index, a = .put c index → ∃ snapshot, c = .snapshot snapshot) :
    (s.step a).Stated := by
  cases a with
  | put c index =>
      obtain ⟨snapshot, rfl⟩ := ha c index rfl
      have hcalls : ({ s with calls := s.calls + 1 } : Session).Stated := ⟨h.placed, h.blocked⟩
      exact hcalls.attempt s.calls snapshot index
  | retry position =>
      rw [Session.step]
      split
      next call c hblocked =>
        obtain ⟨snapshot, hsnapshot⟩ := h.blocked (call, c) (List.mem_of_getElem? hblocked)
        obtain rfl : c = .snapshot snapshot := hsnapshot
        have herase : ({ s with blocked := s.blocked.eraseIdx position } : Session).Stated :=
          ⟨h.placed, fun e he => h.blocked e (List.mem_of_mem_eraseIdx he)⟩
        exact herase.attempt call snapshot none
      · exact h
  | start | sync | outcome ok =>
      rw [Session.step]
      split
      · exact ⟨h.placed, h.blocked⟩
      · exact h
  | expire | poll | recycle | close => exact ⟨h.placed, h.blocked⟩

theorem savedEntries_attempt (s : Session) (call : Nat) (c : Commitment) (index : Option Nat) :
    (s.attempt call c index).worker.savedEntries = s.worker.savedEntries := by
  rcases worker_attempt s call c index with hsame | ⟨i, hput⟩
  · rw [hsame]
  · obtain ⟨b, b', -, -, heq⟩ := Worker.put_eq_placed hput
    rw [heq]
    rfl

/-- Only the table adds to what was saved. -/
theorem savedEntries_step (s : Session) {a : WorkerStep} (ha : ∀ ok, a ≠ .outcome ok) :
    (s.step a).worker.savedEntries = s.worker.savedEntries := by
  cases a with
  | start =>
      rw [step]
      split
      next hc =>
        have hstart : s.worker.start.consumer = .waiting := by simp [Worker.start, hc]
        rw [Worker.savedEntries_of_ne (by simp [hstart]), Worker.savedEntries_of_ne (by simp [hc])]
        rfl
      · rfl
  | put c index => exact savedEntries_attempt { s with calls := s.calls + 1 } _ c index
  | retry position =>
      rw [step]
      split
      next call c hblocked =>
        exact savedEntries_attempt { s with blocked := s.blocked.eraseIdx position } call c none
      · rfl
  | sync =>
      rw [step]
      split
      next waiter w hsync =>
        obtain ⟨b, -, -, rfl⟩ := Worker.sync_eq_some hsync
        rfl
      · rfl
  | expire => rfl
  | poll => exact Worker.savedEntries_poll s.worker
  | outcome ok => exact absurd rfl (ha ok)
  | recycle => exact Worker.savedEntries_recycle s.worker
  | close =>
      rw [step]
      rcases Worker.close_cases s.worker with hclose | ⟨hc, hclose⟩
      · rw [hclose]
        rfl
      · rw [hclose, Worker.savedEntries_of_ne (by simp), Worker.savedEntries_of_ne (by simp [hc])]

/-- The entries of the batches are sound if what was accepted is. -/
theorem sound_step (hw : s.worker.Orderly) (h : ∀ l ∈ s.worker.lots, ∀ c ∈ l.entries, c.Sound)
    {a : WorkerStep} (hstated : (s.step a).Stated) {owner : Nat → Nat}
    (hsound : ∀ x ∈ (s.step a).submissions owner, x.snapshot.Sound) :
    ∀ l ∈ (s.step a).worker.lots, ∀ c ∈ l.entries, c.Sound := by
  rcases step_cases hw a with hrests | hrotates | ⟨call, c, index, b, b', i, -, hplaces⟩
  · rw [hrests.lots]
    exact h
  · rw [hrotates.lots]
    intro l hl c hc
    rcases List.mem_append.mp hl with hl | hl
    · exact h l hl c hc
    · rw [List.mem_singleton.mp hl] at hc
      cases hc
  · obtain ⟨snapshot, rfl⟩ := hplaces.exists_snapshot hstated
    have hc : snapshot.Sound := hsound _ (mem_submissions hplaces.mem rfl owner)
    rw [Worker.lots_of_receiving hplaces.before] at h
    rw [Worker.lots_of_receiving hplaces.after, hplaces.closed]
    intro l hl
    rcases List.mem_append.mp hl with hl | hl
    · exact h l (List.mem_append_left _ hl)
    · rw [List.mem_singleton.mp hl]
      exact Batch.sound_put hplaces.put hc (h b.lot (List.mem_append_right _ (by simp)))

end Session

/-! ## What the table holds -/

namespace Depot

/-- The worker is in order, and the table holds what the saved batches made of the rows
that it had at first. -/
structure Balanced (table : TableRef) (rows : Rows) (d : Depot) : Prop where
  faithful : d.session.Faithful
  logs : d.session.Logs
  tidy : d.session.worker.Tidy
  dependable : d.session.worker.Dependable
  stated : d.session.Stated
  sound : ∀ l ∈ d.session.worker.lots, ∀ c ∈ l.entries, c.Sound
  present : Storage.Present table d.storage
  stored : d.storage.rows table = rows.applyAll (prepareAll d.session.worker.savedEntries)

theorem balanced_empty {table : TableRef} {storage : Storage}
    (h : Storage.Present table storage) :
    Balanced table (storage.rows table) { storage } where
  faithful := Session.faithful_run []
  logs := (Session.logs_run []).1
  tidy := Worker.tidy_empty
  dependable := Worker.dependable_empty
  stated := by
    constructor
    · intro p hp
      cases hp
    · intro e he
      cases he
  sound := by
    intro l hl c hc
    obtain rfl : l = ({} : Batch).lot := by
      simpa [Worker.lots, Worker.closedLots, Worker.inFlight?] using hl
    cases hc
  present := h
  stored := rfl

variable {table : TableRef} {owner : Nat → Nat} {rows : Rows} {d : Depot}

/-- Steps of the worker that hand nothing to the table. -/
theorem Balanced.move (h : Balanced table rows d) {a : WorkerStep}
    (hallows : d.session.Allows a) (hstated : (d.session.step a).Stated)
    (hsound : ∀ x ∈ (d.session.step a).submissions owner, x.snapshot.Sound)
    (hsaved : (d.session.step a).worker.savedEntries = d.session.worker.savedEntries) :
    Balanced table rows { d with session := d.session.step a } where
  faithful := h.faithful.step a
  logs := h.logs.step h.faithful.orderly a
  tidy := Session.tidy_step h.tidy h.faithful.orderly a
  dependable := Session.dependable_step h.dependable h.faithful hallows
  stated := hstated
  sound := Session.sound_step h.faithful.orderly h.sound hstated hsound
  present := h.present
  stored := by rw [hsaved]; exact h.stored

/-- The table takes a batch, which is saved then, or it leaves its rows alone, which it
does to a closed worker only. -/
theorem Balanced.save (h : Balanced table rows d) (answers : Nat → Bool)
    (hsound : ∀ x ∈ (d.save table answers).session.submissions owner, x.snapshot.Sound) :
    Balanced table rows (d.save table answers) := by
  rw [Depot.save] at hsound ⊢
  split
  next batch final hsaving =>
    have hmem : batch.lot ∈ d.session.worker.lots := by
      simp [Worker.lots, Worker.closedLots, Worker.inFlight?, hsaving]
    have hplain : ∀ w ∈ prepareAll batch.entries, Document.Plain w.data :=
      fun w hw => plain_prepareAll (h.sound batch.lot hmem) hw
    obtain ⟨hpresent, hcases⟩ := Storage.saveWhile_cases hplain
      (fun k => d.session.worker.running || answers k) h.present
    simp only [hsaving] at hsound
    generalize Storage.saveWhile _ table batch.entries d.storage = result
      at hsound hpresent hcases ⊢
    obtain ⟨ok, storage⟩ := result
    dsimp only at hsound hcases ⊢
    have hsession : d.session.step (.outcome ok) =
        { d.session with
          worker := d.session.worker.saved ok
          handed := d.session.handed ++ [(batch.entries, d.session.worker.flushed.length)] } := by
      rw [Session.step, hsaving]
    have hentries := Worker.savedEntries_saved hsaving ok
    have hallows : d.session.Allows (.outcome ok) := by
      rintro rfl
      rcases hcases with ⟨hok, -⟩ | ⟨-, -, k, hk⟩
      · cases hok
      · simp only [Bool.or_eq_false_iff] at hk
        exact hk.1
    have hstated : (d.session.step (.outcome ok)).Stated :=
      h.stated.step (by intro c index ha; cases ha)
    refine ⟨h.faithful.step (.outcome ok), h.logs.step h.faithful.orderly (.outcome ok),
      Session.tidy_step h.tidy h.faithful.orderly (.outcome ok),
      Session.dependable_step h.dependable h.faithful hallows, hstated,
      Session.sound_step h.faithful.orderly h.sound hstated hsound, hpresent, ?_⟩
    rw [hsession, hentries, prepareAll_append, Rows.applyAll_append, ← h.stored]
    rcases hcases with ⟨rfl, hrows⟩ | ⟨rfl, hrows, -⟩
    · exact hrows
    · exact hrows
  · exact h

/-- Every step keeps the table balanced, as long as what is accepted is sound. -/
theorem Balanced.step (h : Balanced table rows d) (a : DepotStep)
    (hsound : ∀ x ∈ (d.step table owner a).session.submissions owner, x.snapshot.Sound) :
    Balanced table rows (d.step table owner a) := by
  have hmove : ∀ b : WorkerStep, (∀ ok, b ≠ .outcome ok) →
      (∀ c index, b = .put c index → ∃ snapshot, c = .snapshot snapshot) →
      (∀ x ∈ (d.session.step b).submissions owner, x.snapshot.Sound) →
      Balanced table rows { d with session := d.session.step b } := by
    intro b hb hput hsound
    have hallows : d.session.Allows b := by
      cases b with
      | outcome ok => exact absurd rfl (hb ok)
      | start | put c index | retry position | sync | expire | poll | recycle | close => trivial
    exact h.move hallows (h.stated.step hput) hsound (Session.savedEntries_step _ hb)
  cases a with
  | save answers => exact h.save answers hsound
  | put c =>
      apply hmove _ (by simp) _ hsound
      intro c' index ha
      exact ⟨c, (WorkerStep.put.inj ha).1.symm⟩
  | start | retry position | sync | expire | poll | recycle | close =>
      exact hmove _ (by simp) (by simp) hsound

end Depot

end WriteBehind
