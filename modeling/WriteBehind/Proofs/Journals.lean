import WriteBehind.Proofs.DurableSyncs

/-!
# What the journals of a worker hold

A batch merges what it is given, its journal file keeps every accepted commitment as it
came.  A `Lot` is what became of one batch seen from both sides: its entries and its log.
A step of a worker leaves the lots alone, opens an empty one behind them, or places one
commitment in the receiving one (`Session.step_cases`), so the logs of all lots in a row
are what was placed, in that order and each of it once (`Session.logs_run`).  A journal
file is destroyed when its batch is emptied after it was saved, and not before, so the
files that are left hold the logs of the batches that were not saved or not emptied yet
(`Worker.unreleased_eq`).
-/

namespace WriteBehind

/-! ## Lots -/

/-- What a batch came to: its entries, and the commitments as they were accepted. -/
structure Lot where
  entries : List Commitment
  logged : List Commitment

/-- The lot of a batch that was given nothing. -/
def Lot.empty : Lot := ⟨[], []⟩

/-- The lot of a batch. -/
def Batch.lot (b : Batch) : Lot := ⟨b.entries, b.journal.logged.reverse⟩

/-- The lot of a batch that its worker is done with. -/
def FlushedBatch.lot (f : FlushedBatch) : Lot := ⟨f.entries, f.journal.logged.reverse⟩

/-- The logs of some lots, one after the other. -/
def logsOf (lots : List Lot) : List Commitment := lots.flatMap (·.logged)

@[simp] theorem logsOf_append (ls ms : List Lot) : logsOf (ls ++ ms) = logsOf ls ++ logsOf ms :=
  List.flatMap_append

@[simp] theorem logsOf_singleton (l : Lot) : logsOf [l] = l.logged :=
  List.flatMap_singleton _ _

/-- A put logs its commitment, whatever it does to the entries. -/
theorem Batch.logged_put {b b' : Batch} {c : Commitment} {index : Option Nat} {i : Nat}
    (h : b.put c index = .ok (i, b')) :
    b'.lot.logged = b.lot.logged ++ [c] ∧ b'.journal.destroyed = b.journal.destroyed := by
  rcases put_eq_ok h with ⟨-, -, rfl⟩ | ⟨-, entry, merged, -, -, rfl⟩
  · exact ⟨List.reverse_cons, rfl⟩
  · exact ⟨List.reverse_cons, rfl⟩

namespace Worker

/-- The lots that receive nothing any more, in the order their batches were opened. -/
def closedLots (w : Worker) : List Lot :=
  w.flushed.map (·.lot) ++ w.inFlight?.toList.map (·.lot)

/-- All lots, in the order their batches were opened. -/
def lots (w : Worker) : List Lot := w.closedLots ++ w.receiving.toList.map (·.lot)

theorem lots_of_receiving {w : Worker} {b : Batch} (h : w.receiving = some b) :
    w.lots = w.closedLots ++ [b.lot] := by
  simp [lots, h]

theorem lots_of_receiving_none {w : Worker} (h : w.receiving = none) :
    w.lots = w.closedLots := by
  simp [lots, h]

@[simp] theorem lot_due (w : Worker) (b : Batch) : (w.due b).lot = b.lot := by
  rw [due]
  split
  · rfl
  · rfl

theorem closedLots_of_waiting {w : Worker} (h : w.consumer = .waiting) :
    w.closedLots = w.flushed.map (·.lot) := by
  simp [closedLots, inFlight?, h]

theorem inFlight?_of_take {w : Worker} {b : Batch} {final : Bool}
    (h : w.consumer = take b final) : w.inFlight? = some b := by
  cases hb : b.isEmpty with
  | true => simp [inFlight?, h, take, hb]
  | false => simp [inFlight?, h, take, hb]

theorem closedLots_of_take {w : Worker} {b : Batch} {final : Bool}
    (h : w.consumer = take b final) : w.closedLots = w.flushed.map (·.lot) ++ [b.lot] := by
  simp [closedLots, inFlight?_of_take h]

/-- A fresh batch logs to a fresh file. -/
theorem lot_freshBatch {w : Worker} (hw : ∀ b ∈ w.spare, b.entries = []) :
    w.freshBatch.1.lot = .empty ∧ w.freshBatch.1.journal.destroyed = 0 := by
  have hentries := (freshBatch_spec hw).1
  have hjournal : w.freshBatch.1.journal = {} := by
    cases hlast : w.spare.getLast? with
    | none => simp [freshBatch, hlast]
    | some b => simp [freshBatch, hlast, Batch.serve]
  rw [Batch.lot, hentries, hjournal]
  exact ⟨rfl, rfl⟩

/-- A poll keeps the lots, or it opens an empty one behind them. -/
theorem lots_poll {w : Worker} (hw : w.Orderly) :
    (w.poll.lots = w.lots ∧
      ∀ b', w.poll.receiving = some b' → ∃ b, w.receiving = some b ∧ b'.lot = b.lot) ∨
    (w.poll.lots = w.lots ++ [.empty] ∧ ∃ b', w.poll.receiving = some b' ∧ b'.lot = .empty) := by
  rcases poll_cases w with hpoll | ⟨b, hb, hpoll⟩ | ⟨b, hc, -, hb, -, hpoll⟩ |
    ⟨b, hc, -, hb, hpoll⟩ | ⟨hc, -, hb, hpoll⟩
  · left
    rw [hpoll]
    exact ⟨rfl, fun b' hb' => ⟨b', hb', rfl⟩⟩
  · left
    rw [hpoll]
    constructor
    · rw [lots_of_receiving rfl, lots_of_receiving hb, lot_due]
      rfl
    · intro b' hb'
      obtain rfl : w.due b = b' := Option.some.inj hb'
      exact ⟨b, hb, lot_due w b⟩
  · right
    have hfresh := (lot_freshBatch hw.spare_empty).1
    rw [hpoll]
    constructor
    · rw [lots_of_receiving hb, lots_of_receiving rfl, closedLots_of_waiting hc,
        closedLots_of_take rfl, hfresh, ← lot_due w b]
      rfl
    · exact ⟨_, rfl, hfresh⟩
  · left
    rw [hpoll]
    constructor
    · rw [lots_of_receiving hb, lots_of_receiving_none rfl, closedLots_of_waiting hc,
        closedLots_of_take rfl]
      rfl
    · intro b' hb'
      cases hb'
  · left
    rw [hpoll]
    constructor
    · rw [lots_of_receiving_none hb, lots_of_receiving_none rfl, closedLots_of_waiting hc]
      simp [closedLots, inFlight?]
    · intro b' hb'
      cases hb'

theorem closedLots_saved {w : Worker} {b : Batch} {final : Bool}
    (h : w.consumer = .saving b final) (ok : Bool) :
    (w.saved ok).closedLots = w.closedLots ∧ (w.saved ok).receiving = w.receiving := by
  simp [closedLots, inFlight?, saved, h]

theorem closedLots_recycle (w : Worker) :
    w.recycle.closedLots = w.closedLots ∧ w.recycle.receiving = w.receiving := by
  rcases recycle_cases w with hsame | ⟨b, aborted, final, hc, hrecycle⟩
  · rw [hsame]
    exact ⟨rfl, rfl⟩
  · rw [hrecycle]
    have hlot : FlushedBatch.lot ⟨b.entries, !aborted, (b.reset aborted).journal⟩ = b.lot := by
      cases aborted <;> rfl
    have hrest : (if final then Consumer.ended else if aborted then .closing else .waiting) =
        .ended ∨ (if final then Consumer.ended else if aborted then .closing else .waiting) =
        .closing ∨ (if final then Consumer.ended else if aborted then .closing else .waiting) =
        .waiting := by
      cases final <;> cases aborted <;> simp
    refine ⟨?_, rfl⟩
    rcases hrest with hrest | hrest | hrest
    · simp [closedLots, inFlight?, hc, hrest, hlot]
    · simp [closedLots, inFlight?, hc, hrest, hlot]
    · simp [closedLots, inFlight?, hc, hrest, hlot]

theorem closedLots_setWaiting {w : Worker} (hc : w.consumer = .resting ∨ w.consumer = .closing)
    (running : Bool) :
    ({ w with running, consumer := .waiting } : Worker).closedLots = w.closedLots := by
  rcases hc with hc | hc
  · simp [closedLots, inFlight?, hc]
  · simp [closedLots, inFlight?, hc]

end Worker

/-! ## Steps of a session -/

namespace Session

/-- A step that places nothing and opens no batch. -/
structure Rests (s t : Session) : Prop where
  placed : t.placed = s.placed
  lots : t.worker.lots = s.worker.lots
  receiving : ∀ b', t.worker.receiving = some b' →
    ∃ b, s.worker.receiving = some b ∧ b'.lot = b.lot

/-- A step that opens an empty batch. -/
structure Rotates (s t : Session) : Prop where
  placed : t.placed = s.placed
  lots : t.worker.lots = s.worker.lots ++ [.empty]
  receiving : ∃ b', t.worker.receiving = some b' ∧ b'.lot = .empty

/-- A step that places the commitment of a call in the receiving batch. -/
structure Places (s t : Session) (call : Nat) (c : Commitment) (index : Option Nat)
    (b b' : Batch) (i : Nat) : Prop where
  before : s.worker.receiving = some b
  put : b.put c index = .ok (i, b')
  after : t.worker.receiving = some b'
  closed : t.worker.closedLots = s.worker.closedLots
  placed : t.placed = s.placed ++ [⟨call, c, s.worker.opened, i⟩]

theorem Rests.of_closed {s t : Session} (hplaced : t.placed = s.placed)
    (hclosed : t.worker.closedLots = s.worker.closedLots)
    (hreceiving : t.worker.receiving = s.worker.receiving) : Rests s t where
  placed := hplaced
  lots := by rw [Worker.lots, Worker.lots, hclosed, hreceiving]
  receiving b' hb' := ⟨b', hreceiving ▸ hb', rfl⟩

theorem attempt_cases (s : Session) (call : Nat) (c : Commitment) (index : Option Nat) :
    Rests s (s.attempt call c index) ∨
      ∃ b b' i, Places s (s.attempt call c index) call c index b b' i := by
  cases hput : s.worker.put c index with
  | placed i w =>
      right
      obtain ⟨b, b', hb, hok, rfl⟩ := Worker.put_eq_placed hput
      refine ⟨b, b', i, hb, hok, ?_, ?_, ?_⟩ <;> simp only [attempt, hput]
      rfl
  | full =>
      left
      rw [attempt, hput]
      exact .of_closed rfl rfl rfl
  | refused =>
      left
      rw [attempt, hput]
      exact .of_closed rfl rfl rfl

/-- The call that a step makes, if it makes one. -/
def brought (s : Session) : WorkerStep → Option (Nat × Commitment × Option Nat)
  | .put c index => some (s.calls, c, index)
  | .retry position => s.blocked[position]?.map fun (call, c) => (call, c, none)
  | _ => none

/-- A step rests, opens a batch, or places the commitment of the call that it makes. -/
theorem step_cases {s : Session} (h : s.worker.Orderly) (a : WorkerStep) :
    Rests s (s.step a) ∨ Rotates s (s.step a) ∨
      ∃ call c index b b' i, s.brought a = some (call, c, index) ∧
        Places s (s.step a) call c index b b' i := by
  cases a with
  | start =>
      left
      rw [step]
      split
      next hc =>
        have hstart : s.worker.start = { s.worker with running := true, consumer := .waiting } := by
          simp [Worker.start, hc]
        rw [hstart]
        exact .of_closed rfl (Worker.closedLots_setWaiting (.inl hc) true) rfl
      · exact .of_closed rfl rfl rfl
  | put c index =>
      rcases attempt_cases { s with calls := s.calls + 1 } s.calls c index with
        hrests | ⟨b, b', i, hplaces⟩
      · exact .inl ⟨hrests.placed, hrests.lots, hrests.receiving⟩
      · exact .inr (.inr ⟨s.calls, c, index, b, b', i, rfl, hplaces.before, hplaces.put,
          hplaces.after, hplaces.closed, hplaces.placed⟩)
  | retry position =>
      cases hblocked : s.blocked[position]? with
      | none =>
          left
          simp only [step, hblocked]
          exact .of_closed rfl rfl rfl
      | some entry =>
          obtain ⟨call, c⟩ := entry
          simp only [step, hblocked]
          rcases attempt_cases { s with blocked := s.blocked.eraseIdx position } call c none with
            hrests | ⟨b, b', i, hplaces⟩
          · exact .inl ⟨hrests.placed, hrests.lots, hrests.receiving⟩
          · right
            right
            exact ⟨call, c, none, b, b', i, by simp [brought, hblocked], hplaces.before,
              hplaces.put, hplaces.after, hplaces.closed, hplaces.placed⟩
  | sync =>
      left
      rw [step]
      split
      next waiter w hsync =>
        obtain ⟨b, hb, -, rfl⟩ := Worker.sync_eq_some hsync
        refine ⟨rfl, ?_, ?_⟩
        · rw [Worker.lots_of_receiving rfl, Worker.lots_of_receiving hb]
          rfl
        · intro b' hb'
          obtain rfl : b.waiter.2 = b' := Option.some.inj hb'
          exact ⟨b, hb, rfl⟩
      · exact .of_closed rfl rfl rfl
  | expire => exact .inl (.of_closed rfl rfl rfl)
  | poll =>
      rcases Worker.lots_poll h with ⟨hlots, hreceiving⟩ | ⟨hlots, hreceiving⟩
      · exact .inl ⟨rfl, hlots, hreceiving⟩
      · exact .inr (.inl ⟨rfl, hlots, hreceiving⟩)
  | outcome ok =>
      left
      rw [step]
      split
      next batch final hsaving =>
        obtain ⟨hclosed, hreceiving⟩ := Worker.closedLots_saved hsaving ok
        exact .of_closed rfl hclosed hreceiving
      · exact .of_closed rfl rfl rfl
  | recycle =>
      obtain ⟨hclosed, hreceiving⟩ := Worker.closedLots_recycle s.worker
      exact .inl (.of_closed rfl hclosed hreceiving)
  | close =>
      left
      rw [step]
      rcases Worker.close_cases s.worker with hclose | ⟨hc, hclose⟩
      · rw [hclose]
        exact .of_closed rfl rfl rfl
      · rw [hclose]
        exact .of_closed rfl (Worker.closedLots_setWaiting (.inr hc) false) rfl

/-- The logs grow by what is placed. -/
theorem Places.logs {s t : Session} {call : Nat} {c : Commitment} {index : Option Nat}
    {b b' : Batch} {i : Nat} (h : Places s t call c index b b' i) :
    logsOf t.worker.lots = logsOf s.worker.lots ++ [c] := by
  rw [Worker.lots_of_receiving h.after, Worker.lots_of_receiving h.before, h.closed,
    logsOf_append, logsOf_append, logsOf_singleton, logsOf_singleton, (Batch.logged_put h.put).1,
    List.append_assoc]

/-- Everything that was placed is logged, once each and in the order it was placed. -/
def Logs (s : Session) : Prop := logsOf s.worker.lots = s.placed.map (·.commitment)

theorem Logs.step {s : Session} (h : s.Logs) (hw : s.worker.Orderly) (a : WorkerStep) :
    (s.step a).Logs := by
  rcases step_cases hw a with hrests | hrotates | ⟨call, c, index, b, b', i, -, hplaces⟩
  · rw [Logs, hrests.lots, hrests.placed]
    exact h
  · rw [Logs, hrotates.lots, hrotates.placed, logsOf_append, h]
    simp [Lot.empty]
  · rw [Logs, hplaces.logs, hplaces.placed, h, List.map_append]
    rfl

end Session

/-! ## Files that are left -/

namespace Worker

/-- The commitments in the journal files that were not destroyed, in the order they were
logged. -/
def unreleased (w : Worker) : List Commitment :=
  (w.journals.filter (·.destroyed == 0)).flatMap (·.logged.reverse)

/-- A journal file is destroyed once, when its batch is emptied after it was saved. -/
structure Tidy (w : Worker) : Prop where
  flushed : ∀ f ∈ w.flushed, f.journal.destroyed = if f.saved then 1 else 0
  inFlight : ∀ b, w.inFlight? = some b → b.journal.destroyed = 0
  receiving : ∀ b, w.receiving = some b → b.journal.destroyed = 0

theorem tidy_empty : ({} : Worker).Tidy where
  flushed := by simp
  inFlight := by intro b h; cases h
  receiving := by
    intro b h
    obtain rfl : {} = b := Option.some.inj h
    rfl

variable {w w' : Worker}

theorem Tidy.congr (h : w.Tidy) (hflushed : w'.flushed = w.flushed)
    (hinFlight : w'.inFlight? = w.inFlight?)
    (hreceiving : ∀ b', w'.receiving = some b' →
      ∃ b, w.receiving = some b ∧ b'.journal.destroyed = b.journal.destroyed) : w'.Tidy where
  flushed := by rw [hflushed]; exact h.flushed
  inFlight := by rw [hinFlight]; exact h.inFlight
  receiving := by
    intro b' hb'
    obtain ⟨b, hb, hsame⟩ := hreceiving b' hb'
    rw [hsame]
    exact h.receiving b hb

theorem Tidy.poll (h : w.Tidy) (hw : w.Orderly) : w.poll.Tidy := by
  have hdue : ∀ b, (w.due b).journal.destroyed = b.journal.destroyed := by
    intro b
    rw [due]
    split
    · rfl
    · rfl
  rcases poll_cases w with hpoll | ⟨b, hb, hpoll⟩ | ⟨b, hc, -, hb, -, hpoll⟩ |
    ⟨b, hc, -, hb, hpoll⟩ | ⟨hc, -, hb, hpoll⟩
  · rw [hpoll]
    exact h
  · rw [hpoll]
    refine h.congr rfl rfl fun b' hb' => ?_
    obtain rfl : w.due b = b' := Option.some.inj hb'
    exact ⟨b, hb, hdue b⟩
  · rw [hpoll]
    refine ⟨h.flushed, ?_, ?_⟩
    · intro c hin
      rw [inFlight?_of_take rfl, Option.some.injEq] at hin
      rw [← hin]
      exact (hdue b).trans (h.receiving b hb)
    · intro c hin
      obtain rfl : w.freshBatch.1 = c := Option.some.inj hin
      exact (lot_freshBatch hw.spare_empty).2
  · rw [hpoll]
    refine ⟨h.flushed, ?_, ?_⟩
    · intro c hin
      rw [inFlight?_of_take rfl, Option.some.injEq] at hin
      rw [← hin]
      exact h.receiving b hb
    · intro c hin
      cases hin
  · rw [hpoll]
    refine ⟨h.flushed, ?_, ?_⟩
    · intro c hin
      cases hin
    · intro c hin
      cases hin

theorem Tidy.recycle (h : w.Tidy) : w.recycle.Tidy := by
  rcases recycle_cases w with hsame | ⟨b, aborted, final, hc, hrecycle⟩
  · rw [hsame]
    exact h
  · rw [hrecycle]
    have hb : b.journal.destroyed = 0 := h.inFlight b (by simp [inFlight?, hc])
    refine ⟨?_, ?_, h.receiving⟩
    · intro f hf
      rcases List.mem_append.mp hf with hf | hf
      · exact h.flushed f hf
      · rw [List.mem_singleton.mp hf]
        cases aborted <;> simp [Batch.reset, hb]
    · intro c hin
      cases final <;> cases aborted <;> cases hin

/-- The files that are left are those of the batches that were not saved, and those of
the batches that are still in use. -/
theorem Tidy.unreleased_eq (h : w.Tidy) :
    w.unreleased = logsOf ((w.flushed.filter (!·.saved)).map (·.lot) ++
      (w.inFlight?.toList.map (·.lot) ++ w.receiving.toList.map (·.lot))) := by
  have hflushed : ∀ f ∈ w.flushed, (f.journal.destroyed == 0) = !f.saved := by
    intro f hf
    rw [h.flushed f hf]
    cases f.saved <;> rfl
  have hopen : ∀ b : Option Batch, (∀ c, b = some c → c.journal.destroyed = 0) →
      ((b.toList.map (·.journal)).filter (·.destroyed == 0)).flatMap (·.logged.reverse) =
        logsOf (b.toList.map (·.lot)) := by
    intro b hb
    cases b with
    | none => rfl
    | some c => simp [hb c rfl, Batch.lot]
  have hkept : ((w.flushed.map (·.journal)).filter (·.destroyed == 0)).flatMap
      (·.logged.reverse) = logsOf ((w.flushed.filter (!·.saved)).map (·.lot)) := by
    rw [List.filter_map, List.flatMap_map, logsOf, List.flatMap_map]
    exact congrArg (List.flatMap _) (List.filter_congr hflushed)
  rw [unreleased, journals, List.map_append, List.filter_append, List.filter_append,
    List.flatMap_append, List.flatMap_append, hkept, hopen _ h.inFlight, hopen _ h.receiving,
    logsOf_append, logsOf_append]

end Worker

namespace Session

variable {s : Session}

theorem tidy_attempt (h : s.worker.Tidy) (call : Nat) (c : Commitment) (index : Option Nat) :
    (s.attempt call c index).worker.Tidy := by
  rcases worker_attempt s call c index with hsame | ⟨i, hput⟩
  · rw [hsame]
    exact h
  · obtain ⟨b, b', hb, hok, heq⟩ := Worker.put_eq_placed hput
    rw [heq]
    refine h.congr rfl rfl fun b₁ hb₁ => ?_
    obtain rfl : b' = b₁ := Option.some.inj hb₁
    exact ⟨b, hb, (Batch.logged_put hok).2⟩

theorem tidy_step (h : s.worker.Tidy) (hw : s.worker.Orderly) (a : WorkerStep) :
    (s.step a).worker.Tidy := by
  have hsame : ∀ b', s.worker.receiving = some b' →
      ∃ b, s.worker.receiving = some b ∧ b'.journal.destroyed = b.journal.destroyed :=
    fun b' hb' => ⟨b', hb', rfl⟩
  cases a with
  | start =>
      rw [step]
      split
      next hc =>
        refine h.congr rfl ?_ hsame
        simp [Worker.start, Worker.inFlight?, hc]
      · exact h
  | put c index => exact tidy_attempt (s := { s with calls := s.calls + 1 }) h _ c index
  | retry position =>
      rw [step]
      split
      next call c hblocked =>
        exact tidy_attempt (s := { s with blocked := s.blocked.eraseIdx position }) h call c none
      · exact h
  | sync =>
      rw [step]
      split
      next waiter w hsync =>
        obtain ⟨b, hb, -, rfl⟩ := Worker.sync_eq_some hsync
        refine h.congr rfl rfl fun b' hb' => ?_
        obtain rfl : b.waiter.2 = b' := Option.some.inj hb'
        exact ⟨b, hb, rfl⟩
      · exact h
  | expire => exact h.congr rfl rfl hsame
  | poll => exact h.poll hw
  | outcome ok =>
      rw [step]
      split
      next batch final hsaving =>
        have hsaved : s.worker.saved ok =
            { s.worker with consumer := .recycling batch (!ok) final } := by
          simp [Worker.saved, hsaving]
        rw [hsaved]
        refine h.congr rfl ?_ hsame
        simp [Worker.inFlight?, hsaving]
      · exact h
  | recycle => exact h.recycle
  | close =>
      rw [step]
      rcases Worker.close_cases s.worker with hclose | ⟨hc, hclose⟩
      · rw [hclose]
        exact h.congr rfl rfl hsame
      · rw [hclose]
        refine h.congr rfl ?_ hsame
        simp [Worker.inFlight?, hc]

/-- In every state of every run the logs of the batches are what was placed, and the
journal files are in order. -/
theorem logs_run (steps : List WorkerStep) :
    (run steps).Logs ∧ (run steps).worker.Tidy := by
  have hrun : ∀ s : Session, s.Faithful → s.Logs → s.worker.Tidy →
      (steps.foldl step s).Logs ∧ (steps.foldl step s).worker.Tidy := by
    induction steps with
    | nil => exact fun _ _ hlogs htidy => ⟨hlogs, htidy⟩
    | cons a steps ih =>
        intro s hs hlogs htidy
        exact ih (s.step a) (hs.step a) (hlogs.step hs.orderly a) (tidy_step htidy hs.orderly a)
  exact hrun {} (faithful_run []) rfl Worker.tidy_empty

end Session

end WriteBehind
