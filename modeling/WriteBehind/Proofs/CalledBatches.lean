import WriteBehind.Proofs.WorkerUpkeep

/-!
# Batches that are called for

The receiving batch of a worker is called for when its deadline has passed, when it is full,
when someone waits for it, or when the worker was closed.  From then on it stays called for
until the consumer takes it.  `Worker.ahead` counts how many steps the consumer has left until
the table has answered for the batch: to be done with the one in its hands, to take the batch,
and to hand it over.  Each step of the consumer brings the count down and nothing brings it up
(`Worker.Leaves.acts`), and it is five at most.

As the deadline is set whenever something is in the receiving batch, this means that no
accepted commitment is left behind in a batch that nothing would flush
(`Session.Upkeep.reaches`).
-/

namespace WriteBehind

namespace Worker

variable {w w' : Worker} {a : WorkerStep} {n : Nat}

/-- The consumer will take the receiving batch when it looks for one the next time. -/
def Called (w : Worker) : Prop :=
  w.running = false ∨ ∃ b, w.receiving = some b ∧ (w.due b).consumable = true

/-- A batch is on its way: it receives nothing any more, or it is called for. -/
structure Leaves (w : Worker) (n : Nat) : Prop where
  started : w.consumer ≠ .resting
  called : n < w.opened ∨ n = w.opened ∧ w.receiving.isSome = true ∧ w.Called

/-- How many steps the consumer has left at most until the table has answered for the batch
that it takes next. -/
def stepsToNext : Consumer → Nat
  | .saving _ _ => 5
  | .recycling _ _ _ => 4
  | .closing => 3
  | .resting | .waiting | .ended => 2

/-- How many steps the consumer has left at most until the table has answered for a batch that
is on its way. -/
def ahead (w : Worker) (n : Nat) : Nat :=
  if n < w.settled then 0 else if n < w.opened then 1 else stepsToNext w.consumer

theorem ahead_of_settled (h : n < w.settled) : w.ahead n = 0 := if_pos h

theorem ahead_of_opened (h : n < w.opened) : w.ahead n ≤ 1 := by
  rw [ahead, if_pos h]
  split <;> omega

theorem ahead_opened (w : Worker) : w.ahead w.opened = stepsToNext w.consumer := by
  rw [ahead, if_neg (Nat.not_lt.mpr w.settled_le_opened), if_neg (Nat.lt_irrefl _)]

theorem ahead_le (w : Worker) (n : Nat) : w.ahead n ≤ 5 := by
  have hsteps : stepsToNext w.consumer ≤ 5 := by
    cases w.consumer <;> simp [stepsToNext]
  rw [ahead]
  split
  · omega
  · split
    · omega
    · exact hsteps

theorem lt_settled_of_ahead (h : w.ahead n = 0) : n < w.settled := by
  by_contra hn
  rw [ahead, if_neg hn] at h
  split at h
  · cases h
  · cases hc : w.consumer <;> simp [hc, stepsToNext] at h

/-! ## What keeps a batch called for -/

theorem due_passed (h : w.deadline = .passed) (b : Batch) : (w.due b).consumable = true := by
  simp [due, h, Batch.markOvertime, Batch.consumable]

theorem Called.of_receiving {b b' : Batch} (h : w.Called) (hb : w.receiving = some b)
    (hb' : w'.receiving = some b') (hrunning : w'.running = w.running)
    (hpassed : w.deadline = .passed → w'.deadline = .passed)
    (hdue : b.consumable = true → b'.consumable = true) : w'.Called := by
  rcases h with hclosed | ⟨b'', hb'', hconsumable⟩
  · exact .inl (hrunning.trans hclosed)
  · right
    obtain rfl : b = b'' := Option.some.inj (hb.symm.trans hb'')
    refine ⟨b', hb', ?_⟩
    rw [due] at hconsumable
    split at hconsumable
    next hdeadline => exact due_passed (hpassed hdeadline) b'
    · exact consumable_due w' (hdue hconsumable)

/-- The deadline of a receiving batch with something in it is set, so when it passes the batch
is called for. -/
theorem Trim.called_expire (h : w.Trim) {b : Batch} (hb : w.receiving = some b)
    (hfilled : b.entries ≠ []) : w.expire.Called := by
  have hset := (h.armed_iff b hb).mpr hfilled
  refine .inr ⟨b, hb, due_passed ?_ b⟩
  cases hd : w.deadline with
  | none => exact absurd hd hset
  | armed | passed => simp [Worker.expire, hd]

theorem called_of_consumable {b : Batch} (hb : w.receiving = some b)
    (hdue : b.consumable = true) : w.Called :=
  .inr ⟨b, hb, consumable_due w hdue⟩

theorem called_of_sync (w : Worker) (b : Batch) :
    ({ w with receiving := some b.waiter.2 } : Worker).Called :=
  called_of_consumable rfl (by simp [Batch.waiter, Batch.consumable])

theorem called_close (w : Worker) : w.close.Called := .inl rfl

/-! ## Steps on the way -/

/-- A batch that is called for is taken with the next look. -/
theorem opened_poll_of_called (hc : w.consumer = .waiting) (hcalled : w.Called)
    (hreceives : w.receiving.isSome = true) : w.poll.opened = w.opened + 1 := by
  obtain ⟨b, hb⟩ := Option.isSome_iff_exists.mp hreceives
  have hopened : w.opened = w.flushed.length := by simp [opened, inFlight?, hc]
  have hnext : ∀ (w' : Worker) (b' : Batch) (final : Bool), w'.flushed = w.flushed →
      w'.consumer = take b' final → w'.opened = w.opened + 1 := by
    intro w' b' final hflushed htake
    rw [opened, inFlight?_of_take htake, hflushed, hopened]
    rfl
  cases hr : w.running with
  | false =>
      exact hnext _ b.retire true (by simp [poll, hc, hr]) (by simp [poll, hc, hr, hb])
  | true =>
      rcases hcalled with hclosed | ⟨b', hb', hdue⟩
      · rw [hr] at hclosed
        cases hclosed
      · obtain rfl : b = b' := Option.some.inj (hb.symm.trans hb')
        exact hnext _ (w.due b).retire false (by simp [poll, hc, hr, hb, hdue])
          (by simp [poll, hc, hr, hb, hdue])

/-- Only the stage of the consumer and the batches that it is done with count. -/
theorem ahead_congr (hflushed : w'.flushed = w.flushed) (hc : w'.consumer = w.consumer)
    (n : Nat) : w'.opened = w.opened ∧ w'.ahead n = w.ahead n := by
  have hopened : w'.opened = w.opened := by
    rw [opened, opened, inFlight?, inFlight?, hflushed, hc]
  have hsettled : w'.settled = w.settled := by rw [settled, settled, hflushed, hc]
  exact ⟨hopened, by rw [ahead, ahead, hopened, hsettled, hc]⟩

theorem leaves_opened {b : Batch} (hc : w.consumer ≠ .resting) (hb : w.receiving = some b)
    (hcalled : w.Called) : w.Leaves w.opened :=
  ⟨hc, .inr ⟨rfl, by rw [hb]; rfl, hcalled⟩⟩

/-- A batch on its way stays on its way, and what is ahead of it becomes less with each step of
the consumer. -/
def Approaches (n : Nat) (w : Worker) (a : WorkerStep) (w' : Worker) : Prop :=
  w'.Leaves n ∧ w'.ahead n ≤ w.ahead n - if w.consumer.takes a then 1 else 0

/-- Steps that are not the consumer's and leave its batches alone. -/
theorem Leaves.of_same (h : w.Leaves n) (ha : w.consumer.takes a = false)
    (hflushed : w'.flushed = w.flushed) (hc : w'.consumer = w.consumer)
    (hcalled : w.receiving.isSome = true → w.Called →
      w'.receiving.isSome = true ∧ w'.Called) : Approaches n w a w' := by
  obtain ⟨hopened, hahead⟩ := ahead_congr hflushed hc n
  refine ⟨⟨hc ▸ h.started, ?_⟩, by simp [hahead, ha]⟩
  rw [hopened]
  exact h.called.imp_right fun ⟨hn, hreceives, hcall⟩ => ⟨hn, hcalled hreceives hcall⟩

theorem Leaves.of_idle (h : w.Leaves n) (ha : w.consumer.takes a = false) :
    Approaches n w a w :=
  h.of_same ha rfl rfl fun hreceives hcalled => ⟨hreceives, hcalled⟩

/-- A batch that has left the receiving place is settled by the steps that settle all of
those. -/
theorem approaches_of_settled (hc : w'.consumer ≠ .resting) (hn : n < w'.settled) :
    Approaches n w a w' :=
  ⟨⟨hc, .inl (Nat.lt_of_lt_of_le hn w'.settled_le_opened)⟩, by simp [ahead_of_settled hn]⟩

theorem Leaves.poll (h : w.Leaves n) : Approaches n w .poll w.poll := by
  cases hc : w.consumer with
  | resting | saving b final | recycling b aborted final | closing | ended =>
      have hsame : w.poll = w := by simp [Worker.poll, hc]
      rw [hsame]
      exact h.of_idle (by rw [hc]; rfl)
  | waiting =>
      have hstarted : w.poll.consumer ≠ .resting := (Acts.poll.started h.started).1
      have hflushed : w.poll.flushed = w.flushed := (Session.closedBatches_prefix_poll w).1
      rcases h.called with hn | ⟨rfl, hreceives, hcalled⟩
      · have hopened : w.opened = w.poll.flushed.length := by
          simp [opened, inFlight?, hc, hflushed]
        exact approaches_of_settled hstarted
          (Nat.lt_of_lt_of_le (hopened ▸ hn) w.poll.length_flushed_le_settled)
      · have htaken : w.opened < w.poll.opened := by
          rw [opened_poll_of_called hc hcalled hreceives]
          exact Nat.lt_succ_self _
        refine ⟨⟨hstarted, .inl htaken⟩, ?_⟩
        rw [ahead_opened, hc]
        exact ahead_of_opened htaken

theorem Leaves.saved (h : w.Leaves n) {b : Batch} {final : Bool}
    (hc : w.consumer = .saving b final) (ok : Bool) :
    Approaches n w (.outcome ok) (w.saved ok) := by
  have hstarted : (w.saved ok).consumer ≠ .resting := ((Acts.saved hc).started h.started).1
  rw [saved_of_saving hc] at hstarted ⊢
  have hopened : w.opened = w.flushed.length + 1 := by simp [opened, inFlight?, hc]
  rcases h.called with hn | ⟨rfl, hreceives, hcalled⟩
  · exact approaches_of_settled hstarted (by simpa [settled, hopened] using hn)
  · have hsame : ({ w with consumer := .recycling b (!ok) final } : Worker).opened = w.opened := by
      simp [opened, inFlight?, hc]
    refine ⟨⟨hstarted, .inr ⟨hsame.symm, hreceives, hcalled⟩⟩, ?_⟩
    rw [ahead_opened, ← hsame, ahead_opened, hc]
    exact Nat.le_refl 4

theorem Leaves.recycle (h : w.Leaves n) (hw : w.Orderly) :
    Approaches n w .recycle w.recycle := by
  cases hc : w.consumer with
  | resting | waiting | saving b final | closing | ended =>
      have hsame : w.recycle = w := by simp [Worker.recycle, hc]
      rw [hsame]
      exact h.of_idle (by rw [hc]; rfl)
  | recycling b aborted final =>
      have hstarted : w.recycle.consumer ≠ .resting := (Acts.recycle.started h.started).1
      have hopened : w.recycle.opened = w.opened := by
        rw [← length_closedBatches, closedBatches_recycle, length_closedBatches]
      rcases h.called with hn | ⟨rfl, hreceives, hcalled⟩
      · have hsettled : w.opened = w.recycle.settled := by
          rw [settled_recycle]
          simp [opened, inFlight?, settled, hc]
        exact approaches_of_settled hstarted (hsettled ▸ hn)
      · -- the batch receives, so the one of the consumer was not the final one
        obtain rfl : final = false := by
          cases final with
          | false => rfl
          | true =>
              rw [hw.final_gone (by rw [hc]; rfl)] at hreceives
              cases hreceives
        have hrunning : w.recycle.running = w.running := by simp [Worker.recycle, hc]
        have hdeadline : w.recycle.deadline = w.deadline := by simp [Worker.recycle, hc]
        obtain ⟨b', hb'⟩ := Option.isSome_iff_exists.mp hreceives
        have hb'' := (receiving_recycle w).trans hb'
        have hcalled' : w.recycle.Called :=
          hcalled.of_receiving hb' hb'' hrunning (fun hd => hdeadline.trans hd) id
        have hnext : stepsToNext w.recycle.consumer ≤ 3 := by
          cases aborted <;> simp [Worker.recycle, hc, stepsToNext]
        have hleaves := leaves_opened hstarted hb'' hcalled'
        rw [hopened] at hleaves
        refine ⟨hleaves, ?_⟩
        rw [ahead_opened, ← hopened, ahead_opened, hc]
        exact hnext

theorem Leaves.close (h : w.Leaves n) : Approaches n w .close w.close := by
  cases hc : w.consumer with
  | resting | waiting | saving b final | recycling b aborted final | ended =>
      exact h.of_same (by rw [hc]; rfl) rfl (by simp [Worker.close, hc])
        fun hreceives _ => ⟨hreceives, called_close w⟩
  | closing =>
      have hstarted : w.close.consumer ≠ .resting := (Acts.close.started h.started).1
      have hopened : w.close.opened = w.opened := by
        simp [opened, inFlight?, Worker.close, hc]
      rcases h.called with hn | ⟨rfl, hreceives, -⟩
      · have hsettled : w.opened = w.close.settled := by
          simp [opened, inFlight?, settled, Worker.close, hc]
        exact approaches_of_settled hstarted (hsettled ▸ hn)
      · refine ⟨⟨hstarted, .inr ⟨hopened.symm, hreceives, called_close w⟩⟩, ?_⟩
        rw [ahead_opened, ← hopened, ahead_opened, hc]
        simp [Worker.close, hc, stepsToNext, Consumer.takes]

/-- A consumer that has ended has left no batch on its way. -/
theorem Leaves.lt_settled_of_ended (h : w.Leaves n) (hw : w.Orderly)
    (hc : w.consumer = .ended) : n < w.settled := by
  rcases h.called with hn | ⟨-, hreceives, -⟩
  · simpa [settled, opened, inFlight?, hc] using hn
  · rw [hw.final_gone (by rw [hc]; rfl)] at hreceives
    cases hreceives

/-- Whatever step is made, a batch on its way comes closer to the table. -/
theorem Leaves.acts (h : w.Leaves n) (hw : w.Orderly) (hacts : w.Acts a w') :
    Approaches n w a w' := by
  cases hacts with
  | start hc => exact absurd hc h.started
  | put ha hput =>
      obtain ⟨b, b', hb, hok, rfl⟩ := put_eq_placed hput
      refine h.of_same ha rfl rfl fun _ hcalled => ⟨rfl, ?_⟩
      refine hcalled.of_receiving hb rfl rfl (fun hpassed => ?_) (Batch.put_keeps hok).2.2.1
      simp [hpassed]
  | sync hb =>
      have ha := w.consumer.takes_eq_false_of_producer (.inr (.inr (.inr rfl)))
      exact h.of_same ha rfl rfl fun _ _ => ⟨rfl, called_of_sync w _⟩
  | expire =>
      have ha : w.consumer.takes .expire = false := by cases w.consumer <;> rfl
      refine h.of_same ha rfl rfl fun hreceives hcalled => ⟨hreceives, ?_⟩
      obtain ⟨b, hb⟩ := Option.isSome_iff_exists.mp hreceives
      exact hcalled.of_receiving hb hb rfl (fun hpassed => by simp [expire, hpassed]) id
  | poll => exact h.poll
  | saved hc => exact h.saved hc _
  | recycle => exact h.recycle hw
  | close => exact h.close
  | idle ha => exact h.of_idle ha

end Worker

namespace Session

variable {s : Session}

/-! ## Runs -/

/-- How many of the steps that follow are steps of the consumer. -/
def moves (s : Session) : List WorkerStep → Nat
  | [] => 0
  | a :: rest => (if s.worker.consumer.takes a then 1 else 0) + (s.step a).moves rest

/-- A batch on its way stays on its way, and each step of the consumer counts. -/
theorem ahead_foldl (hs : s.Faithful) {n : Nat} (h : s.worker.Leaves n)
    (more : List WorkerStep) :
    (more.foldl step s).worker.Leaves n ∧
      (more.foldl step s).worker.ahead n ≤ s.worker.ahead n - s.moves more := by
  induction more generalizing s with
  | nil => exact ⟨h, Nat.le_refl _⟩
  | cons a more ih =>
      obtain ⟨hleaves, hahead⟩ := h.acts hs.orderly (acts_step s a)
      obtain ⟨hend, hrest⟩ := ih (hs.step a) hleaves
      refine ⟨hend, ?_⟩
      rw [List.foldl_cons, moves]
      omega

/-- Whatever happens then, when the consumer has made five steps or has ended, the table was
given the batch of a placed commitment, once. -/
def Flushes (s : Session) (p : Placed) : Prop :=
  ∀ more, 5 ≤ s.moves more ∨ (more.foldl step s).worker.consumer = .ended → ∃ es,
    (more.foldl step s).worker.batches[p.batch]? = some es ∧
      (more.foldl step s).handed.filter (·.2 == p.batch) = [(es, p.batch)]

theorem faithful_foldl (hs : s.Faithful) (more : List WorkerStep) :
    (more.foldl step s).Faithful :=
  foldl_keeps (fun _ a h => h.step a) hs more

theorem mem_placed_foldl {p : Placed} (hp : p ∈ s.placed) (more : List WorkerStep) :
    p ∈ (more.foldl step s).placed :=
  foldl_keeps (fun s a h => (extends_step s a).placed.subset h) hp more

theorem flushes_of_leaves (hs : s.Faithful) {p : Placed} (hp : p ∈ s.placed)
    (h : s.worker.Leaves p.batch) : s.Flushes p := by
  intro more hdone
  have hs' := faithful_foldl hs more
  obtain ⟨hleaves, hahead⟩ := ahead_foldl hs h more
  refine hs'.handed_once (mem_placed_foldl hp more) ?_
  rcases hdone with hmoves | hended
  · have hle := s.worker.ahead_le p.batch
    exact Worker.lt_settled_of_ahead (by omega)
  · exact hleaves.lt_settled_of_ended hs'.orderly hended

/-- A step that calls for the receiving batch. -/
theorem flushes_step (hs : s.Faithful) (hc : s.worker.consumer ≠ .resting) {p : Placed}
    (hp : p ∈ s.placed) {a : WorkerStep} {b : Batch}
    (hopened : (s.step a).worker.opened = p.batch)
    (hb : (s.step a).worker.receiving = some b) (hcalled : (s.step a).worker.Called) :
    (s.step a).Flushes p := by
  have hstarted := ((acts_step s a).started hc).1
  have hleaves := Worker.leaves_opened hstarted hb hcalled
  rw [hopened] at hleaves
  exact flushes_of_leaves (hs.step a) ((extends_step s a).placed.subset hp) hleaves

/-- What calls for the receiving batch: a passed deadline, a waiter, a closed worker. -/
inductive Prompts : WorkerStep → Prop where
  | expire : Prompts .expire
  | sync : Prompts .sync
  | close : Prompts .close

theorem flushes_of_prompts (hs : s.Faithful) (htrim : s.worker.Trim)
    (hc : s.worker.consumer ≠ .resting) {p : Placed} (hp : p ∈ s.placed) {b : Batch}
    (hn : p.batch = s.worker.opened) (hb : s.worker.receiving = some b) (hfilled : b.entries ≠ [])
    {a : WorkerStep} (ha : Prompts a) : (s.step a).Flushes p := by
  cases ha with
  | expire => exact flushes_step hs hc hp hn.symm hb (htrim.called_expire hb hfilled)
  | close =>
      refine flushes_step hs hc hp ?_ hb s.worker.called_close
      rw [hn]
      rcases s.worker.close_cases with hclose | ⟨hclosing, hclose⟩
      · rw [step, hclose]
        rfl
      · rw [step, hclose]
        simp [Worker.opened, Worker.inFlight?, hclosing]
  | sync =>
      cases hsync : s.worker.sync with
      | none =>
          -- only a closed worker that receives gives no waiter out
          have hclosed : s.worker.running = false := by
            cases hr : s.worker.running with
            | false => rfl
            | true => simp [Worker.sync, hr, hb] at hsync
          have hstep : s.step .sync = s := by simp [step, hsync]
          refine flushes_step hs hc hp ?_ (hstep.symm ▸ hb) (hstep.symm ▸ .inl hclosed)
          rw [hstep, hn]
      | some asked =>
          obtain ⟨b', hb', -, hw⟩ := Worker.sync_eq_some hsync
          have hstep : (s.step .sync).worker =
              { s.worker with receiving := some b'.waiter.2 } := by
            simp [step, hsync, hw]
          refine flushes_step hs hc hp (b := b'.waiter.2) ?_ (by rw [hstep]) ?_
          · rw [hstep, hn]
            rfl
          · rw [hstep]
            exact Worker.called_of_sync s.worker b'

/-! ## Every state of a started worker -/

theorem trim_run (steps : List WorkerStep) : (run steps).worker.Trim := by
  have hstep : ∀ (s : Session) a, s.worker.Trim → (s.step a).worker.Trim :=
    fun s a h => h.acts (acts_step s a)
  exact foldl_keeps hstep Worker.trim_empty steps

/-- A worker that was started stays started, and once closed it stays closed. -/
theorem started_foldl (hc : s.worker.consumer ≠ .resting) (more : List WorkerStep) :
    (more.foldl step s).worker.consumer ≠ .resting ∧
      (s.worker.running = false ∨ .close ∈ more →
        (more.foldl step s).worker.running = false) := by
  induction more generalizing s with
  | nil => exact ⟨hc, fun h => h.resolve_right (List.not_mem_nil)⟩
  | cons a more ih =>
      obtain ⟨hc', hclosed⟩ := (acts_step s a).started hc
      obtain ⟨hend, hrest⟩ := ih hc'
      refine ⟨hend, fun h => hrest ?_⟩
      rcases h with h | h
      · exact .inl (hclosed h)
      · rcases List.mem_cons.mp h with rfl | h
        · exact .inl rfl
        · exact .inr h

theorem started_start (s : Session) : (s.step .start).worker.consumer ≠ .resting := by
  cases hc : s.worker.consumer with
  | resting => simp [step, hc, Worker.start]
  | waiting | saving b final | recycling b aborted final | closing | ended => simp [step, hc]

/-- A consumer that was started can make its next step, until it has ended. -/
theorem exists_takes (hc : s.worker.consumer ≠ .resting) :
    s.worker.consumer = .ended ∨ ∃ a, s.worker.consumer.takes a = true := by
  cases hstage : s.worker.consumer with
  | resting => exact absurd hstage hc
  | waiting => exact .inr ⟨.poll, rfl⟩
  | saving b final => exact .inr ⟨.outcome true, rfl⟩
  | recycling b aborted final => exact .inr ⟨.recycle, rfl⟩
  | closing => exact .inr ⟨.close, rfl⟩
  | ended => exact .inl rfl

theorem worker_put_of_full {c : Commitment} {index : Option Nat}
    (h : s.worker.put c index = .full) : (s.step (.put c index)).worker = s.worker := by
  simp [step, attempt, h]

/-- What holds in every state of a worker that was started. -/
structure Upkeep (s : Session) : Prop where
  /-- While the worker runs it receives, and something is in its receiving batch exactly as
  long as the flush deadline is set. -/
  receives : s.worker.running = true → ∃ b, s.worker.receiving = some b ∧
    (b.entries ≠ [] ↔ s.worker.deadline ≠ .none)
  /-- Two batches are kept at most, which are empty, not due and without a waiter, -/
  spare_le : s.worker.spare.length ≤ 2
  spare_blank : ∀ b ∈ s.worker.spare, b.Blank
  /-- and neither one another, nor the receiving one, nor the one of the consumer. -/
  apart : s.worker.buffersInUse.Nodup
  /-- A put that has to wait leaves a receiving batch that is due. -/
  full : ∀ c index, s.worker.put c index = .full → ∃ b,
    (s.step (.put c index)).worker.receiving = some b ∧ b.consumable = true
  /-- A closed worker takes no commitment, and nobody can wait for its batch. -/
  closed : s.worker.running = false →
    (∀ c index, s.worker.put c index = .refused) ∧ s.worker.sync = none
  /-- The consumer is not stuck, -/
  goes_on : s.worker.consumer = .ended ∨ ∃ a, s.worker.consumer.takes a = true
  /-- and what was placed will be given to the table, or it is in the receiving batch of a worker
  that runs, the deadline is set, and the table will be given the batch when the deadline
  passes, when someone waits for it, or when the worker is closed. -/
  reaches : ∀ p ∈ s.placed, s.Flushes p ∨
    p.batch = s.worker.opened ∧ s.worker.running = true ∧ s.worker.deadline ≠ .none ∧
      (∃ b, s.worker.receiving = some b ∧ b.consumable = false) ∧
      ∀ a, Prompts a → (s.step a).Flushes p

theorem reaches_of_trim (hs : s.Faithful) (htrim : s.worker.Trim)
    (hc : s.worker.consumer ≠ .resting) {p : Placed} (hp : p ∈ s.placed) :
    s.Flushes p ∨
      p.batch = s.worker.opened ∧ s.worker.running = true ∧ s.worker.deadline ≠ .none ∧
        (∃ b, s.worker.receiving = some b ∧ b.consumable = false) ∧
        ∀ a, Prompts a → (s.step a).Flushes p := by
  obtain ⟨es, hes, hlt⟩ := hs.located p hp
  have hclosed : p.batch < s.worker.opened → s.Flushes p := fun hn =>
    flushes_of_leaves hs hp ⟨hc, .inl hn⟩
  rcases Worker.batch_cases hes with ⟨hn, b, hb, rfl⟩ | ⟨hn, b, hb, -⟩ | hn
  · have hfilled : b.entries ≠ [] := List.ne_nil_of_length_pos (Nat.zero_lt_of_lt hlt)
    have hcalled : s.worker.Called → s.Flushes p := fun hcalled =>
      flushes_of_leaves hs hp (hn ▸ Worker.leaves_opened hc hb hcalled)
    cases hr : s.worker.running with
    | false => exact .inl (hcalled (.inl hr))
    | true =>
        cases hdue : b.consumable with
        | true => exact .inl (hcalled (Worker.called_of_consumable hb hdue))
        | false =>
            exact .inr ⟨hn, rfl, (htrim.armed_iff b hb).mpr hfilled, ⟨b, hb, hdue⟩,
              fun a ha => flushes_of_prompts hs htrim hc hp hn hb hfilled ha⟩
  · refine .inl (hclosed ?_)
    simp [Worker.opened, hb, hn]
  · exact .inl (hclosed (Nat.lt_of_lt_of_le hn (Nat.le_add_right _ _)))

/-- In whatever order producers, the clock, the consumer and whoever closes a worker make their
steps, from the start of the worker on everything is in order, no placed commitment is left
behind, and once the worker was closed it stays closed. -/
theorem run_upkeep (before after : List WorkerStep) :
    (run (before ++ .start :: after)).Upkeep ∧
      (.close ∈ after → (run (before ++ .start :: after)).worker.running = false) := by
  have hs := faithful_run (before ++ .start :: after)
  have htrim := trim_run (before ++ .start :: after)
  have hstarted := started_foldl (started_start (run before)) after
  have hrun : run (before ++ .start :: after) = after.foldl step ((run before).step .start) := by
    rw [run, List.foldl_append]
    rfl
  rw [← hrun] at hstarted
  generalize run (before ++ .start :: after) = s at hs htrim hstarted
  refine ⟨?_, fun hclose => hstarted.2 (.inr hclose)⟩
  refine ⟨?_, htrim.spare_le, htrim.spare_blank, htrim.apart, ?_, Worker.refuses_of_closed,
    exists_takes hstarted.1, fun p hp => reaches_of_trim hs htrim hstarted.1 hp⟩
  · intro hr
    obtain ⟨b, hb⟩ := Option.isSome_iff_exists.mp (htrim.receives (.inl hr))
    exact ⟨b, hb, (htrim.armed_iff b hb).symm⟩
  · intro c index hfull
    rw [worker_put_of_full hfull]
    exact Worker.consumable_of_full hfull

end Session

end WriteBehind
