import WriteBehind.Saver
import WriteBehind.Proofs.Coalescing
import WriteBehind.Proofs.WorkerSession

/-!
# What a producer may rely on when its wait was answered

A waiter is told about the receiving batch of the moment it was asked for, and about no
other.  Behind an abandoned batch a worker takes only the final one, which gets an
attempt of its own, so at most the last two of the batches that a worker is done with
can have been abandoned (`Worker.Dependable`).  Hence, if a waiter is told that its batch
was saved, everything placed before is saved too, but for the batch that the consumer
held already when the waiter was asked for: `Session.told_saved_iff`.  That batch may
have been abandoned in the meantime, and nobody tells the waiter.
-/

namespace WriteBehind

/-! ## Abandoned batches come last -/

namespace Worker

/-- How many of the latest batches that a worker is done with may have been
abandoned. -/
def doubtful (w : Worker) : Nat :=
  match w.consumer with
  | .resting | .saving _ false | .recycling _ _ false => 0
  | .waiting => if w.running then 0 else 1
  | .closing | .saving _ true | .recycling _ _ true => 1
  | .ended => 2

/-- Only a closed worker abandons a batch, and not an empty one; it is left with the
final batch then. -/
structure Dependable (w : Worker) : Prop where
  abandoned_late : ∀ i f, w.flushed[i]? = some f → f.saved = false →
    w.flushed.length ≤ i + w.doubtful
  abandoned_filled : ∀ f ∈ w.flushed, f.saved = false → f.entries ≠ []
  aborted : ∀ b final, w.consumer = .recycling b true final →
    w.running = false ∧ b.entries ≠ []
  closing_closed : w.consumer = .closing → w.running = false
  final_closed : w.consumer.isFinal = true → w.running = false

theorem dependable_empty : ({} : Worker).Dependable where
  abandoned_late := by simp
  abandoned_filled := by simp
  aborted := by intro b final h; cases h
  closing_closed := by intro h; cases h
  final_closed := by intro h; cases h

variable {w w' : Worker}

theorem Dependable.doubtful_of_running (h : w.Dependable) (hr : w.running = true) :
    w.doubtful = 0 := by
  have hfinal := h.final_closed
  have hclosing := h.closing_closed
  rw [doubtful]
  cases hc : w.consumer with
  | resting => rfl
  | waiting => simp [hr]
  | saving b final =>
      cases final with
      | false => rfl
      | true => simp [hc, Consumer.isFinal, hr] at hfinal
  | recycling b ab final =>
      cases final with
      | false => rfl
      | true => simp [hc, Consumer.isFinal, hr] at hfinal
  | closing => simp [hc, hr] at hclosing
  | ended => simp [hc, Consumer.isFinal, hr] at hfinal

theorem ended_of_doubtful (h : 2 ≤ w.doubtful) : w.consumer = .ended := by
  cases hc : w.consumer with
  | resting => simp [doubtful, hc] at h
  | waiting => cases hr : w.running <;> simp [doubtful, hc, hr] at h
  | saving b final | recycling b ab final => cases final <;> simp [doubtful, hc] at h
  | closing => simp [doubtful, hc] at h
  | ended => rfl

/-- While a worker runs, nothing was abandoned. -/
theorem Dependable.saved_of_running (h : w.Dependable) (hr : w.running = true) {i : Nat}
    {f : FlushedBatch} (hf : w.flushed[i]? = some f) : f.saved = true := by
  by_contra hne
  have hlate := h.abandoned_late i f hf (by simpa using hne)
  rw [h.doubtful_of_running hr] at hlate
  exact Nat.not_lt_of_le hlate (List.getElem?_eq_some_iff.mp hf).1

/-- Only the stage of the consumer and the switch matter. -/
theorem Dependable.congr (h : w.Dependable) (hf : w'.flushed = w.flushed)
    (hc : w'.consumer = w.consumer) (hr : w'.running = w.running) : w'.Dependable := by
  have hd : w'.doubtful = w.doubtful := by rw [doubtful, doubtful, hc, hr]
  refine ⟨?_, ?_, ?_, ?_, ?_⟩
  · rw [hf, hd]
    exact h.abandoned_late
  · rw [hf]
    exact h.abandoned_filled
  · rw [hc, hr]
    exact h.aborted
  · rw [hc, hr]
    exact h.closing_closed
  · rw [hc, hr]
    exact h.final_closed

theorem Dependable.start (h : w.Dependable) (hc : w.consumer = .resting) :
    w.start.Dependable := by
  have hstart : w.start = { w with running := true, consumer := .waiting } := by
    simp [Worker.start, hc]
  have hd : w.doubtful = 0 := by simp [doubtful, hc]
  rw [hstart]
  refine ⟨?_, h.abandoned_filled, ?_, ?_, ?_⟩
  · intro i f hf hs
    have hlate := h.abandoned_late i f hf hs
    rw [hd] at hlate
    exact hlate
  · intro b final hstage
    cases hstage
  · intro hstage
    cases hstage
  · intro hstage
    cases hstage

theorem Dependable.close (h : w.Dependable) : w.close.Dependable := by
  have hle : ∀ w' : Worker, w'.flushed = w.flushed → w.doubtful ≤ w'.doubtful →
      ∀ i f, w'.flushed[i]? = some f → f.saved = false →
        w'.flushed.length ≤ i + w'.doubtful := by
    intro w' hf hd i f hi hs
    have hlate := h.abandoned_late i f (hf ▸ hi) hs
    rw [hf]
    omega
  rcases close_cases w with hclose | ⟨hc, hclose⟩
  · rw [hclose]
    refine ⟨hle _ rfl ?_, h.abandoned_filled, ?_, fun _ => rfl, fun _ => rfl⟩
    · cases hc : w.consumer with
      | saving b final | recycling b ab final => cases final <;> simp [doubtful, hc]
      | waiting => cases hr : w.running <;> simp [doubtful, hc, hr]
      | resting | closing | ended => simp [doubtful, hc]
    · intro b final hstage
      exact ⟨rfl, (h.aborted b final hstage).2⟩
  · rw [hclose]
    refine ⟨hle _ rfl ?_, h.abandoned_filled, ?_, fun _ => rfl, fun _ => rfl⟩
    · simp [doubtful, hc]
    · intro b final hstage
      cases hstage

/-- A batch that is taken was not abandoned. -/
theorem take_ne_aborted (b c : Batch) (final final' : Bool) :
    take b final ≠ .recycling c true final' := by
  cases hb : b.isEmpty with
  | true => simp [take, hb]
  | false => simp [take, hb]

theorem take_ne_closing (b : Batch) (final : Bool) : take b final ≠ .closing := by
  cases hb : b.isEmpty with
  | true => simp [take, hb]
  | false => simp [take, hb]

theorem doubtful_of_take {b : Batch} {final : Bool} (h : w.consumer = take b final) :
    w.doubtful = if final then 1 else 0 := by
  cases hb : b.isEmpty with
  | true => cases final <;> simp [doubtful, h, take, hb]
  | false => cases final <;> simp [doubtful, h, take, hb]

theorem Dependable.poll (h : w.Dependable) : w.poll.Dependable := by
  rcases poll_cases w with hpoll | ⟨b, -, hpoll⟩ | ⟨b, hc, hr, -, -, hpoll⟩ |
    ⟨b, hc, hr, -, hpoll⟩ | ⟨hc, hr, -, hpoll⟩
  · rw [hpoll]
    exact h
  · rw [hpoll]
    exact h.congr rfl rfl rfl
  · rw [hpoll]
    refine ⟨?_, h.abandoned_filled, ?_, ?_, ?_⟩
    · intro i f hf hs
      rw [h.saved_of_running hr hf] at hs
      cases hs
    · intro c final hstage
      exact absurd hstage (take_ne_aborted _ _ _ _)
    · intro hstage
      exact absurd hstage (take_ne_closing _ _)
    · intro hfinal
      rw [isFinal_take] at hfinal
      cases hfinal
  · have hd : w.doubtful = 1 := by simp [doubtful, hc, hr]
    rw [hpoll]
    refine ⟨?_, h.abandoned_filled, ?_, ?_, fun _ => hr⟩
    · intro i f hf hs
      rw [doubtful_of_take rfl]
      exact hd ▸ h.abandoned_late i f hf hs
    · intro c final hstage
      exact absurd hstage (take_ne_aborted _ _ _ _)
    · intro hstage
      exact absurd hstage (take_ne_closing _ _)
  · have hd : w.doubtful = 1 := by simp [doubtful, hc, hr]
    rw [hpoll]
    refine ⟨?_, h.abandoned_filled, ?_, ?_, fun _ => hr⟩
    · intro i f hf hs
      have hlate := h.abandoned_late i f hf hs
      rw [hd] at hlate
      exact Nat.le_succ_of_le hlate
    · intro c final hstage
      cases hstage
    · intro hstage
      cases hstage

theorem Dependable.saved (h : w.Dependable) (hw : w.Orderly) {b : Batch} {final ok : Bool}
    (hc : w.consumer = .saving b final) (hok : ok = false → w.running = false) :
    (w.saved ok).Dependable := by
  have hsaved : w.saved ok = { w with consumer := .recycling b (!ok) final } := by
    simp [Worker.saved, hc]
  have hd : ({ w with consumer := .recycling b (!ok) final } : Worker).doubtful = w.doubtful := by
    cases final <;> simp [doubtful, hc]
  rw [hsaved]
  refine ⟨?_, h.abandoned_filled, ?_, ?_, ?_⟩
  · rw [hd]
    exact h.abandoned_late
  · intro c final' hstage
    obtain ⟨rfl, hab, rfl⟩ : b = c ∧ (!ok) = true ∧ final = final' := by simpa using hstage
    exact ⟨hok (by simpa using hab), hw.saving_filled b final hc⟩
  · intro hstage
    cases hstage
  · intro hfinal
    apply h.final_closed
    rw [hc]
    exact hfinal

theorem Dependable.recycle (h : w.Dependable) : w.recycle.Dependable := by
  cases hc : w.consumer with
  | resting | waiting | saving b final | closing | ended =>
      have hsame : w.recycle = w := by simp [Worker.recycle, hc]
      rw [hsame]
      exact h
  | recycling b aborted final =>
      have haborted : aborted = true → w.running = false ∧ b.entries ≠ [] := by
        rintro rfl
        exact h.aborted b final hc
      have hd : w.doubtful = if final then 1 else 0 := by
        cases final <;> simp [doubtful, hc]
      have hold : ∀ i f, w.flushed[i]? = some f → f.saved = false → final = true ∧
          w.flushed.length ≤ i + 1 := by
        intro i f hf hs
        have hlate := h.abandoned_late i f hf hs
        have hlt := (List.getElem?_eq_some_iff.mp hf).1
        rw [hd] at hlate
        cases final with
        | true => exact ⟨rfl, hlate⟩
        | false => simp only [Bool.false_eq_true, if_false] at hlate; omega
      simp only [Worker.recycle, hc]
      refine ⟨?_, ?_, ?_, ?_, ?_⟩
      · intro i f hf hs
        dsimp only at hf ⊢
        rw [List.length_append, List.length_singleton]
        by_cases hi : i < w.flushed.length
        · rw [List.getElem?_append_left hi] at hf
          obtain ⟨rfl, hlate⟩ := hold i f hf hs
          simpa [doubtful] using hlate
        · have hlt := (List.getElem?_eq_some_iff.mp hf).1
          obtain rfl : i = w.flushed.length := by
            rw [List.length_append, List.length_singleton] at hlt
            omega
          obtain rfl : f = ⟨b.entries, !aborted, (b.reset aborted).journal⟩ := by
            simpa using hf.symm
          obtain rfl : aborted = true := by simpa using hs
          cases final <;> simp [doubtful]
      · intro f hf hs
        rcases List.mem_append.mp hf with hf | hf
        · exact h.abandoned_filled f hf hs
        · obtain rfl := List.mem_singleton.mp hf
          exact (haborted (by simpa using hs)).2
      · intro c final' hstage
        cases final <;> cases aborted <;> simp at hstage
      · intro hstage
        cases final <;> cases aborted <;> simp at hstage
        exact (haborted rfl).1
      · intro hfinal
        cases final with
        | true => exact h.final_closed (by rw [hc]; rfl)
        | false => cases aborted <;> simp [Consumer.isFinal] at hfinal

end Worker

/-! ## Sessions in which batches are abandoned by a close only -/

namespace Session

variable {s t : Session}

/-- A table gives up on the batch of a closed worker only. -/
def Allows (s : Session) : WorkerStep → Prop
  | .outcome ok => ok = false → s.worker.running = false
  | _ => True

/-- Steps in which no batch is abandoned while its worker runs. -/
def Persistent (s : Session) : List WorkerStep → Prop
  | [] => True
  | a :: steps => s.Allows a ∧ (s.step a).Persistent steps

theorem persistent_append {before after : List WorkerStep} :
    s.Persistent (before ++ after) ↔
      s.Persistent before ∧ (before.foldl step s).Persistent after := by
  induction before generalizing s with
  | nil => simp [Persistent]
  | cons a before ih => simp [Persistent, ih, and_assoc]

theorem worker_attempt (s : Session) (call : Nat) (c : Commitment) (index : Option Nat) :
    (s.attempt call c index).worker = s.worker ∨
      ∃ i, s.worker.put c index = .placed i (s.attempt call c index).worker := by
  cases hput : s.worker.put c index with
  | placed i w => exact .inr ⟨i, by simp [attempt, hput]⟩
  | full => exact .inl (by simp [attempt, hput])
  | refused => exact .inl (by simp [attempt, hput])

theorem dependable_attempt (h : s.worker.Dependable) (call : Nat) (c : Commitment)
    (index : Option Nat) : (s.attempt call c index).worker.Dependable := by
  rcases worker_attempt s call c index with hsame | ⟨i, hput⟩
  · rw [hsame]
    exact h
  · obtain ⟨b, b', -, -, heq⟩ := Worker.put_eq_placed hput
    rw [heq]
    exact h.congr rfl rfl rfl

theorem dependable_step (h : s.worker.Dependable) (hs : s.Faithful) {a : WorkerStep}
    (ha : s.Allows a) : (s.step a).worker.Dependable := by
  cases a with
  | start =>
      rw [step]
      split
      next hc => exact h.start hc
      · exact h
  | put c index => exact dependable_attempt (s := { s with calls := s.calls + 1 }) h _ c index
  | retry position =>
      rw [step]
      split
      next call c hblocked =>
        exact dependable_attempt (s := { s with blocked := s.blocked.eraseIdx position }) h call c
          none
      · exact h
  | sync =>
      rw [step]
      split
      next waiter w hsync =>
        obtain ⟨b, -, -, rfl⟩ := Worker.sync_eq_some hsync
        exact h.congr rfl rfl rfl
      · exact h
  | expire => exact h.congr rfl rfl rfl
  | poll => exact h.poll
  | outcome ok =>
      rw [step]
      split
      next batch final hsaving => exact h.saved hs.orderly hsaving ha
      · exact h
  | recycle => exact h.recycle
  | close => exact h.close

theorem dependable_run {steps : List WorkerStep} (h : Persistent {} steps) :
    (run steps).worker.Dependable := by
  have hrun : ∀ s : Session, s.Faithful → s.worker.Dependable → s.Persistent steps →
      (steps.foldl step s).worker.Dependable := by
    clear h
    induction steps with
    | nil => exact fun _ _ hd _ => hd
    | cons a steps ih =>
        intro s hs hd ⟨ha, hrest⟩
        exact ih (s.step a) (hs.step a) (dependable_step hd hs ha) hrest
  exact hrun {} (faithful_run []) Worker.dependable_empty h

/-! ## What later steps keep -/

/-- A later state of a session: what was placed stays placed, and the batches that
receive nothing any more stay as they are. -/
structure Extends (s t : Session) : Prop where
  placed : s.placed <+: t.placed
  flushed : s.worker.flushed <+: t.worker.flushed
  closed : s.worker.closedBatches <+: t.worker.closedBatches

theorem Extends.refl (s : Session) : s.Extends s :=
  ⟨List.prefix_refl _, List.prefix_refl _, List.prefix_refl _⟩

theorem Extends.trans {u : Session} (h : s.Extends t) (h' : t.Extends u) : s.Extends u :=
  ⟨h.placed.trans h'.placed, h.flushed.trans h'.flushed, h.closed.trans h'.closed⟩

/-- Steps of the worker that keep its closed batches. -/
theorem Extends.setStage {w : Worker} (hflushed : w.flushed = s.worker.flushed)
    (hclosed : w.closedBatches = s.worker.closedBatches) :
    s.Extends { s with worker := w } :=
  ⟨List.prefix_refl _, hflushed ▸ List.prefix_refl _, hclosed ▸ List.prefix_refl _⟩

/-- Steps of the worker that close further batches. -/
theorem Extends.setWorker {w : Worker} (hflushed : s.worker.flushed <+: w.flushed)
    (hclosed : s.worker.closedBatches <+: w.closedBatches) :
    s.Extends { s with worker := w } :=
  ⟨List.prefix_refl _, hflushed, hclosed⟩

theorem extends_attempt (s : Session) (call : Nat) (c : Commitment) (index : Option Nat) :
    s.Extends (s.attempt call c index) := by
  cases hput : s.worker.put c index with
  | placed i w =>
      obtain ⟨b, b', -, -, rfl⟩ := Worker.put_eq_placed hput
      rw [attempt, hput]
      exact ⟨List.prefix_append _ _, List.prefix_refl _, List.prefix_refl _⟩
  | full =>
      rw [attempt, hput]
      exact ⟨List.prefix_refl _, List.prefix_refl _, List.prefix_refl _⟩
  | refused =>
      rw [attempt, hput]
      exact ⟨List.prefix_refl _, List.prefix_refl _, List.prefix_refl _⟩

theorem closedBatches_prefix_poll (w : Worker) :
    w.poll.flushed = w.flushed ∧ w.closedBatches <+: w.poll.closedBatches := by
  rcases Worker.poll_cases w with hpoll | ⟨b, -, hpoll⟩ | ⟨b, hc, -, -, -, hpoll⟩ |
    ⟨b, hc, -, -, hpoll⟩ | ⟨hc, -, -, hpoll⟩
  · rw [hpoll]
    exact ⟨rfl, List.prefix_refl _⟩
  · rw [hpoll]
    exact ⟨rfl, List.prefix_refl _⟩
  · rw [hpoll, (Worker.closedBatches_of_waiting hc).1, Worker.closedBatches_of_take rfl]
    exact ⟨rfl, List.prefix_append _ _⟩
  · rw [hpoll, (Worker.closedBatches_of_waiting hc).1, Worker.closedBatches_of_take rfl]
    exact ⟨rfl, List.prefix_append _ _⟩
  · rw [hpoll, (Worker.closedBatches_of_waiting hc).1]
    exact ⟨rfl, List.prefix_append _ _⟩

theorem closedBatches_setWaiting {w : Worker}
    (hc : w.consumer = .resting ∨ w.consumer = .closing) (running : Bool) :
    ({ w with running, consumer := .waiting } : Worker).closedBatches = w.closedBatches := by
  rcases hc with hc | hc
  · simp [Worker.closedBatches, Worker.inFlight?, hc]
  · simp [Worker.closedBatches, Worker.inFlight?, hc]

theorem extends_step (s : Session) (a : WorkerStep) : s.Extends (s.step a) := by
  cases a with
  | start =>
      rw [step]
      split
      next hc =>
        have hstart : s.worker.start = { s.worker with running := true, consumer := .waiting } := by
          simp [Worker.start, hc]
        rw [hstart]
        exact .setStage rfl (closedBatches_setWaiting (.inl hc) true)
      · exact .refl s
  | put c index =>
      have hcalls : s.Extends { s with calls := s.calls + 1 } :=
        ⟨List.prefix_refl _, List.prefix_refl _, List.prefix_refl _⟩
      exact hcalls.trans (extends_attempt _ _ c index)
  | retry position =>
      rw [step]
      split
      next call c hblocked =>
        have herase : s.Extends { s with blocked := s.blocked.eraseIdx position } :=
          ⟨List.prefix_refl _, List.prefix_refl _, List.prefix_refl _⟩
        exact herase.trans (extends_attempt _ call c none)
      · exact .refl s
  | sync =>
      rw [step]
      split
      next waiter w hsync =>
        obtain ⟨b, -, -, rfl⟩ := Worker.sync_eq_some hsync
        exact .setStage rfl rfl
      · exact .refl s
  | expire => exact .setStage rfl rfl
  | poll =>
      obtain ⟨hflushed, hclosed⟩ := closedBatches_prefix_poll s.worker
      exact .setWorker (hflushed ▸ List.prefix_refl _) hclosed
  | outcome ok =>
      rw [step]
      split
      next batch final hsaving =>
        have hsaved : s.worker.saved ok =
            { s.worker with consumer := .recycling batch (!ok) final } := by
          simp [Worker.saved, hsaving]
        have hclosed : (s.worker.saved ok).closedBatches = s.worker.closedBatches := by
          rw [hsaved]
          simp [Worker.closedBatches, Worker.inFlight?, hsaving]
        have hflushed : (s.worker.saved ok).flushed = s.worker.flushed := by rw [hsaved]
        exact ⟨List.prefix_refl _, hflushed ▸ List.prefix_refl _, hclosed ▸ List.prefix_refl _⟩
      · exact .refl s
  | recycle =>
      refine .setWorker ?_ (Worker.closedBatches_recycle s.worker ▸ List.prefix_refl _)
      rcases Worker.recycle_cases s.worker with hsame | ⟨b, aborted, final, -, hrecycle⟩
      · have hflushed : s.worker.recycle.flushed = s.worker.flushed :=
          congrArg Worker.flushed hsame
        exact hflushed ▸ List.prefix_refl _
      · rw [hrecycle]
        exact List.prefix_append _ _
  | close =>
      rw [step]
      rcases Worker.close_cases s.worker with hclose | ⟨hc, hclose⟩
      · rw [hclose]
        exact .setStage rfl rfl
      · rw [hclose]
        exact .setStage rfl (closedBatches_setWaiting (.inr hc) false)

theorem extends_run (before after : List WorkerStep) :
    (run before).Extends (run (before ++ after)) := by
  have hrun : ∀ s : Session, s.Extends (after.foldl step s) := by
    induction after with
    | nil => exact Extends.refl
    | cons a after ih => exact fun s => (extends_step s a).trans (ih (s.step a))
  rw [run, run, List.foldl_append]
  exact hrun _

/-! ## Answered waits -/

/-- What became of a placed commitment: the worker is done with its batch, which was
saved or not, and the commitment is one of those that made up its entry. -/
structure Settled (s : Session) (p : Placed) (saved : Bool) : Prop where
  placed : p ∈ s.placed
  batch : ∃ f e, s.worker.flushed[p.batch]? = some f ∧ f.saved = saved ∧
    f.entries[p.entry]? = some e ∧ p.commitment ∈ s.commitmentsAt p.batch p.entry ∧
    coalesced (s.commitmentsAt p.batch p.entry) = some e

/-- The number of the batch in the hands of the consumer. -/
def InFlight (s : Session) (n : Nat) : Prop :=
  s.worker.inFlight?.isSome = true ∧ n = s.worker.flushed.length

/-- The worker gave up on a batch. -/
def Abandoned (s : Session) (n : Nat) : Prop :=
  ∃ f, s.worker.flushed[n]? = some f ∧ f.saved = false

theorem getElem?_batches_of_flushed {w : Worker} {n : Nat} {f : FlushedBatch}
    (h : w.flushed[n]? = some f) : w.batches[n]? = some f.entries := by
  have hlt := (List.getElem?_eq_some_iff.mp h).1
  rw [Worker.batches, Worker.closedBatches, List.append_assoc,
    List.getElem?_append_left (by simpa using hlt), List.getElem?_map, h]
  rfl

/-- A commitment in a batch that the worker is done with shares the fate of the batch. -/
theorem Faithful.settled (h : s.Faithful) {p : Placed} (hp : p ∈ s.placed) {f : FlushedBatch}
    (hf : s.worker.flushed[p.batch]? = some f) : s.Settled p f.saved := by
  obtain ⟨es, hes, hlt⟩ := h.located p hp
  have hbatch := getElem?_batches_of_flushed hf
  obtain rfl : f.entries = es := Option.some.inj (hbatch.symm.trans hes)
  have hentry := h.entries_eq p.batch f.entries p.entry hes
  rw [List.getElem?_eq_getElem hlt] at hentry
  refine ⟨hp, f, f.entries[p.entry], hf, rfl, List.getElem?_eq_getElem hlt, ?_, hentry.symm⟩
  apply List.mem_map_of_mem
  simpa using hp

/-- Something was placed in every batch that is not empty. -/
theorem Faithful.exists_placed (h : s.Faithful) {n : Nat} {es : List Commitment}
    (hes : s.worker.batches[n]? = some es) (hne : es ≠ []) : ∃ p ∈ s.placed, p.batch = n := by
  have hlt : 0 < es.length := List.length_pos_iff.mpr hne
  have hentry := h.entries_eq n es 0 hes
  rw [List.getElem?_eq_getElem hlt] at hentry
  cases hcs : s.commitmentsAt n 0 with
  | nil => rw [hcs] at hentry; cases hentry
  | cons c cs =>
      have hc : c ∈ s.commitmentsAt n 0 := by simp [hcs]
      obtain ⟨p, hp, -⟩ := List.mem_map.mp hc
      rw [List.mem_filter] at hp
      have hat : p.batch = n ∧ p.entry = 0 := by simpa using hp.2
      exact ⟨p, hp.1, hat.1⟩

/-- Everything placed before an answered wait was saved, unless it was in flight when
the waiter was asked for; that batch may be abandoned if the batch of the waiter is the
last one of its worker. -/
theorem settled_of_told (hs : s.Faithful) (ht : t.Faithful) (hst : s.Extends t)
    (hsd : s.worker.Dependable) (htd : t.worker.Dependable) {waiter : Waiter} {w : Worker}
    (hsync : s.worker.sync = some (waiter, w)) (htold : t.worker.fate? waiter = some true)
    {p : Placed} (hp : p ∈ s.placed) :
    t.Settled p true ∨ t.Settled p false ∧ s.InFlight p.batch ∧ t.worker.consumer = .ended := by
  have hrunning : s.worker.running = true := by
    by_contra hr
    simp [Worker.sync, hr] at hsync
  obtain ⟨b, hb, rfl, -⟩ := Worker.sync_eq_some hsync
  obtain ⟨g, hg, hgs⟩ := Option.map_eq_some_iff.mp htold
  dsimp only at hg
  have hopened : s.worker.opened < t.worker.flushed.length := (List.getElem?_eq_some_iff.mp hg).1
  have hle : p.batch ≤ s.worker.opened := by
    obtain ⟨es, hes, -⟩ := hs.located p hp
    have hlt := (List.getElem?_eq_some_iff.mp hes).1
    rw [Worker.batches_of_receiving hb, List.length_append, Worker.length_closedBatches,
      List.length_singleton] at hlt
    omega
  obtain ⟨f, hf⟩ : ∃ f, t.worker.flushed[p.batch]? = some f :=
    ⟨_, List.getElem?_eq_getElem (Nat.lt_of_le_of_lt hle hopened)⟩
  have hsettled := ht.settled (hst.placed.subset hp) hf
  cases hfs : f.saved with
  | true => exact .inl (hfs ▸ hsettled)
  | false =>
      right
      have hne : p.batch ≠ s.worker.opened := by
        intro heq
        rw [heq, hg, Option.some.injEq] at hf
        rw [← hf, hgs] at hfs
        cases hfs
      -- What the worker was done with at the time was saved, as it was still running.
      have hge : s.worker.flushed.length ≤ p.batch := by
        by_contra hlt
        have hlt := Nat.lt_of_not_le hlt
        have hearly := hsd.saved_of_running hrunning (List.getElem?_eq_getElem hlt)
        have hsame := List.prefix_iff_getElem?.mp hst.flushed p.batch hlt
        rw [hf, Option.some.injEq] at hsame
        rw [← hsame, hfs] at hearly
        cases hearly
      have hflight : s.InFlight p.batch := by
        rw [Worker.opened] at hle hne
        cases hin : s.worker.inFlight? with
        | none => simp [hin] at hle hne; omega
        | some b' => simp [hin] at hle hne; exact ⟨by simp [hin], by omega⟩
      refine ⟨hfs ▸ hsettled, hflight, ?_⟩
      have hlate := htd.abandoned_late p.batch f hf hfs
      have hdoubt : 2 ≤ t.worker.doubtful := by omega
      exact Worker.ended_of_doubtful hdoubt

/-- A batch that receives nothing any more stays as it is. -/
theorem Extends.getElem?_batches (h : s.Extends t) {n : Nat} (hn : n < s.worker.opened) :
    s.worker.batches[n]? = t.worker.batches[n]? := by
  have hlt : n < s.worker.closedBatches.length := by simpa using hn
  have hlater := List.prefix_iff_getElem?.mp h.closed n hlt
  have hlt' := (List.getElem?_eq_some_iff.mp hlater).1
  rw [Worker.batches, Worker.batches, List.getElem?_append_left hlt,
    List.getElem?_append_left hlt', hlater, List.getElem?_eq_getElem hlt]

end Session

/-- A wait of a producer: what went on before it asked for its waiter, and what went on
from then to a later moment. -/
structure Wait where
  before : List WorkerStep
  waiter : Waiter
  after : List WorkerStep

namespace Wait

/-- The state in which the waiter is asked for. -/
def asked (a : Wait) : Session := .run a.before

/-- The state at the later moment. -/
def later (a : Wait) : Session := .run (a.before ++ .sync :: a.after)

/-- The waiter was given out, and its batch saved by the later moment. -/
structure Answered (a : Wait) : Prop where
  persistent : Session.Persistent {} (a.before ++ .sync :: a.after)
  granted : a.asked.worker.sync.map (·.1) = some a.waiter
  told : a.later.worker.fate? a.waiter = some true

theorem Answered.settled {a : Wait} (h : a.Answered) {p : Placed} (hp : p ∈ a.asked.placed) :
    a.later.Settled p true ∨
      a.later.Settled p false ∧ a.asked.InFlight p.batch ∧ a.later.worker.consumer = .ended := by
  obtain ⟨⟨waiter, w⟩, hsync, hwaiter⟩ := Option.map_eq_some_iff.mp h.granted
  obtain rfl : waiter = a.waiter := hwaiter
  exact Session.settled_of_told (Session.faithful_run _) (Session.faithful_run _)
    (Session.extends_run a.before _)
    (Session.dependable_run (Session.persistent_append.mp h.persistent).1)
    (Session.dependable_run h.persistent) hsync h.told hp

/-- If a waiter is told that its batch was saved, everything placed before was saved as
well, except for the batch in flight when the waiter was asked for: that one was saved
unless the worker gave up on it, which it does only when it ends with the batch of the
waiter. -/
theorem saved_iff {a : Wait} (h : a.Answered) :
    (∀ p ∈ a.asked.placed, a.later.Settled p true ∨
      a.later.Settled p false ∧ a.asked.InFlight p.batch ∧
        a.later.worker.consumer = .ended) ∧
    ((∀ p ∈ a.asked.placed, a.later.Settled p true) ↔
      ∀ n, a.asked.InFlight n → ¬ a.later.Abandoned n) := by
  refine ⟨fun p hp => h.settled hp, ?_, ?_⟩
  · rintro hsaved n ⟨hin, rfl⟩ ⟨f, hf, hfs⟩
    have hs := Session.faithful_run a.before
    have hst := Session.extends_run a.before (.sync :: a.after)
    obtain ⟨b, hb⟩ := Option.isSome_iff_exists.mp hin
    have hopened : a.asked.worker.flushed.length < a.asked.worker.opened := by
      simp [Worker.opened, hb]
    -- The abandoned batch is the one that was in flight, and it was not empty.
    have hbatch := (hst.getElem?_batches hopened).trans (Session.getElem?_batches_of_flushed hf)
    have hne : f.entries ≠ [] := (Session.dependable_run h.persistent).abandoned_filled f
      (List.mem_of_getElem? hf) hfs
    obtain ⟨p, hp, hn⟩ := hs.exists_placed hbatch hne
    obtain ⟨g, e, hg, hgs, -⟩ := (hsaved p hp).batch
    rw [hn, hf, Option.some.injEq] at hg
    rw [← hg, hfs] at hgs
    cases hgs
  · intro hkept p hp
    rcases h.settled hp with hsaved | ⟨⟨-, f, e, hf, hfs, -⟩, hin, -⟩
    · exact hsaved
    · exact absurd ⟨f, hf, hfs⟩ (hkept p.batch hin)

end Wait

/-! ## A close between a flush and the next one -/

namespace Sample

/-- A new hero is put and its batch taken, and while the table refuses it a producer
waits for the next batch. -/
def heroWait (after : List WorkerStep) : Wait where
  before := [.start, .put (.snapshot (heroSnapshot .new .empty 1 1)) none, .expire, .poll]
  waiter := ⟨1⟩
  after

/-- The worker is closed, gives up on the batch it holds, and ends with an empty one. -/
def heroClosed : Wait :=
  heroWait [.close, .outcome false, .recycle, .close, .poll, .recycle]

/-- The table takes the batch before the worker is closed. -/
def heroTaken : Wait := heroWait [.outcome true, .recycle, .poll, .close, .recycle]

theorem answered_heroTaken : heroTaken.Answered where
  persistent := by simp [heroTaken, heroWait, Session.Persistent, Session.Allows]
  granted := rfl
  told := rfl

theorem answered_heroClosed : heroClosed.Answered where
  persistent := by
    simp [heroClosed, heroWait, Session.Persistent, Session.Allows]
    rfl
  granted := rfl
  told := rfl

theorem saved_heroTaken : heroTaken.Answered ∧
    ∀ p ∈ heroTaken.asked.placed, heroTaken.later.Settled p true := by
  refine ⟨answered_heroTaken, (Wait.saved_iff answered_heroTaken).2.mpr ?_⟩
  rintro n ⟨-, rfl⟩ ⟨f, hf, hfs⟩
  obtain rfl : _ = f := Option.some.inj hf
  cases hfs

/-- The waiter is told that all is well, and the new hero is lost. -/
theorem exists_answered_abandoned :
    ∃ a : Wait, a.Answered ∧
      Saver.outcome "hero" [(a.waiter, a.later.worker)] = .ok () ∧
      ∃ p ∈ a.asked.placed, a.later.Settled p false ∧ ¬ a.later.Settled p true := by
  have hplaced : (⟨0, .snapshot (heroSnapshot .new .empty 1 1), 0, 0⟩ : Placed) ∈
      heroClosed.later.placed := List.mem_singleton.mpr rfl
  refine ⟨heroClosed, answered_heroClosed, rfl, _, List.mem_singleton.mpr rfl, ?_, ?_⟩
  · exact (Session.faithful_run _).settled hplaced (f := ⟨_, false, _⟩) rfl
  · rintro ⟨-, f, e, hf, hfs, -⟩
    obtain rfl : _ = f := Option.some.inj hf
    cases hfs

end Sample

end WriteBehind
