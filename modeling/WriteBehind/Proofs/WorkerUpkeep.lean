import WriteBehind.Proofs.Journals
import WriteBehind.Proofs.SaverSteps

/-!
# What a worker keeps in order

A worker has a receiving batch, a flush deadline, spare batches and a switch, and each of its
steps touches some of them.  `Worker.Acts` lists what a step of a session can do to the worker,
and `Worker.Trim` is what all of it keeps: while the worker runs it receives, the deadline is
set exactly as long as something was received, and the spare batches are empty ones that nobody
else has (`Worker.Trim.acts`).  A worker that was closed stays closed once it had been started,
and takes nothing (`Worker.Acts.started`, `Worker.refuses_of_closed`).
-/

namespace WriteBehind

/-! ## Steps of a worker -/

/-- The steps that the consumer of a worker takes itself. -/
def Consumer.takes : Consumer → WorkerStep → Bool
  | .waiting, .poll | .saving _ _, .outcome _ | .recycling _ _ _, .recycle | .closing, .close =>
    true
  | _, _ => false

namespace Worker

/-- What a step of a session does to its worker. -/
inductive Acts (w : Worker) : WorkerStep → Worker → Prop where
  | start (hc : w.consumer = .resting) :
      Acts w .start { w with running := true, consumer := .waiting }
  | put {a : WorkerStep} {w' : Worker} {c : Commitment} {index : Option Nat} {i : Nat}
      (ha : w.consumer.takes a = false) (hput : w.put c index = .placed i w') : Acts w a w'
  | sync {b : Batch} (hb : w.receiving = some b) :
      Acts w .sync { w with receiving := some b.waiter.2 }
  | expire : Acts w .expire w.expire
  | poll : Acts w .poll w.poll
  | saved {b : Batch} {final ok : Bool} (hc : w.consumer = .saving b final) :
      Acts w (.outcome ok) (w.saved ok)
  | recycle : Acts w .recycle w.recycle
  | close : Acts w .close w.close
  | idle {a : WorkerStep} (ha : w.consumer.takes a = false) : Acts w a w

end Worker

theorem Consumer.takes_eq_false_of_producer (stage : Consumer) {a : WorkerStep}
    (ha : a = .start ∨ (∃ c index, a = .put c index) ∨ (∃ n, a = .retry n) ∨ a = .sync) :
    stage.takes a = false := by
  rcases ha with rfl | ⟨c, index, rfl⟩ | ⟨n, rfl⟩ | rfl <;> cases stage <;> rfl

namespace Session

theorem acts_attempt (s : Session) (call : Nat) (c : Commitment) (index : Option Nat)
    {a : WorkerStep} (ha : s.worker.consumer.takes a = false) :
    s.worker.Acts a (s.attempt call c index).worker := by
  rcases worker_attempt s call c index with hsame | ⟨i, hput⟩
  · rw [hsame]
    exact .idle ha
  · exact .put ha hput

theorem acts_step (s : Session) (a : WorkerStep) : s.worker.Acts a (s.step a).worker := by
  cases a with
  | start =>
      cases hc : s.worker.consumer with
      | resting =>
          have hstart : s.worker.start = { s.worker with running := true, consumer := .waiting } := by
            simp [Worker.start, hc]
          simp only [step, hc, hstart]
          exact .start hc
      | waiting | saving b final | recycling b aborted final | closing | ended =>
          simp only [step, hc]
          exact .idle (by rw [hc]; rfl)
  | put c index =>
      exact acts_attempt { s with calls := s.calls + 1 } s.calls c index
        (s.worker.consumer.takes_eq_false_of_producer (.inr (.inl ⟨c, index, rfl⟩)))
  | retry position =>
      have ha : s.worker.consumer.takes (.retry position) = false :=
        s.worker.consumer.takes_eq_false_of_producer (.inr (.inr (.inl ⟨position, rfl⟩)))
      cases hblocked : s.blocked[position]? with
      | none =>
          simp only [step, hblocked]
          exact .idle ha
      | some entry =>
          simp only [step, hblocked]
          exact acts_attempt { s with blocked := s.blocked.eraseIdx position } entry.1 entry.2
            none ha
  | sync =>
      cases hsync : s.worker.sync with
      | none =>
          simp only [step, hsync]
          exact .idle (s.worker.consumer.takes_eq_false_of_producer (.inr (.inr (.inr rfl))))
      | some asked =>
          obtain ⟨b, hb, -, hw⟩ := Worker.sync_eq_some hsync
          simp only [step, hsync, hw]
          exact .sync hb
  | expire => exact .expire
  | poll => exact .poll
  | outcome ok =>
      cases hc : s.worker.consumer with
      | saving b final =>
          simp only [step, hc]
          exact .saved hc
      | resting | waiting | recycling b aborted final | closing | ended =>
          simp only [step, hc]
          exact .idle (by rw [hc]; rfl)
  | recycle => exact .recycle
  | close => exact .close

/-- What each step of a session keeps, all that follow keep. -/
theorem foldl_keeps {P : Session → Prop} (hstep : ∀ s a, P s → P (s.step a)) {s : Session}
    (h : P s) (more : List WorkerStep) : P (more.foldl step s) := by
  induction more generalizing s with
  | nil => exact h
  | cons a more ih => exact ih (hstep s a h)

end Session

/-! ## Batches and deadlines -/

/-- A batch with nothing in it, which is not due and for which nobody waits. -/
structure Batch.Blank (b : Batch) : Prop where
  entries : b.entries = []
  overtime : b.overtime = false
  awaited : b.awaited = false

theorem Batch.blank_reset (b : Batch) (aborted : Bool) : (b.reset aborted).Blank :=
  ⟨rfl, rfl, rfl⟩

/-- A put leaves something in its batch, which stays the same buffer and no less due. -/
theorem Batch.put_keeps {b b' : Batch} {c : Commitment} {index : Option Nat} {i : Nat}
    (h : b.put c index = .ok (i, b')) :
    b'.entries ≠ [] ∧ b'.buffer = b.buffer ∧
      (b.consumable = true → b'.consumable = true) ∧ b'.overtime = b.overtime := by
  obtain ⟨hi, hgrow, -, -⟩ := Session.entries_put h
  have hfilled : b'.entries ≠ [] := List.ne_nil_of_length_pos (Nat.zero_lt_of_lt hi)
  have hsame : b'.buffer = b.buffer ∧ b'.overtime = b.overtime ∧ b'.awaited = b.awaited := by
    rcases Batch.put_eq_ok h with ⟨-, -, rfl⟩ | ⟨-, entry, merged, -, -, rfl⟩
    · exact ⟨rfl, rfl, rfl⟩
    · exact ⟨rfl, rfl, rfl⟩
  obtain ⟨hbuffer, hovertime, hawaited⟩ := hsame
  refine ⟨hfilled, hbuffer, ?_, hovertime⟩
  simp only [Batch.consumable, Batch.size, hovertime, hawaited, Bool.or_eq_true]
  intro hdue
  exact hdue.imp_left fun hdue => hdue.imp_left fun hfull =>
    decide_eq_true (Nat.le_trans (of_decide_eq_true hfull) hgrow)

namespace Worker

variable {w w' : Worker} {a : WorkerStep}

/-- The buffers of the batches that a worker has, the receiving one, the one in the hands of
the consumer, and the spare ones. -/
def buffersInUse (w : Worker) : List Nat :=
  (w.receiving.toList ++ (w.inFlight?.toList ++ w.spare)).map (·.buffer)

/-- What every step of a worker keeps. -/
structure Trim (w : Worker) : Prop where
  /-- A worker that runs or was not started yet receives. -/
  receives : w.running = true ∨ w.consumer = .resting → w.receiving.isSome = true
  /-- The flush deadline is set exactly as long as the receiving batch has entries. -/
  armed_iff : ∀ b, w.receiving = some b → (w.deadline ≠ .none ↔ b.entries ≠ [])
  spare_le : w.spare.length ≤ spareBatches
  spare_blank : ∀ b ∈ w.spare, b.Blank
  /-- No two of the batches share a buffer, -/
  apart : w.buffersInUse.Nodup
  /-- and a buffer that will be made is a new one. -/
  made : ∀ n ∈ w.buffersInUse, n < w.buffers

theorem trim_empty : ({} : Worker).Trim where
  receives _ := rfl
  armed_iff b hb := by
    obtain rfl : {} = b := Option.some.inj hb
    simp
  spare_le := Nat.zero_le _
  spare_blank b hb := by cases hb
  apart := by simp [buffersInUse, inFlight?]
  made := by simp [buffersInUse, inFlight?]

/-- Steps that leave the spare batches, the deadline and the buffers alone. -/
theorem Trim.congr (h : w.Trim) (hbuffers : w'.buffersInUse = w.buffersInUse)
    (hmade : w'.buffers = w.buffers) (hspare : w'.spare = w.spare)
    (hreceives : w'.running = true ∨ w'.consumer = .resting → w'.receiving.isSome = true)
    (harmed : ∀ b, w'.receiving = some b → (w'.deadline ≠ .none ↔ b.entries ≠ [])) :
    w'.Trim where
  receives := hreceives
  armed_iff := harmed
  spare_le := hspare ▸ h.spare_le
  spare_blank := hspare ▸ h.spare_blank
  apart := hbuffers ▸ h.apart
  made := by
    rw [hbuffers, hmade]
    exact h.made

theorem Trim.setReceiving (h : w.Trim) {b b' : Batch} (hb : w.receiving = some b)
    (hentries : b'.entries = b.entries) (hbuffer : b'.buffer = b.buffer) :
    ({ w with receiving := some b' } : Worker).Trim := by
  refine h.congr ?_ rfl rfl (fun _ => rfl) ?_
  · simp [buffersInUse, inFlight?, hb, hbuffer]
  · intro b'' hb''
    obtain rfl : b' = b'' := Option.some.inj hb''
    rw [hentries]
    exact h.armed_iff b hb

theorem Trim.put (h : w.Trim) {c : Commitment} {index : Option Nat} {i : Nat}
    (hput : w.put c index = .placed i w') : w'.Trim := by
  obtain ⟨b, b', hb, hok, rfl⟩ := put_eq_placed hput
  obtain ⟨hfilled, hbuffer, -, -⟩ := Batch.put_keeps hok
  refine h.congr ?_ rfl rfl (fun _ => rfl) ?_
  · simp [buffersInUse, inFlight?, hb, hbuffer]
  · intro b'' hb''
    obtain rfl : b' = b'' := Option.some.inj hb''
    refine iff_of_true ?_ hfilled
    dsimp only
    split
    · decide
    next hset => exact hset

theorem Trim.expire (h : w.Trim) : w.expire.Trim := by
  refine h.congr rfl rfl rfl h.receives ?_
  intro b hb
  rw [← h.armed_iff b hb]
  cases hd : w.deadline <;> simp [Worker.expire, hd]

theorem Trim.setStage (h : w.Trim) (running : Bool) {stage : Consumer}
    (hflight : ({ w with running, consumer := stage } : Worker).inFlight? = w.inFlight?)
    (hreceives : running = true ∨ stage = .resting → w.receiving.isSome = true) :
    ({ w with running, consumer := stage } : Worker).Trim := by
  refine h.congr ?_ rfl rfl hreceives h.armed_iff
  rw [buffersInUse, hflight]
  rfl

/-- What a fresh batch is, and where it comes from. -/
theorem freshBatch_cases (w : Worker) :
    (∃ b rest, w.spare = rest ++ [b] ∧ w.freshBatch = (b.serve, rest, w.buffers)) ∨
      w.spare = [] ∧ w.freshBatch = ({ buffer := w.buffers }, [], w.buffers + 1) := by
  cases hlast : w.spare.getLast? with
  | none => exact .inr ⟨List.getLast?_eq_none_iff.mp hlast, by simp [freshBatch, hlast]⟩
  | some b =>
      obtain ⟨rest, hrest⟩ := List.getLast?_eq_some_iff.mp hlast
      exact .inl ⟨b, rest, hrest, by simp [freshBatch, hrest]⟩

/-- A worker that receives into a fresh batch, with another one in the hands of its consumer. -/
def rotated (w : Worker) (b : Batch) : Worker :=
  { w with
    receiving := some w.freshBatch.1
    deadline := .none
    spare := w.freshBatch.2.1
    buffers := w.freshBatch.2.2
    consumer := take b false }

theorem buffersInUse_rotated (w : Worker) (b : Batch) :
    (w.rotated b).buffersInUse =
      w.freshBatch.1.buffer :: b.buffer :: w.freshBatch.2.1.map (·.buffer) := by
  have hflight : (w.rotated b).inFlight? = some b := inFlight?_of_take rfl
  rw [buffersInUse, hflight]
  rfl

theorem buffersInUse_of_waiting {b : Batch} (hc : w.consumer = .waiting)
    (hb : w.receiving = some b) : w.buffersInUse = b.buffer :: w.spare.map (·.buffer) := by
  simp [buffersInUse, inFlight?, hb, hc]

/-- A rotation takes the last spare batch, or makes a new one. -/
theorem Trim.rotate (h : w.Trim) {b b' : Batch} (hc : w.consumer = .waiting)
    (hb : w.receiving = some b) (hbuffer : b'.buffer = b.buffer) : (w.rotated b').Trim := by
  have hapart := h.apart
  have hmade := h.made
  rw [buffersInUse_of_waiting hc hb] at hapart hmade
  have hnew := w.buffersInUse_rotated b'
  rcases freshBatch_cases w with ⟨x, rest, hspare, hfresh⟩ | ⟨hspare, hfresh⟩
  · have hblank : x.Blank := h.spare_blank x (by simp [hspare])
    have hperm : (w.rotated b').buffersInUse.Perm (b.buffer :: w.spare.map (·.buffer)) := by
      rw [hnew, hfresh, hspare, hbuffer, List.map_append]
      exact (List.perm_append_singleton x.buffer (b.buffer :: rest.map (·.buffer))).symm
    have hfew := h.spare_le
    rw [hspare, List.length_append] at hfew
    refine ⟨fun _ => rfl, ?_, ?_, ?_, hperm.nodup_iff.mpr hapart, ?_⟩
    · intro y hy
      obtain rfl : w.freshBatch.1 = y := Option.some.inj hy
      rw [hfresh]
      exact iff_of_false (fun hset => hset rfl) fun hne => hne hblank.entries
    · rw [rotated, hfresh]
      exact Nat.le_of_succ_le hfew
    · rw [rotated, hfresh]
      exact fun y hy => h.spare_blank y (hspare ▸ List.mem_append_left [x] hy)
    · rw [rotated, hfresh]
      rw [rotated, hfresh] at hperm
      exact fun n hn => hmade n (hperm.subset hn)
  · have hlt : b.buffer < w.buffers := hmade _ List.mem_cons_self
    rw [hfresh, hbuffer] at hnew
    refine ⟨fun _ => rfl, ?_, ?_, ?_, ?_, ?_⟩
    · intro y hy
      obtain rfl : w.freshBatch.1 = y := Option.some.inj hy
      rw [hfresh]
      exact iff_of_false (fun hset => hset rfl) fun hne => hne rfl
    · rw [rotated, hfresh]
      exact Nat.zero_le _
    · rw [rotated, hfresh]
      exact nofun
    · rw [hnew]
      simpa using (Nat.ne_of_lt hlt).symm
    · rw [hnew, rotated, hfresh]
      intro n hn
      simp only [List.map_nil, List.mem_cons, List.not_mem_nil, or_false] at hn
      show n < w.buffers + 1
      omega

theorem take_ne_resting (b : Batch) (final : Bool) : take b final ≠ .resting := by
  cases hb : b.isEmpty with
  | true => simp [take, hb]
  | false => simp [take, hb]

theorem Trim.poll (h : w.Trim) : w.poll.Trim := by
  have hdue : ∀ b, (w.due b).buffer = b.buffer := by
    intro b
    rw [due]
    split <;> rfl
  rcases poll_cases w with hpoll | ⟨b, hb, hpoll⟩ | ⟨b, hc, -, hb, -, hpoll⟩ |
    ⟨b, hc, hr, hb, hpoll⟩ | ⟨hc, hr, hb, hpoll⟩
  · rw [hpoll]
    exact h
  · rw [hpoll]
    exact h.setReceiving hb (entries_due w b) (hdue b)
  · rw [hpoll]
    exact h.rotate hc hb (hdue b)
  · rw [hpoll]
    have hflight : ({ w with
        receiving := none, deadline := .none, consumer := take b.retire true }
          : Worker).inFlight? = some b.retire := inFlight?_of_take rfl
    refine h.congr ?_ rfl rfl ?_ ?_
    · rw [buffersInUse, hflight]
      simp [buffersInUse, inFlight?, hb, hc, Batch.retire]
    · rintro (hrun | hrest)
      · rw [hr] at hrun
        cases hrun
      · exact absurd hrest (take_ne_resting _ _)
    · intro b' hb'
      cases hb'
  · rw [hpoll]
    refine h.congr ?_ rfl rfl ?_ ?_
    · simp [buffersInUse, inFlight?, hb, hc]
    · rintro (hrun | hrest)
      · rw [hr] at hrun
        cases hrun
      · cases hrest
    · intro b' hb'
      cases hb'

theorem Trim.saved (h : w.Trim) {b : Batch} {final : Bool} (hc : w.consumer = .saving b final)
    (ok : Bool) : (w.saved ok).Trim := by
  rw [saved_of_saving hc]
  refine h.setStage w.running ?_ ?_
  · simp [inFlight?, hc]
  · rintro (hrun | hrest)
    · exact h.receives (.inl hrun)
    · cases hrest

/-- The batch of the consumer becomes a spare one, or there are enough of them. -/
theorem spare_recycle {b : Batch} {aborted final : Bool}
    (hc : w.consumer = .recycling b aborted final) :
    w.recycle.spare = w.spare ++ [b.reset aborted] ∧ w.spare.length < spareBatches ∨
      w.recycle.spare = w.spare := by
  by_cases hroom : w.spare.length < spareBatches
  · exact .inl ⟨by simp [recycle, hc, hroom], hroom⟩
  · exact .inr (by simp [recycle, hc, hroom])

theorem subperm_buffersInUse_recycle {b : Batch} {aborted final : Bool}
    (hc : w.consumer = .recycling b aborted final) :
    w.recycle.buffersInUse.Subperm w.buffersInUse := by
  have hflight : w.recycle.inFlight? = none := by
    cases final <;> cases aborted <;> simp [recycle, hc, inFlight?]
  have hold : w.buffersInUse =
      w.receiving.toList.map (·.buffer) ++ (b :: w.spare).map (·.buffer) := by
    simp [buffersInUse, inFlight?, hc]
  have hnew : w.recycle.buffersInUse =
      w.receiving.toList.map (·.buffer) ++ w.recycle.spare.map (·.buffer) := by
    simp [buffersInUse, hflight, receiving_recycle]
  rw [hold, hnew]
  rcases spare_recycle hc with ⟨hspare, -⟩ | hspare
  · have hperm : ((w.spare ++ [b.reset aborted]).map (·.buffer)).Perm
        ((b :: w.spare).map (·.buffer)) := by
      rw [List.map_append]
      exact List.perm_append_singleton b.buffer _
    rw [hspare]
    exact (hperm.append_left _).subperm
  · have hsublist := (List.sublist_cons_self b w.spare).map (·.buffer)
    rw [hspare]
    exact (hsublist.append_left _).subperm

theorem Trim.recycle (h : w.Trim) : w.recycle.Trim := by
  rcases recycle_cases w with hsame | ⟨b, aborted, final, hc, hrecycle⟩
  · rw [hsame]
    exact h
  · have hsub := subperm_buffersInUse_recycle hc
    have hrunning : w.recycle.running = w.running := by rw [hrecycle]
    have hdeadline : w.recycle.deadline = w.deadline := by rw [hrecycle]
    have hbuffers : w.recycle.buffers = w.buffers := by rw [hrecycle]
    have hstage : w.recycle.consumer ≠ .resting := by
      rw [hrecycle]
      cases final <;> cases aborted <;> exact Consumer.noConfusion
    refine ⟨?_, ?_, ?_, ?_, ?_, ?_⟩
    · rw [receiving_recycle, hrunning]
      exact fun hlive => h.receives (.inl (hlive.resolve_right hstage))
    · rw [receiving_recycle, hdeadline]
      exact h.armed_iff
    · rcases spare_recycle hc with ⟨hspare, hroom⟩ | hspare
      · rw [hspare, List.length_append]
        exact hroom
      · rw [hspare]
        exact h.spare_le
    · rcases spare_recycle hc with ⟨hspare, -⟩ | hspare
      · rw [hspare, List.forall_mem_append]
        exact ⟨h.spare_blank, List.forall_mem_singleton.mpr (b.blank_reset aborted)⟩
      · rw [hspare]
        exact h.spare_blank
    · obtain ⟨l, hperm, hl⟩ := hsub
      exact hperm.nodup_iff.mp (hl.nodup h.apart)
    · rw [hbuffers]
      exact fun n hn => h.made n (hsub.subset hn)

theorem Trim.close (h : w.Trim) : w.close.Trim := by
  have hreceives : ∀ stage : Consumer, (stage = .resting → w.consumer = .resting) →
      false = true ∨ stage = .resting → w.receiving.isSome = true := by
    rintro stage hstage (hrun | hrest)
    · cases hrun
    · exact h.receives (.inr (hstage hrest))
  rcases close_cases w with hclose | ⟨hc, hclose⟩
  · rw [hclose]
    exact h.setStage false rfl (hreceives _ id)
  · rw [hclose]
    exact h.setStage false (by simp [inFlight?, hc]) (hreceives _ nofun)

/-- Every step of a session keeps its worker in order. -/
theorem Trim.acts (h : w.Trim) (hacts : w.Acts a w') : w'.Trim := by
  cases hacts with
  | start hc =>
      exact h.setStage true (by simp [inFlight?, hc]) fun _ => h.receives (.inr hc)
  | put _ hput => exact h.put hput
  | sync hb => exact h.setReceiving hb rfl rfl
  | expire => exact h.expire
  | poll => exact h.poll
  | saved hc => exact h.saved hc _
  | recycle => exact h.recycle
  | close => exact h.close
  | idle _ => exact h

/-! ## Closed workers -/

/-- A worker that was closed takes nothing, and gives no waiter out. -/
theorem refuses_of_closed (h : w.running = false) :
    (∀ c index, w.put c index = .refused) ∧ w.sync = none := by
  constructor
  · intro c index
    simp [put, h]
  · simp [sync, h]

/-- A commitment has to wait only for a batch that is due. -/
theorem consumable_of_full {c : Commitment} {index : Option Nat} (h : w.put c index = .full) :
    ∃ b, w.receiving = some b ∧ b.consumable = true := by
  cases hr : w.running with
  | false => simp [put, hr] at h
  | true =>
      cases hb : w.receiving with
      | none => simp [put, hr, hb] at h
      | some b =>
          cases hput : b.put c index with
          | ok r => simp [put, hr, hb, hput] at h
          | error back =>
              have hfull := length_of_put_error hput
              exact ⟨b, rfl, by simp [Batch.consumable, Batch.size, hfull]⟩

/-- A worker whose consumer was started does not start again. -/
theorem Acts.started (hacts : w.Acts a w') (hc : w.consumer ≠ .resting) :
    w'.consumer ≠ .resting ∧ (w.running = false → w'.running = false) := by
  cases hacts with
  | start hrest => exact absurd hrest hc
  | put _ hput =>
      obtain ⟨b, b', -, -, rfl⟩ := put_eq_placed hput
      exact ⟨hc, id⟩
  | sync hb => exact ⟨hc, id⟩
  | expire => exact ⟨hc, id⟩
  | poll =>
      rcases poll_cases w with hpoll | ⟨b, -, hpoll⟩ | ⟨b, -, -, -, -, hpoll⟩ |
        ⟨b, -, -, -, hpoll⟩ | ⟨-, -, -, hpoll⟩
      · rw [hpoll]
        exact ⟨hc, id⟩
      · rw [hpoll]
        exact ⟨hc, id⟩
      · rw [hpoll]
        exact ⟨take_ne_resting _ _, id⟩
      · rw [hpoll]
        exact ⟨take_ne_resting _ _, id⟩
      · rw [hpoll]
        exact ⟨nofun, id⟩
  | saved hsaving =>
      rw [saved_of_saving hsaving]
      exact ⟨nofun, id⟩
  | recycle =>
      rcases recycle_cases w with hsame | ⟨b, aborted, final, -, hrecycle⟩
      · rw [hsame]
        exact ⟨hc, id⟩
      · rw [hrecycle]
        refine ⟨?_, id⟩
        cases final <;> cases aborted <;> nofun
  | close =>
      rcases close_cases w with hclose | ⟨-, hclose⟩
      · rw [hclose]
        exact ⟨hc, fun _ => rfl⟩
      · rw [hclose]
        exact ⟨nofun, fun _ => rfl⟩
  | idle _ => exact ⟨hc, id⟩

end Worker

end WriteBehind
