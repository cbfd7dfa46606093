import WriteBehind.Worker

/-!
# The batches that a worker opened

`Worker.batches` lists what stands in the batches of a worker, in the order they were
opened: those it is done with, the one in the hands of its consumer, and the
receiving one.  A put changes the last of them, a rotation opens an empty one behind
it, and no other step touches the list.  `Worker.Orderly` collects what holds of
every worker that was only ever stepped: spare batches are empty, a batch is handed
to the table only if it has entries, no batch is too large, and once the final batch
was taken there is no receiving one.
-/

namespace WriteBehind

/-- Whether the consumer has taken the final batch. -/
def Consumer.isFinal : Consumer → Bool
  | .saving _ final | .recycling _ _ final => final
  | .ended => true
  | .resting | .waiting | .closing => false

namespace Worker

/-- The entries of the batches that receive nothing any more, in the order the
batches were opened. -/
def closedBatches (w : Worker) : List (List Commitment) :=
  w.flushed.map (·.entries) ++ w.inFlight?.toList.map (·.entries)

/-- The entries of all batches, in the order the batches were opened. -/
def batches (w : Worker) : List (List Commitment) :=
  w.closedBatches ++ w.receiving.toList.map (·.entries)

/-- The number of batches that need no table any more. -/
def settled (w : Worker) : Nat :=
  w.flushed.length +
    match w.consumer with
    | .recycling _ _ _ => 1
    | _ => 0

/-- What every worker keeps to. -/
structure Orderly (w : Worker) : Prop where
  spare_empty : ∀ b ∈ w.spare, b.entries = []
  saving_filled : ∀ b final, w.consumer = .saving b final → b.entries ≠ []
  bounded : ∀ es ∈ w.batches, es.length ≤ batchSize
  final_gone : w.consumer.isFinal = true → w.receiving = none

@[simp] theorem length_closedBatches (w : Worker) : w.closedBatches.length = w.opened := by
  cases hf : w.inFlight? with
  | none => simp [closedBatches, opened, hf]
  | some b => simp [closedBatches, opened, hf]

theorem length_flushed_le_settled (w : Worker) : w.flushed.length ≤ w.settled :=
  Nat.le_add_right _ _

theorem settled_le_opened (w : Worker) : w.settled ≤ w.opened := by
  cases hc : w.consumer with
  | saving b final => simp [settled, opened, inFlight?, hc]
  | recycling b aborted final => simp [settled, opened, inFlight?, hc]
  | resting | waiting | closing | ended => simp [settled, hc, opened]

theorem batches_of_receiving {w : Worker} {b : Batch} (h : w.receiving = some b) :
    w.batches = w.closedBatches ++ [b.entries] := by
  simp [batches, h]

theorem getElem?_closedBatches_concat (w : Worker) (es : List Commitment) (n : Nat) :
    (w.closedBatches ++ [es])[n]? = if n = w.opened then some es else w.closedBatches[n]? := by
  by_cases hn : n = w.opened
  · rw [if_pos hn, hn, List.getElem?_append_right (by simp)]
    simp
  · rw [if_neg hn]
    by_cases hlt : n < w.opened
    · exact List.getElem?_append_left (by simpa using hlt)
    · have hover : w.opened < n := by omega
      rw [List.getElem?_eq_none (by simp; omega), List.getElem?_eq_none (by simp; omega)]

theorem batches_of_receiving_none {w : Worker} (h : w.receiving = none) :
    w.batches = w.closedBatches := by
  simp [batches, h]

theorem orderly_empty : ({} : Worker).Orderly where
  spare_empty := by simp
  saving_filled := by intro b final h; cases h
  bounded := by
    intro es hes
    have hnil : es = [] := by simpa [batches, closedBatches, inFlight?] using hes
    rw [hnil]
    exact Nat.zero_le _
  final_gone := by intro h; cases h

/-! ## Puts -/

/-- A placed commitment went into the receiving batch, and no other batch has
changed. -/
theorem put_eq_placed {w w' : Worker} {c : Commitment} {index : Option Nat} {i : Nat}
    (h : w.put c index = .placed i w') :
    ∃ b b', w.receiving = some b ∧ b.put c index = .ok (i, b') ∧
      w' = { w with
        receiving := some b'
        deadline := if w.deadline = .none then .armed else w.deadline } := by
  cases hr : w.running with
  | false => simp [put, hr] at h
  | true =>
      cases hb : w.receiving with
      | none => simp [put, hr, hb] at h
      | some b =>
          cases hput : b.put c index with
          | error e => simp [put, hr, hb, hput] at h
          | ok r =>
              obtain ⟨j, b'⟩ := r
              simp only [put, hr, hb, hput, Placement.placed.injEq] at h
              obtain ⟨rfl, rfl⟩ := h
              exact ⟨b, b', rfl, hput, rfl⟩

theorem length_entries_put {b b' : Batch} {c : Commitment} {index : Option Nat} {i : Nat}
    (h : b.put c index = .ok (i, b')) (hb : b.entries.length ≤ batchSize) :
    b'.entries.length ≤ batchSize := by
  rcases Batch.put_eq_ok h with ⟨hlt, -, rfl⟩ | ⟨-, entry, merged, -, -, rfl⟩
  · rw [List.length_append]
    exact hlt
  · rw [List.length_set]
    exact hb

theorem Orderly.put {w w' : Worker} {c : Commitment} {index : Option Nat} {i : Nat}
    (hw : w.Orderly) (h : w.put c index = .placed i w') : w'.Orderly := by
  obtain ⟨b, b', hb, hput, rfl⟩ := put_eq_placed h
  refine ⟨hw.spare_empty, hw.saving_filled, ?_, ?_⟩
  · intro es hes
    have hbatches := hw.bounded
    rw [batches_of_receiving hb] at hbatches
    rcases List.mem_append.mp hes with hes | hes
    · exact hbatches es (List.mem_append_left _ hes)
    · obtain rfl : es = b'.entries := by simpa using hes
      exact length_entries_put hput (hbatches b.entries (by simp))
  · intro hfinal
    have hnone := hw.final_gone hfinal
    rw [hb] at hnone
    cases hnone

/-! ## Steps that leave the batches alone -/

section Receiving

variable {w : Worker} {b b' : Batch}

theorem batches_setReceiving (hb : w.receiving = some b) (he : b'.entries = b.entries) :
    ({ w with receiving := some b' } : Worker).batches = w.batches := by
  rw [batches_of_receiving hb, ← he]
  rfl

theorem Orderly.setReceiving (hw : w.Orderly) (hb : w.receiving = some b)
    (he : b'.entries = b.entries) :
    ({ w with receiving := some b' } : Worker).Orderly := by
  refine ⟨hw.spare_empty, hw.saving_filled, ?_, ?_⟩
  · rw [batches_setReceiving hb he]
    exact hw.bounded
  · intro hfinal
    have hnone := hw.final_gone hfinal
    rw [hb] at hnone
    cases hnone

end Receiving

theorem sync_eq_some {w w' : Worker} {waiter : Waiter} (h : w.sync = some (waiter, w')) :
    ∃ b, w.receiving = some b ∧ waiter = ⟨w.opened⟩ ∧
      w' = { w with receiving := some b.waiter.2 } := by
  cases hr : w.running with
  | false => simp [sync, hr] at h
  | true =>
      cases hb : w.receiving with
      | none => simp [sync, hr, hb] at h
      | some b =>
          simp only [sync, hr, hb, Option.some.injEq, Prod.mk.injEq] at h
          obtain ⟨rfl, rfl⟩ := h
          exact ⟨b, rfl, rfl, rfl⟩

theorem Orderly.expire {w : Worker} (hw : w.Orderly) : w.expire.Orderly :=
  ⟨hw.spare_empty, hw.saving_filled, hw.bounded, hw.final_gone⟩

theorem Orderly.setRunning {w : Worker} (hw : w.Orderly) (running : Bool) :
    ({ w with running } : Worker).Orderly :=
  ⟨hw.spare_empty, hw.saving_filled, hw.bounded, hw.final_gone⟩

section Idle

variable {w : Worker} (hc : w.consumer = .resting ∨ w.consumer = .closing) (running : Bool)

include hc

theorem batches_setWaiting :
    ({ w with running, consumer := .waiting } : Worker).batches = w.batches := by
  rcases hc with hc | hc
  · simp [batches, closedBatches, inFlight?, hc]
  · simp [batches, closedBatches, inFlight?, hc]

theorem Orderly.setWaiting (hw : w.Orderly) :
    ({ w with running, consumer := .waiting } : Worker).Orderly := by
  refine ⟨hw.spare_empty, ?_, ?_, ?_⟩
  · intro b final hstage
    cases hstage
  · rw [batches_setWaiting hc]
    exact hw.bounded
  · intro hfinal
    cases hfinal

end Idle

/-- A closed worker goes on with what it does, unless it abandoned a batch. -/
theorem close_cases (w : Worker) :
    w.close = { w with running := false } ∨
      w.consumer = .closing ∧ w.close = { w with running := false, consumer := .waiting } := by
  cases hc : w.consumer with
  | closing =>
      right
      exact ⟨rfl, by simp [close, hc]⟩
  | resting | waiting | saving b final | recycling b aborted final | ended =>
      left
      simp [close, hc]

/-! ## Rotations -/

@[simp] theorem entries_due (w : Worker) (b : Batch) : (w.due b).entries = b.entries := by
  rw [due]
  split
  · rfl
  · rfl

theorem closedBatches_of_take {w : Worker} {b : Batch} {final : Bool}
    (h : w.consumer = take b final) :
    w.closedBatches = w.flushed.map (·.entries) ++ [b.entries] := by
  cases hb : b.isEmpty with
  | true => simp [closedBatches, inFlight?, h, take, hb]
  | false => simp [closedBatches, inFlight?, h, take, hb]

theorem isFinal_take (b : Batch) (final : Bool) : (take b final).isFinal = final := by
  cases hb : b.isEmpty with
  | true => simp [take, hb, Consumer.isFinal]
  | false => simp [take, hb, Consumer.isFinal]

theorem entries_of_take_eq_saving {b c : Batch} {final final' : Bool}
    (h : take b final = .saving c final') : c.entries ≠ [] := by
  cases hb : b.isEmpty with
  | true => simp [take, hb] at h
  | false =>
      simp only [take, hb, Bool.false_eq_true, if_false, Consumer.saving.injEq] at h
      obtain ⟨rfl, -⟩ := h
      simpa [Batch.isEmpty] using hb

/-- A fresh batch is an emptied one or a new one. -/
theorem freshBatch_spec {w : Worker} (hw : ∀ b ∈ w.spare, b.entries = []) :
    w.freshBatch.1.entries = [] ∧ ∀ b ∈ w.freshBatch.2.1, b.entries = [] := by
  cases hlast : w.spare.getLast? with
  | none => simp [freshBatch, hlast]
  | some b =>
      have hmem : b ∈ w.spare := List.mem_of_getLast? hlast
      constructor
      · simpa [freshBatch, hlast, Batch.serve] using hw b hmem
      · intro c hc
        simp only [freshBatch, hlast] at hc
        exact hw c (List.dropLast_subset _ hc)

/-- What a poll can do: nothing but mark the receiving batch, rotate the batches, take
the final batch, or end. -/
theorem poll_cases (w : Worker) :
    w.poll = w ∨
    (∃ b, w.receiving = some b ∧ w.poll = { w with receiving := some (w.due b) }) ∨
    (∃ b, w.consumer = .waiting ∧ w.running = true ∧ w.receiving = some b ∧
      (w.due b).consumable = true ∧
      w.poll = { w with
        receiving := some w.freshBatch.1
        deadline := .none
        spare := w.freshBatch.2.1
        buffers := w.freshBatch.2.2
        consumer := take (w.due b).retire false }) ∨
    (∃ b, w.consumer = .waiting ∧ w.running = false ∧ w.receiving = some b ∧
      w.poll = { w with
        receiving := none, deadline := .none, consumer := take b.retire true }) ∨
    (w.consumer = .waiting ∧ w.running = false ∧ w.receiving = none ∧
      w.poll = { w with receiving := none, deadline := .none, consumer := .ended }) := by
  cases hc : w.consumer with
  | resting | saving b final | recycling b aborted final | closing | ended =>
      left
      simp [poll, hc]
  | waiting =>
      cases hr : w.running with
      | true =>
          cases hb : w.receiving with
          | none =>
              left
              simp [poll, hc, hr, hb]
          | some b =>
              right
              cases hd : (w.due b).consumable with
              | true =>
                  right
                  left
                  exact ⟨b, rfl, rfl, rfl, hd, by simp [poll, hc, hr, hb, hd]⟩
              | false =>
                  left
                  exact ⟨b, rfl, by simp [poll, hc, hr, hb, hd]⟩
      | false =>
          right
          right
          right
          cases hb : w.receiving with
          | none =>
              right
              exact ⟨rfl, rfl, rfl, by simp [poll, hc, hr, hb]⟩
          | some b =>
              left
              exact ⟨b, rfl, rfl, rfl, by simp [poll, hc, hr, hb]⟩

theorem closedBatches_of_waiting {w : Worker} (h : w.consumer = .waiting) :
    w.closedBatches = w.flushed.map (·.entries) ∧ w.settled = w.flushed.length := by
  simp [closedBatches, settled, inFlight?, h]

/-- A poll may open one more batch. -/
theorem batches_poll {w : Worker} (hw : w.Orderly) :
    w.poll.batches = w.batches ∨ w.poll.batches = w.batches ++ [[]] := by
  rcases poll_cases w with hpoll | ⟨b, hb, hpoll⟩ | ⟨b, hc, -, hb, -, hpoll⟩ |
    ⟨b, hc, -, hb, hpoll⟩ | ⟨hc, -, hb, hpoll⟩
  · left
    rw [hpoll]
  · left
    rw [hpoll]
    exact batches_setReceiving hb (entries_due w b)
  · right
    have hfresh := (freshBatch_spec hw.spare_empty).1
    rw [hpoll, batches_of_receiving hb, batches, closedBatches_of_take rfl,
      (closedBatches_of_waiting hc).1]
    simp [hfresh, Batch.retire]
  · left
    rw [hpoll, batches_of_receiving hb, batches, closedBatches_of_take rfl,
      (closedBatches_of_waiting hc).1]
    simp [Batch.retire]
  · left
    rw [hpoll, batches_of_receiving_none hb, (closedBatches_of_waiting hc).1]
    simp [batches, closedBatches, inFlight?]

theorem Orderly.poll {w : Worker} (hw : w.Orderly) : w.poll.Orderly := by
  have hbounded : ∀ es ∈ w.poll.batches, es.length ≤ batchSize := by
    intro es hes
    rcases batches_poll hw with hsame | hmore
    · exact hw.bounded es (hsame ▸ hes)
    · rw [hmore] at hes
      rcases List.mem_append.mp hes with hes | hes
      · exact hw.bounded es hes
      · rw [List.mem_singleton.mp hes]
        exact Nat.zero_le _
  rcases poll_cases w with hpoll | ⟨b, hb, hpoll⟩ | ⟨b, hc, -, hb, -, hpoll⟩ |
    ⟨b, hc, -, hb, hpoll⟩ | ⟨hc, -, hb, hpoll⟩
  · rw [hpoll]
    exact hw
  · rw [hpoll]
    exact hw.setReceiving hb (entries_due w b)
  · rw [hpoll] at hbounded ⊢
    refine ⟨(freshBatch_spec hw.spare_empty).2, ?_, hbounded, ?_⟩
    · intro c final htake
      exact entries_of_take_eq_saving htake
    · intro hfinal
      rw [isFinal_take] at hfinal
      cases hfinal
  · rw [hpoll] at hbounded ⊢
    refine ⟨hw.spare_empty, ?_, hbounded, fun _ => rfl⟩
    intro c final htake
    exact entries_of_take_eq_saving htake
  · rw [hpoll] at hbounded ⊢
    refine ⟨hw.spare_empty, ?_, hbounded, fun _ => rfl⟩
    intro c final hended
    cases hended

/-! ## Batches and the table -/

/-- The batches that the table was given, with their numbers: those that need no table
any more, unless they are empty. -/
def delivered (w : Worker) : List (List Commitment × Nat) :=
  (w.closedBatches.take w.settled).zipIdx.filter fun e => !e.1.isEmpty

theorem delivered_setWaiting {w : Worker} (hc : w.consumer = .resting ∨ w.consumer = .closing)
    (running : Bool) :
    ({ w with running, consumer := .waiting } : Worker).delivered = w.delivered := by
  rcases hc with hc | hc
  · simp [delivered, closedBatches, settled, inFlight?, hc]
  · simp [delivered, closedBatches, settled, inFlight?, hc]

theorem delivered_of_waiting {w : Worker} (h : w.consumer = .waiting ∨ w.consumer = .ended) :
    w.delivered = (w.flushed.map (·.entries)).zipIdx.filter fun e => !e.1.isEmpty := by
  have hclosed : w.closedBatches = w.flushed.map (·.entries) := by
    rcases h with h | h <;> simp [closedBatches, inFlight?, h]
  have hsettled : w.settled = w.flushed.length := by
    rcases h with h | h <;> simp [settled, h]
  rw [delivered, hclosed, hsettled, List.take_of_length_le (by simp)]

theorem delivered_of_take {w : Worker} {b : Batch} {final : Bool}
    (h : w.consumer = take b final) :
    w.delivered = (w.flushed.map (·.entries)).zipIdx.filter fun e => !e.1.isEmpty := by
  rw [delivered, closedBatches_of_take h]
  cases hb : b.isEmpty with
  | true =>
      have hnil : b.entries = [] := by simpa [Batch.isEmpty] using hb
      have hsettled : w.settled = w.flushed.length + 1 := by simp [settled, h, take, hb]
      rw [hsettled, hnil, List.take_of_length_le (by simp), List.zipIdx_append]
      simp
  | false =>
      have hsettled : w.settled = w.flushed.length := by simp [settled, h, take, hb]
      rw [hsettled, List.take_left' (by simp)]

theorem delivered_poll (w : Worker) : w.poll.delivered = w.delivered := by
  rcases poll_cases w with hpoll | ⟨b, hb, hpoll⟩ | ⟨b, hc, -, hb, -, hpoll⟩ |
    ⟨b, hc, -, hb, hpoll⟩ | ⟨hc, -, hb, hpoll⟩
  · rw [hpoll]
  · rw [hpoll]
    rfl
  · rw [hpoll, delivered_of_take rfl, delivered_of_waiting (.inl hc)]
  · rw [hpoll, delivered_of_take rfl, delivered_of_waiting (.inl hc)]
  · rw [hpoll, delivered_of_waiting (.inr rfl), delivered_of_waiting (.inl hc)]

/-- With the outcome of the table its batch is delivered. -/
theorem delivered_saved {w : Worker} (hw : w.Orderly) {b : Batch} {final : Bool}
    (h : w.consumer = .saving b final) (ok : Bool) :
    (w.saved ok).delivered = w.delivered ++ [(b.entries, w.flushed.length)] := by
  have hfilled : b.entries ≠ [] := hw.saving_filled b final h
  have hsaved : w.saved ok = { w with consumer := .recycling b (!ok) final } := by
    simp [saved, h]
  have hbefore : w.delivered =
      (w.flushed.map (·.entries)).zipIdx.filter fun e => !e.1.isEmpty := by
    simp [delivered, closedBatches, settled, inFlight?, h, List.take_left']
  have hafter : ({ w with consumer := .recycling b (!ok) final } : Worker).delivered =
      (w.flushed.map (·.entries) ++ [b.entries]).zipIdx.filter fun e => !e.1.isEmpty := by
    simp [delivered, closedBatches, settled, inFlight?, List.take_of_length_le]
  rw [hsaved, hafter, hbefore, List.zipIdx_append]
  simp [hfilled]

theorem batches_saved {w : Worker} {b : Batch} {final : Bool}
    (h : w.consumer = .saving b final) (ok : Bool) : (w.saved ok).batches = w.batches := by
  simp [batches, closedBatches, inFlight?, saved, h]

theorem Orderly.saved {w : Worker} (hw : w.Orderly) {b : Batch} {final : Bool}
    (h : w.consumer = .saving b final) (ok : Bool) : (w.saved ok).Orderly := by
  have hbounded := hw.bounded
  rw [← batches_saved h ok] at hbounded
  have hsaved : w.saved ok = { w with consumer := .recycling b (!ok) final } := by
    simp [Worker.saved, h]
  rw [hsaved] at hbounded ⊢
  refine ⟨hw.spare_empty, ?_, hbounded, ?_⟩
  · intro c final' hstage
    cases hstage
  · intro hfinal
    exact hw.final_gone (by rw [h]; exact hfinal)

theorem recycle_cases (w : Worker) :
    w.recycle = w ∨ ∃ b aborted final, w.consumer = .recycling b aborted final ∧
      w.recycle = { w with
        spare := if w.spare.length < spareBatches then w.spare ++ [b.reset aborted] else w.spare
        flushed := w.flushed ++ [⟨b.entries, !aborted, (b.reset aborted).journal⟩]
        consumer := if final then .ended else if aborted then .closing else .waiting } := by
  cases hc : w.consumer with
  | recycling b aborted final =>
      right
      exact ⟨b, aborted, final, rfl, by simp [recycle, hc]⟩
  | resting | waiting | saving b final | closing | ended =>
      left
      simp [recycle, hc]

theorem closedBatches_recycle (w : Worker) : w.recycle.closedBatches = w.closedBatches := by
  rcases recycle_cases w with hsame | ⟨b, aborted, final, hc, hrecycle⟩
  · rw [hsame]
  · rw [hrecycle]
    cases final <;> cases aborted <;> simp [closedBatches, inFlight?, hc]

theorem settled_recycle (w : Worker) : w.recycle.settled = w.settled := by
  rcases recycle_cases w with hsame | ⟨b, aborted, final, hc, hrecycle⟩
  · rw [hsame]
  · rw [hrecycle]
    cases final <;> cases aborted <;> simp [settled, hc]

theorem receiving_recycle (w : Worker) : w.recycle.receiving = w.receiving := by
  rcases recycle_cases w with hsame | ⟨b, aborted, final, -, hrecycle⟩
  · rw [hsame]
  · rw [hrecycle]

theorem batches_recycle (w : Worker) : w.recycle.batches = w.batches := by
  rw [batches, batches, closedBatches_recycle, receiving_recycle]

theorem delivered_recycle (w : Worker) : w.recycle.delivered = w.delivered := by
  rw [delivered, delivered, closedBatches_recycle, settled_recycle]

theorem Orderly.recycle {w : Worker} (hw : w.Orderly) : w.recycle.Orderly := by
  have hbounded := hw.bounded
  rw [← batches_recycle w] at hbounded
  rcases recycle_cases w with hsame | ⟨b, aborted, final, hc, hrecycle⟩
  · rw [hsame]
    exact hw
  · rw [hrecycle] at hbounded ⊢
    refine ⟨?_, ?_, hbounded, ?_⟩
    · intro c hmem
      dsimp only at hmem
      split at hmem
      · rcases List.mem_append.mp hmem with hmem | hmem
        · exact hw.spare_empty c hmem
        · rw [List.mem_singleton.mp hmem]
          rfl
      · exact hw.spare_empty c hmem
    · intro c final' hstage
      cases final <;> cases aborted <;> cases hstage
    · intro hfinal
      apply hw.final_gone
      rw [hc]
      cases final with
      | true => rfl
      | false => cases aborted <;> cases hfinal

/-! ## Reading the list of deliveries -/

theorem mem_delivered {w : Worker} {es : List Commitment} {n : Nat} :
    (es, n) ∈ w.delivered ↔ n < w.settled ∧ w.batches[n]? = some es ∧ es ≠ [] := by
  have hlookup : ∀ n, n < w.settled → (w.closedBatches.take w.settled)[n]? = w.batches[n]? := by
    intro n hn
    rw [List.getElem?_take_of_lt hn, batches, List.getElem?_append_left]
    rw [length_closedBatches]
    exact Nat.lt_of_lt_of_le hn (settled_le_opened w)
  rw [delivered, List.mem_filter, List.mem_zipIdx_iff_getElem?]
  constructor
  · rintro ⟨hget, hfilled⟩
    have hn : n < w.settled := by
      have hlt := (List.getElem?_eq_some_iff.mp hget).1
      rw [List.length_take] at hlt
      exact Nat.lt_of_lt_of_le hlt (Nat.min_le_left _ _)
    exact ⟨hn, hlookup n hn ▸ hget, by simpa using hfilled⟩
  · rintro ⟨hn, hget, hfilled⟩
    exact ⟨(hlookup n hn).trans hget, by simpa using hfilled⟩

theorem pairwise_delivered (w : Worker) : w.delivered.Pairwise fun a b => a.2 < b.2 := by
  have hall : (w.closedBatches.take w.settled).zipIdx.Pairwise fun a b => a.2 < b.2 := by
    rw [← List.pairwise_map (f := Prod.snd) (R := (· < ·)), List.zipIdx_map_snd]
    exact List.pairwise_lt_range'
  exact hall.filter _

/-- A batch still receives, is in the hands of the consumer, or the worker is done with
it. -/
theorem batch_cases {w : Worker} {es : List Commitment} {n : Nat}
    (h : w.batches[n]? = some es) :
    (n = w.opened ∧ ∃ b, w.receiving = some b ∧ b.entries = es) ∨
    (n = w.flushed.length ∧ ∃ b, w.inFlight? = some b ∧ b.entries = es) ∨
    n < w.flushed.length := by
  by_cases hclosed : n < w.opened
  · right
    rw [batches, List.getElem?_append_left (by simpa using hclosed), closedBatches] at h
    by_cases hflushed : n < w.flushed.length
    · exact .inr hflushed
    · left
      rw [List.getElem?_append_right (by simpa using hflushed), List.length_map] at h
      cases hf : w.inFlight? with
      | none => simp [opened, hf] at hclosed; exact absurd hclosed hflushed
      | some b =>
          have hn : n = w.flushed.length := by
            simp [opened, hf] at hclosed
            omega
          refine ⟨hn, b, rfl, ?_⟩
          simpa [hn, hf] using h
  · left
    rw [batches, List.getElem?_append_right (by simpa using hclosed), length_closedBatches] at h
    cases hr : w.receiving with
    | none => simp [hr] at h
    | some b =>
        have hlt := (List.getElem?_eq_some_iff.mp h).1
        have hn : n = w.opened := by
          simp [hr] at hlt
          omega
        refine ⟨hn, b, rfl, ?_⟩
        simpa [hn, hr] using h

end Worker

end WriteBehind
