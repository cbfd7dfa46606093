import WriteBehind.Batch

/-!
# Workers

A worker owns a receiving batch, which producers fill, and a consumer, which
hands one batch at a time to a table.  Each function here is one atomic step of
a producer, of the consumer, of the clock or of whoever closes the worker, and
any order of steps is possible.  A batch is due when it is full, when someone
waits for it, or when the flush deadline set by its first commitment has passed.
Batches that were emptied are kept for reuse, two of them at most.
-/

namespace WriteBehind

/-- The number of emptied batches that a worker keeps. -/
def spareBatches : Nat := 2

/-- The flush deadline of a receiving batch. -/
inductive Deadline where
  | none
  | armed
  | passed
deriving DecidableEq, Repr

/-- What the consumer of a worker does next. -/
inductive Consumer where
  /-- No consumer runs. -/
  | resting
  /-- It looks for a batch that is due. -/
  | waiting
  /-- It hands a batch to the table; after the final batch it ends. -/
  | saving (batch : Batch) (final : Bool)
  /-- It empties a batch that was saved or abandoned. -/
  | recycling (batch : Batch) (aborted final : Bool)
  /-- It closes the worker, having abandoned a batch. -/
  | closing
  | ended

/-- A batch as a worker left it. -/
structure FlushedBatch where
  entries : List Commitment
  saved : Bool
  journal : JournalFile

/-- A worker. -/
structure Worker where
  running : Bool := false
  receiving : Option Batch := some {}
  deadline : Deadline := .none
  spare : List Batch := []
  consumer : Consumer := .resting
  /-- The batches that the worker is done with, in the order they were opened. -/
  flushed : List FlushedBatch := []
  /-- The number of buffers made so far. -/
  buffers : Nat := 1

/-- What becomes of a commitment handed to a worker. -/
inductive Placement where
  /-- It is in the receiving batch, at this index. -/
  | placed (index : Nat) (worker : Worker)
  /-- The receiving batch is full, the producer waits for the next one. -/
  | full
  /-- The worker is closed and drops it. -/
  | refused

namespace Worker

/-! ## Producers -/

/-- A producer puts a commitment into the receiving batch. -/
def put (w : Worker) (c : Commitment) (index : Option Nat) : Placement :=
  match w.running, w.receiving with
  | true, some batch =>
    match batch.put c index with
    | .ok (i, batch) =>
      .placed i { w with
        receiving := some batch
        deadline := if w.deadline = .none then .armed else w.deadline }
    | .error _ => .full
  | _, _ => .refused

/-- The batch in the hands of the consumer. -/
def inFlight? (w : Worker) : Option Batch :=
  match w.consumer with
  | .saving batch _ | .recycling batch _ _ => some batch
  | _ => none

/-- The number of batches opened before the receiving one. -/
def opened (w : Worker) : Nat := w.flushed.length + if w.inFlight?.isSome then 1 else 0

/-- A producer asks to be told when the receiving batch was flushed. -/
def sync (w : Worker) : Option (Waiter × Worker) :=
  match w.running, w.receiving with
  | true, some batch => some (⟨w.opened⟩, { w with receiving := some batch.waiter.2 })
  | _, _ => none

/-- What a waiter was told: whether its batch was saved. -/
def fate? (w : Worker) (waiter : Waiter) : Option Bool :=
  w.flushed[waiter.turn]?.map (·.saved)

/-- The number of commitments in the receiving batch. -/
def ongoing (w : Worker) : Nat :=
  match w.receiving with
  | some batch => batch.size
  | none => 0

/-! ## Clock and control -/

/-- The flush deadline passes. -/
def expire (w : Worker) : Worker :=
  { w with deadline := if w.deadline = .armed then .passed else w.deadline }

/-- A consumer starts, unless one runs already. -/
def start (w : Worker) : Worker :=
  { w with
    running := true
    consumer :=
      match w.consumer with
      | .resting | .ended => .waiting
      | stage => stage }

/-- The worker is closed. -/
def close (w : Worker) : Worker :=
  { w with
    running := false
    consumer :=
      match w.consumer with
      | .closing => .waiting
      | stage => stage }

/-! ## The consumer -/

/-- The receiving batch with a passed deadline noted in it. -/
def due (w : Worker) (batch : Batch) : Batch :=
  if w.deadline = .passed then batch.markOvertime else batch

/-- An empty batch to receive into, a spare one if there is any, with what is
left of the spare ones and the number of buffers. -/
def freshBatch (w : Worker) : Batch × List Batch × Nat :=
  match w.spare.getLast? with
  | some batch => (batch.serve, w.spare.dropLast, w.buffers)
  | none => ({ buffer := w.buffers }, [], w.buffers + 1)

/-- The stage after a batch was taken: an empty batch needs no table. -/
def take (batch : Batch) (final : Bool) : Consumer :=
  if batch.isEmpty then .recycling batch false final else .saving batch final

/-- The consumer looks for a batch that is due.  Of a closed worker it takes the
receiving batch, whatever is in it, as the final one. -/
def poll (w : Worker) : Worker :=
  match w.consumer with
  | .waiting =>
    if w.running then
      match w.receiving with
      | none => w
      | some batch =>
        let batch := w.due batch
        if batch.consumable then
          let (fresh, spare, buffers) := w.freshBatch
          { w with
            receiving := some fresh, deadline := .none, spare, buffers
            consumer := take batch.retire false }
        else { w with receiving := some batch }
    else
      { w with
        receiving := none
        deadline := .none
        consumer :=
          match w.receiving with
          | some batch => take batch.retire true
          | none => .ended }
  | _ => w

/-- The table took the batch of the consumer, or gave up on it. -/
def saved (w : Worker) (ok : Bool) : Worker :=
  match w.consumer with
  | .saving batch final => { w with consumer := .recycling batch (!ok) final }
  | _ => w

/-- The consumer empties its batch, which releases those who wait for it. -/
def recycle (w : Worker) : Worker :=
  match w.consumer with
  | .recycling batch aborted final =>
    let emptied := batch.reset aborted
    { w with
      spare := if w.spare.length < spareBatches then w.spare ++ [emptied] else w.spare
      flushed := w.flushed ++ [⟨batch.entries, !aborted, emptied.journal⟩]
      consumer := if final then .ended else if aborted then .closing else .waiting }
  | _ => w

/-! ## Journals -/

/-- The journal files of all batches, in the order they were opened. -/
def journals (w : Worker) : List JournalFile :=
  w.flushed.map (·.journal) ++ (w.inFlight?.toList ++ w.receiving.toList).map (·.journal)

end Worker

end WriteBehind
