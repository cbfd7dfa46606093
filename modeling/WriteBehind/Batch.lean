import WriteBehind.Commitment

/-!
# Batches of commitments

A batch collects commitments until it is handed to a table.  A commitment that
comes with the index of an earlier one is merged into it where that is possible,
any other one goes to the end.  Every accepted commitment is logged in the
journal file of the batch.  `Batch.reset` empties a batch and tells those who
wait for it whether it was saved.
-/

namespace WriteBehind

/-- The number of commitments that fill a batch. -/
def batchSize : Nat := 256

/-- The journal of one batch: what was accepted, and how often it was closed for
writing and destroyed. -/
structure JournalFile where
  /-- The accepted commitments, latest first. -/
  logged : List Commitment := []
  retired : Nat := 0
  destroyed : Nat := 0

/-- The journal with one more accepted commitment. -/
def JournalFile.log (j : JournalFile) (c : Commitment) : JournalFile :=
  { j with logged := c :: j.logged }

/-- A promise to tell how the next reset of a batch goes, by the number of resets
before it. -/
structure Waiter where
  turn : Nat
deriving DecidableEq, Repr

/-- Commitments on their way to a table. -/
structure Batch where
  /-- Which of its worker's buffers the batch is. -/
  buffer : Nat := 0
  entries : List Commitment := []
  journal : JournalFile := {}
  /-- Whether the batch is due although it is not full. -/
  overtime : Bool := false
  /-- Whether someone waits for the next reset. -/
  awaited : Bool := false
  /-- For each reset so far, whether the batch had been saved. -/
  fates : List Bool := []

namespace Batch

/-- Merges a commitment into the entry of an index. -/
def mergeAt (b : Batch) (c : Commitment) (i : Nat) : Option Batch :=
  match b.entries[i]? with
  | none => none
  | some entry =>
    (entry.merge c).map fun merged =>
      { b with entries := b.entries.set i merged, journal := b.journal.log c }

/-- Puts a commitment at the end, unless the batch is full. -/
def push (b : Batch) (c : Commitment) : Except Commitment (Nat × Batch) :=
  if b.entries.length < batchSize then
    .ok (b.entries.length, { b with entries := b.entries ++ [c], journal := b.journal.log c })
  else .error c

/-- Takes a commitment in and gives the index of its entry, or hands it back. -/
def put (b : Batch) (c : Commitment) (index : Option Nat) : Except Commitment (Nat × Batch) :=
  match index with
  | none => b.push c
  | some i =>
    match b.mergeAt c i with
    | some b => .ok (i, b)
    | none => b.push c

/-- Takes commitments in one after the other.  Gives the indices of those that
were accepted and counts those that were handed back. -/
def putAll (b : Batch) (index : Option Nat) : List Commitment → List Nat × Nat × Batch
  | [] => ([], 0, b)
  | c :: rest =>
    match b.put c index with
    | .ok (i, b) =>
      let (placed, back, b) := b.putAll index rest
      (i :: placed, back, b)
    | .error _ =>
      let (placed, back, b) := b.putAll index rest
      (placed, back + 1, b)

/-- The number of entries. -/
def size (b : Batch) : Nat := b.entries.length

/-- Whether a batch has no entry. -/
def isEmpty (b : Batch) : Bool := b.entries.isEmpty

/-- Lets a batch be due. -/
def markOvertime (b : Batch) : Batch := { b with overtime := true }

/-- Whether a batch may be handed to its table now. -/
def consumable (b : Batch) : Bool := batchSize ≤ b.size || b.overtime || b.awaited

/-- A waiter for the next reset. -/
def waiter (b : Batch) : Waiter × Batch :=
  (⟨b.fates.length⟩, { b with awaited := true })

/-- What a waiter was told: whether the batch was saved, nothing before the reset
that it waits for. -/
def fate? (b : Batch) (w : Waiter) : Option Bool := b.fates[w.turn]?

/-- Closes the journal for writing. -/
def retire (b : Batch) : Batch :=
  { b with journal := { b.journal with retired := b.journal.retired + 1 } }

/-- Empties a batch and releases its waiters.  The journal of an abandoned batch
is kept, that of any other one destroyed. -/
def reset (b : Batch) (aborted : Bool) : Batch where
  buffer := b.buffer
  journal :=
    if aborted then b.journal else { b.journal with destroyed := b.journal.destroyed + 1 }
  fates := b.fates ++ [!aborted]

/-- A batch that logs to a fresh journal file. -/
def serve (b : Batch) : Batch := { b with journal := {} }

/-! ## Where a commitment goes -/

/-- A commitment that is taken in goes to the end, or into the entry of its index. -/
theorem put_eq_ok {b b' : Batch} {c : Commitment} {index : Option Nat} {i : Nat}
    (h : b.put c index = .ok (i, b')) :
    (b.entries.length < batchSize ∧ i = b.entries.length ∧
      b' = { b with entries := b.entries ++ [c], journal := b.journal.log c }) ∨
    (index = some i ∧ ∃ entry merged, b.entries[i]? = some entry ∧
      entry.merge c = some merged ∧
      b' = { b with entries := b.entries.set i merged, journal := b.journal.log c }) := by
  have hpush : b.push c = .ok (i, b') →
      b.entries.length < batchSize ∧ i = b.entries.length ∧
        b' = { b with entries := b.entries ++ [c], journal := b.journal.log c } := by
    intro hp
    rw [push] at hp
    split at hp
    next hlt =>
      obtain ⟨rfl, rfl⟩ := Prod.mk.inj (Except.ok.inj hp)
      exact ⟨hlt, rfl, rfl⟩
    · cases hp
  cases index with
  | none => exact .inl (hpush h)
  | some j =>
    cases he : b.entries[j]? with
    | none =>
      have hm : b.mergeAt c j = none := by simp [mergeAt, he]
      simp only [put, hm] at h
      exact .inl (hpush h)
    | some entry =>
      cases hmerge : entry.merge c with
      | none =>
        have hm : b.mergeAt c j = none := by simp [mergeAt, he, hmerge]
        simp only [put, hm] at h
        exact .inl (hpush h)
      | some merged =>
        have hm : b.mergeAt c j = some { b with
            entries := b.entries.set j merged, journal := b.journal.log c } := by
          simp [mergeAt, he, hmerge]
        simp only [put, hm, Except.ok.injEq, Prod.mk.injEq] at h
        obtain ⟨rfl, rfl⟩ := h
        exact .inr ⟨rfl, entry, merged, he, hmerge, rfl⟩

end Batch

end WriteBehind
