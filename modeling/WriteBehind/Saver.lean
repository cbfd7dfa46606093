import WriteBehind.Error
import WriteBehind.Worker

/-!
# Savers

A saver spreads the commitments of a namespace over its workers by the routing
hash of their keys, so commitments of one key meet in one worker and stay in
order.  The functions here run the steps of the workers one after another: a
worker that must flush before its producer can go on does so at once.  Flushing
goes through a `Save`, which hands commitments to a table of type `σ` and tells
whether it took them.
-/

namespace WriteBehind

variable {σ : Type}

/-- Hands commitments to a table.  The flag says whether their worker still runs;
if not, the table is asked once only. -/
abbrev Save (σ : Type) := List Commitment → (running : Bool) → σ → Bool × σ

namespace Worker

/-- Hands the batch of the consumer to the table and empties it. -/
def flush (save : Save σ) (w : Worker) (table : σ) : Worker × σ :=
  match w.consumer with
  | .saving batch _ =>
    let (ok, table) := save batch.entries w.running table
    ((w.saved ok).recycle, table)
  | .recycling _ _ _ => (w.recycle, table)
  | _ => (w, table)

/-- Lets the consumer flush what is due. -/
def turn (save : Save σ) (w : Worker) (table : σ) : Worker × σ :=
  w.poll.flush save table

/-- Lets the consumer finish the batch that it holds, if there is one, and then flush what
is due. -/
def makeRoom (save : Save σ) (w : Worker) (table : σ) : Worker × σ :=
  let (w, table) := w.flush save table
  w.turn save table

end Worker

/-- How often a journal was used. -/
structure JournalCounts where
  /-- Files opened. -/
  served : Nat := 0
  /-- Commitments logged. -/
  logged : Nat := 0
  /-- Files closed for writing. -/
  retired : Nat := 0
  /-- Files destroyed. -/
  destroyed : Nat := 0
deriving DecidableEq, Repr, Inhabited

namespace JournalCounts

/-- Uses of two journals. -/
def add (a b : JournalCounts) : JournalCounts :=
  ⟨a.served + b.served, a.logged + b.logged, a.retired + b.retired, a.destroyed + b.destroyed⟩

/-- The uses of one file. -/
def ofFile (j : JournalFile) : JournalCounts := ⟨1, j.logged.length, j.retired, j.destroyed⟩

/-- The uses of several files. -/
def ofFiles (files : List JournalFile) : JournalCounts :=
  files.foldl (fun counts j => counts.add (ofFile j)) {}

end JournalCounts

/-- The workers of a namespace. -/
structure Saver where
  ns : String
  workers : List Worker

namespace Saver

/-- A saver with a number of workers, at least one. -/
def create (ns : String) (concurrence : Nat) : Saver :=
  ⟨ns, List.replicate (max concurrence 1) {}⟩

/-- The number of workers. -/
def concurrence (s : Saver) : Nat := s.workers.length

/-- The worker for keys of a hash. -/
def workerOf (s : Saver) (hash : UInt64) : Nat := hash.toNat % s.workers.length

/-- Lets every worker take a step on the table, in turn. -/
def mapWorkers (f : Worker → σ → Worker × σ) : List Worker → σ → List Worker × σ
  | [], table => ([], table)
  | w :: ws, table =>
    let (w, table) := f w table
    let (ws, table) := mapWorkers f ws table
    (w :: ws, table)

/-- Lets every worker take a step. -/
def step (f : Worker → σ → Worker × σ) (s : Saver) (table : σ) : Saver × σ :=
  let (workers, table) := mapWorkers f s.workers table
  ({ s with workers }, table)

/-- Starts the workers. -/
def run (s : Saver) : Saver := { s with workers := s.workers.map Worker.start }

/-- Puts a commitment into a worker and gives its index.  A producer that finds the batch
full waits until the consumer has taken it, which it does when it is done with the batch
before; a consumer that gives that batch up closes the worker, and the producer waiting there
is refused. -/
def putWorker (save : Save σ) (w : Worker) (c : Commitment) (index : Option Nat) (table : σ) :
    Option Nat × Worker × σ :=
  match w.put c index with
  | .placed i w => (some i, w, table)
  | .refused => (none, w, table)
  | .full =>
    let (w, table) := w.makeRoom save table
    match w.put c none with
    | .placed i w => (some i, w, table)
    | _ => (none, w, table)

/-- Puts a commitment into the worker for its key. -/
def put (save : Save σ) (s : Saver) (c : Commitment) (index : Option Nat) (table : σ) :
    Option Nat × Saver × σ :=
  let n := s.workerOf c.hash
  match s.workers[n]? with
  | none => (none, s, table)
  | some w =>
    let (placed, w, table) := putWorker save w c index table
    (placed, { s with workers := s.workers.set n w }, table)

/-- Asks workers for waiters; `none` when one of them is closed. -/
def syncWorkers : List Worker → Option (List (Waiter × Worker))
  | [] => some []
  | w :: ws =>
    match w.sync, syncWorkers ws with
    | some r, some rs => some (r :: rs)
    | _, _ => none

/-- The outcome of waiting for workers: an error if some batch was abandoned. -/
def outcome (ns : String) (told : List (Waiter × Worker)) : Except Error Unit :=
  if told.all fun (waiter, w) => w.fate? waiter = some true then .ok ()
  else .error (.saveAborted ns)

/-- Lets workers flush and waits for it. -/
def syncAmong (save : Save σ) (ns : String) (workers : List Worker) (table : σ) :
    Except Error Unit × List Worker × σ :=
  match syncWorkers workers with
  | none => (.error (.saverClosed ns), workers, table)
  | some asked =>
    let (flushed, table) := mapWorkers (Worker.turn save) (asked.map (·.2)) table
    (outcome ns ((asked.map (·.1)).zip flushed), flushed, table)

/-- Waits until what was put so far is flushed, by the worker for a hash or by
all workers. -/
def sync (save : Save σ) (s : Saver) (hash : Option UInt64) (table : σ) :
    Except Error Unit × Saver × σ :=
  match hash with
  | none =>
    let (result, workers, table) := syncAmong save s.ns s.workers table
    (result, { s with workers }, table)
  | some hash =>
    let n := s.workerOf hash
    let (result, flushed, table) := syncAmong save s.ns (s.workers[n]?.toList) table
    match flushed with
    | [w] => (result, { s with workers := s.workers.set n w }, table)
    | _ => (result, s, table)

/-- The number of commitments that are not flushed yet. -/
def ongoing (s : Saver) : Nat := s.workers.foldl (fun n w => n + w.ongoing) 0

/-- Closes the workers and lets them flush for the last time. -/
def close (save : Save σ) (s : Saver) (table : σ) : Saver × σ :=
  step (Worker.turn save) { s with workers := s.workers.map Worker.close } table

/-- Lets time pass until every armed deadline has passed. -/
def elapse (save : Save σ) (s : Saver) (table : σ) : Saver × σ :=
  step (fun w table => w.expire.turn save table) s table

/-- Closes workers that may hold a batch: that one is tried once more before the final
one. -/
def shut (save : Save σ) (s : Saver) (table : σ) : Saver × σ :=
  let (s, table) := s.close save table
  s.close save table

/-- Lets time pass until every armed deadline has passed, on a table that keeps
refusing: the batches that were due stay in the hands of the consumers. -/
def stall (s : Saver) : Saver := { s with workers := s.workers.map fun w => w.expire.poll }

/-- A sync whose flushes are cut off by a close: each worker holds a batch, the one
it was asked for or one taken before, when the close arrives.  It is left with one
more attempt for that batch, and what it still receives is the final one. -/
def syncThenClose (save : Save σ) (s : Saver) (table : σ) :
    Except Error Unit × Saver × σ :=
  match syncWorkers s.workers with
  | none =>
    let (s, table) := s.close save table
    (.error (.saverClosed s.ns), s, table)
  | some asked =>
    let taken := asked.map fun r => r.2.poll.close
    let (flushed, table) := mapWorkers (Worker.flush save) taken table
    let (s, table) := { s with workers := flushed }.close save table
    (outcome s.ns ((asked.map (·.1)).zip s.workers), s, table)

/-- How often the journal was used. -/
def journalCounts (s : Saver) : JournalCounts :=
  s.workers.foldl (fun counts w => counts.add (.ofFiles w.journals)) {}

/-- Hands the commitments that a journal still holds to the table. -/
def recover (restore : List Commitment → σ → Except Error Unit × σ)
    (pending : Except Error (List Commitment)) (table : σ) : Except Error Unit × σ :=
  match pending with
  | .error e => (.error e, table)
  | .ok [] => (.ok (), table)
  | .ok commitments => restore commitments table

end Saver

end WriteBehind
