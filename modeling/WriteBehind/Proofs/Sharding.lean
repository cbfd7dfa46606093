import WriteBehind.Proofs.Coalescing
import WriteBehind.Proofs.TableWrites

/-!
# Rows do not depend on how commitments are spread over workers

A saver deals its commitments out to its workers by the routing hash of their keys, and
nobody knows in which order the workers reach the table.  `Shuffled` says that a list
takes its elements from several queues, from each in its order.  Commitments of one key
meet in one queue, so a shuffle keeps their order (`Shuffled.filter_eq`), and rows are
followed key by key: whatever the number of workers, the order in which they flush and
the cut into save calls, a table in memory ends up with the rows that the commitments
make one after the other (`Saver.saveEach_of_shuffled`).
-/

namespace WriteBehind

/-! ## Shuffles of queues -/

/-- A list that takes its elements from several queues, from each in its order, until
all of them are empty. -/
inductive Shuffled {α : Type} : List (List α) → List α → Prop
  | done {queues : List (List α)} (empty : ∀ q ∈ queues, q = []) : Shuffled queues []
  | take {queues : List (List α)} {n : Nat} {a : α} {rest l : List α}
      (front : queues[n]? = some (a :: rest)) (after : Shuffled (queues.set n rest) l) :
      Shuffled queues (a :: l)

/-- The elements of one kind keep their order if they all stand in one queue. -/
theorem Shuffled.filter_eq {α : Type} {queues : List (List α)} {l : List α}
    (h : Shuffled queues l) {p : α → Bool} {n : Nat} {q : List α} (hq : queues[n]? = some q)
    (hothers : ∀ m r, queues[m]? = some r → m ≠ n → ∀ a ∈ r, p a = false) :
    l.filter p = q.filter p := by
  induction h generalizing q with
  | done empty =>
      rw [empty q (List.mem_of_getElem? hq)]
  | @take queues m a rest l front _ ih =>
      have hm : m < queues.length := (List.getElem?_eq_some_iff.mp front).1
      have hothers' : ∀ j r, (queues.set m rest)[j]? = some r → j ≠ n → ∀ b ∈ r, p b = false := by
        intro j r hj hne b hb
        by_cases hmj : m = j
        · subst hmj
          rw [List.getElem?_set_self hm, Option.some.injEq] at hj
          rw [← hj] at hb
          exact hothers m (a :: rest) front hne b (List.mem_cons_of_mem a hb)
        · rw [List.getElem?_set_ne hmj] at hj
          exact hothers j r hj hne b hb
      by_cases hmn : m = n
      · subst hmn
        obtain rfl : a :: rest = q := Option.some.inj (front.symm.trans hq)
        have hrest := ih (List.getElem?_set_self hm) hothers'
        rw [List.filter_cons, List.filter_cons, hrest]
      · have hfront : p a = false := hothers m (a :: rest) front hmn a List.mem_cons_self
        rw [List.filter_cons_of_neg (by simp [hfront])]
        apply ih _ hothers'
        rw [List.getElem?_set_ne hmn]
        exact hq

/-! ## Lanes of a saver -/

namespace Saver

/-- What each worker of a saver gets of some commitments. -/
def lanes (s : Saver) (cs : List Commitment) : List (List Commitment) :=
  (List.range s.concurrence).map fun n => cs.filter fun c => s.workerOf c.hash == n

theorem getElem?_lanes (s : Saver) (cs : List Commitment) {n : Nat} (hn : n < s.concurrence) :
    (s.lanes cs)[n]? = some (cs.filter fun c => s.workerOf c.hash == n) := by
  rw [lanes, List.getElem?_map, List.getElem?_range hn]
  rfl

theorem eq_of_mem_lane {s : Saver} {cs lane : List Commitment} {n : Nat}
    (h : (s.lanes cs)[n]? = some lane) {c : Commitment} (hc : c ∈ lane) :
    c ∈ cs ∧ s.workerOf c.hash = n := by
  have hn : n < s.concurrence := by
    have hlt := (List.getElem?_eq_some_iff.mp h).1
    simpa [lanes] using hlt
  rw [getElem?_lanes s cs hn, Option.some.injEq] at h
  rw [← h, List.mem_filter] at hc
  exact ⟨hc.1, by simpa using hc.2⟩

/-- A saver has a worker for every hash, also if it is asked for none. -/
theorem workerOf_create_lt (ns : String) (n : Nat) (hash : UInt64) :
    (create ns n).workerOf hash < (create ns n).concurrence := by
  apply Nat.mod_lt
  rw [create, List.length_replicate]
  exact Nat.lt_of_lt_of_le Nat.zero_lt_one (Nat.le_max_right n 1)

end Saver

/-! ## Rows and shuffles -/

/-- Only the commitments of a key count for its row. -/
theorem replay_filter (key : String) (cs : List Commitment) (row : Option Document) :
    replay key (cs.filter fun c => c.keyText == key) row = replay key cs row := by
  induction cs generalizing row with
  | nil => rfl
  | cons c cs ih =>
      by_cases hc : c.keyText = key
      · rw [List.filter_cons_of_pos (by simpa using hc), replay_cons, replay_cons, ih]
      · rw [List.filter_cons_of_neg (by simpa using hc), replay_cons, if_neg hc, ih]

/-- Commitments of one key go to one worker, so a shuffle of the lanes does to its row
what they do as they were submitted. -/
theorem Shuffled.replay_eq {ns : String} {n : Nat} {cs l : List Commitment}
    (h : Shuffled ((Saver.create ns n).lanes cs) l)
    (hrouted : ∀ c ∈ cs, ∀ d ∈ cs, c.keyText = d.keyText → c.hash = d.hash)
    (key : String) (row : Option Document) : replay key l row = replay key cs row := by
  obtain ⟨hash, hhash⟩ : ∃ hash, ∀ c ∈ cs, c.keyText = key → c.hash = hash := by
    by_cases hsome : ∃ c ∈ cs, c.keyText = key
    · obtain ⟨c, hc, hkey⟩ := hsome
      exact ⟨c.hash, fun d hd hdkey => hrouted d hd c hc (hdkey.trans hkey.symm)⟩
    · exact ⟨0, fun d hd hdkey => absurd ⟨d, hd, hdkey⟩ hsome⟩
  have hlane := Saver.getElem?_lanes _ cs (Saver.workerOf_create_lt ns n hash)
  have hothers : ∀ m lane, ((Saver.create ns n).lanes cs)[m]? = some lane →
      m ≠ (Saver.create ns n).workerOf hash → ∀ c ∈ lane, (c.keyText == key) = false := by
    intro m lane hm hne c hc
    obtain ⟨hmem, hworker⟩ := Saver.eq_of_mem_lane hm hc
    rw [beq_eq_false_iff_ne]
    intro hkey
    rw [hhash c hmem hkey] at hworker
    exact hne hworker.symm
  have hsame : cs.filter (fun c => c.keyText == key &&
      ((Saver.create ns n).workerOf c.hash == (Saver.create ns n).workerOf hash)) =
        cs.filter fun c => c.keyText == key := by
    apply List.filter_congr
    intro c hc
    by_cases hkey : c.keyText = key
    · simp [hkey, hhash c hc hkey]
    · simp [hkey]
  rw [← replay_filter key l, ← replay_filter key cs, h.filter_eq hlane hothers,
    List.filter_filter, hsame]

/-! ## Save calls -/

namespace MemoryTable

/-- A running worker saves whatever it hands over. -/
theorem save_of_running (t : MemoryTable) (cs : List Commitment) :
    (t.save (fun _ => true) cs).1 = true ∧
      (t.save (fun _ => true) cs).2.rows = t.rows.applyAll (prepareAll cs) := by
  rcases t.save_cases (fun _ => true) cs with hsaved | ⟨-, -, k, hk⟩
  · exact hsaved
  · cases hk

/-- The answers to save calls of running workers, and the table after them. -/
def saveEach (t : MemoryTable) : List (List Commitment) → List Bool × MemoryTable
  | [] => ([], t)
  | cs :: calls =>
    let (ok, t) := t.save (fun _ => true) cs
    let (oks, t) := t.saveEach calls
    (ok :: oks, t)

/-- The cut into calls does not show. -/
theorem saveEach_spec (t : MemoryTable) (calls : List (List Commitment)) :
    (∀ ok ∈ (t.saveEach calls).1, ok = true) ∧
      (t.saveEach calls).2.rows = t.rows.applyAll (prepareAll calls.flatten) := by
  induction calls generalizing t with
  | nil => exact ⟨by simp [saveEach], rfl⟩
  | cons cs calls ih =>
      obtain ⟨hok, hrows⟩ := t.save_of_running cs
      obtain ⟨hoks, hrest⟩ := ih (t.save (fun _ => true) cs).2
      constructor
      · intro ok hmem
        rcases List.mem_cons.mp hmem with rfl | hmem
        · exact hok
        · exact hoks ok hmem
      · rw [List.flatten_cons, prepareAll_append, Rows.applyAll_append, ← hrows]
        exact hrest

end MemoryTable

/-- Sharding is unobservable.  However many workers commitments are dealt out to by the
hashes of their keys, however the workers take turns, and into whatever save calls they
cut what they have, the table takes it all and ends up with the rows that the commitments
make in the order they were submitted. -/
theorem Saver.saveEach_of_shuffled {cs : List Commitment}
    (hrouted : ∀ c ∈ cs, ∀ d ∈ cs, c.keyText = d.keyText → c.hash = d.hash)
    (ns : String) (n : Nat) {calls : List (List Commitment)}
    (hcalls : Shuffled ((Saver.create ns n).lanes cs) calls.flatten) (t : MemoryTable) :
    (∀ ok ∈ (t.saveEach calls).1, ok = true) ∧
      (t.saveEach calls).2.rows = t.rows.applyAll (prepareAll cs) := by
  obtain ⟨hoks, hrows⟩ := t.saveEach_spec calls
  refine ⟨hoks, hrows.trans ?_⟩
  apply Rows.applyAll_prepareAll_congr
  intro key
  exact hcalls.replay_eq hrouted key _

/-! ## Two workers and four commitments -/

namespace Sample

/-- A change of hero 1 that cannot be prepared. -/
def unpreparable : Commitment :=
  .foreign {
    ns := "hero", keyText := "1", hash := (heroSnapshot .new .empty 1 1).key.hash
    filter := .empty, lifecycle := .normal, outcome := .error .malformedDocument }

/-- Hero 1 comes, rises and fails to be changed, hero 2 comes in between. -/
def heroStream : List Commitment :=
  [.snapshot (heroSnapshot .new .empty 1 1), .snapshot (heroSnapshot .new .empty 2 5),
    .snapshot (heroSnapshot .normal heroLevel 1 3), unpreparable]

/-- The worker of hero 2 flushes first, that of hero 1 in two calls. -/
def heroCalls : List (List Commitment) :=
  [[.snapshot (heroSnapshot .new .empty 2 5), .snapshot (heroSnapshot .new .empty 1 1)], [],
    [.snapshot (heroSnapshot .normal heroLevel 1 3), unpreparable]]

theorem shuffled_heroCalls :
    Shuffled ((Saver.create "hero" 2).lanes heroStream) heroCalls.flatten := by
  have hlanes : (Saver.create "hero" 2).lanes heroStream =
      [[.snapshot (heroSnapshot .new .empty 2 5)],
        [.snapshot (heroSnapshot .new .empty 1 1),
          .snapshot (heroSnapshot .normal heroLevel 1 3), unpreparable]] := rfl
  rw [hlanes]
  apply Shuffled.take (n := 0) rfl
  apply Shuffled.take (n := 1) rfl
  apply Shuffled.take (n := 1) rfl
  apply Shuffled.take (n := 1) rfl
  apply Shuffled.done
  simp

theorem saveEach_heroCalls :
    (∀ c ∈ heroStream, ∀ d ∈ heroStream, c.keyText = d.keyText → c.hash = d.hash) ∧
      Shuffled ((Saver.create "hero" 2).lanes heroStream) heroCalls.flatten ∧
      (∀ ok ∈ (MemoryTable.saveEach { name := "heroes", failBudget := 3 } heroCalls).1,
        ok = true) ∧
      (MemoryTable.saveEach { name := "heroes", failBudget := 3 } heroCalls).2.rows =
        Rows.applyAll .empty (prepareAll heroStream) := by
  have hrouted : ∀ c ∈ heroStream, ∀ d ∈ heroStream, c.keyText = d.keyText →
      c.hash = d.hash := by
    decide
  exact ⟨hrouted, shuffled_heroCalls, Saver.saveEach_of_shuffled hrouted "hero" 2
    shuffled_heroCalls { name := "heroes", failBudget := 3 }⟩

end Sample

end WriteBehind
