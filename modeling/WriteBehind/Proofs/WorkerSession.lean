import Mathlib.Data.List.Perm.Basic
import WriteBehind.Proofs.OpenedBatches

/-!
# What becomes of commitments handed to a worker

A `Session` is a worker together with the record of what it was asked and what it
did: every call of a producer is placed in a batch, waits for the next batch, or is
refused, and every batch that the table gets is written down.  `Session.step` takes
one atomic step of a producer, the clock, the consumer, the table or whoever closes
the worker; all orders of steps are possible.  `Session.run_accounts` says that in
every state of every run the batches hold the placed commitments, each at its place
and nothing else, and that they reach the table once each, in the order they were
opened.  The proof carries the invariant `Session.Faithful` from step to step.
-/

namespace WriteBehind

/-! ## Sessions -/

/-- A commitment in a batch: the call that brought it, the number of the batch in the
order of their opening, and the index of the entry. -/
structure Placed where
  call : Nat
  commitment : Commitment
  batch : Nat
  entry : Nat

/-- A worker with the record of its calls.  Calls are numbered as they come. -/
structure Session where
  worker : Worker := {}
  calls : Nat := 0
  /-- The calls that were answered with an index, in the order of the answers. -/
  placed : List Placed := []
  /-- The calls whose producers wait for the next batch. -/
  blocked : List (Nat × Commitment) := []
  /-- The calls that were refused. -/
  refused : List (Nat × Commitment) := []
  /-- The batches that the table was given, each with its number. -/
  handed : List (List Commitment × Nat) := []

/-- An atomic step around a worker. -/
inductive WorkerStep where
  | start
  | put (c : Commitment) (index : Option Nat)
  /-- A waiting producer tries again, without an index. -/
  | retry (position : Nat)
  | sync
  | expire
  | poll
  /-- The table took its batch, or gave up on it. -/
  | outcome (ok : Bool)
  | recycle
  | close

namespace Session

/-- A call tries the receiving batch. -/
def attempt (s : Session) (call : Nat) (c : Commitment) (index : Option Nat) : Session :=
  match s.worker.put c index with
  | .placed i w =>
    { s with worker := w, placed := s.placed ++ [⟨call, c, s.worker.opened, i⟩] }
  | .full => { s with blocked := s.blocked ++ [(call, c)] }
  | .refused => { s with refused := s.refused ++ [(call, c)] }

/-- One atomic step.  A worker is started once. -/
def step (s : Session) : WorkerStep → Session
  | .start =>
    match s.worker.consumer with
    | .resting => { s with worker := s.worker.start }
    | _ => s
  | .put c index => { s with calls := s.calls + 1 }.attempt s.calls c index
  | .retry position =>
    match s.blocked[position]? with
    | some (call, c) => { s with blocked := s.blocked.eraseIdx position }.attempt call c none
    | none => s
  | .sync =>
    match s.worker.sync with
    | some (_, w) => { s with worker := w }
    | none => s
  | .expire => { s with worker := s.worker.expire }
  | .poll => { s with worker := s.worker.poll }
  | .outcome ok =>
    match s.worker.consumer with
    | .saving batch _ =>
      { s with
        worker := s.worker.saved ok
        handed := s.handed ++ [(batch.entries, s.worker.flushed.length)] }
    | _ => s
  | .recycle => { s with worker := s.worker.recycle }
  | .close => { s with worker := s.worker.close }

/-- The session after some steps of a new worker. -/
def run (steps : List WorkerStep) : Session := steps.foldl step {}

/-- The commitments placed in one entry of one batch, in the order they came. -/
def commitmentsAt (s : Session) (n j : Nat) : List Commitment :=
  (s.placed.filter fun p => p.batch == n && p.entry == j).map (·.commitment)

/-- The numbers of all calls. -/
def callIds (s : Session) : List Nat :=
  s.placed.map (·.call) ++ s.blocked.map (·.1) ++ s.refused.map (·.1)

end Session

/-- Commitments merged into one, in their order. -/
def coalesced : List Commitment → Option Commitment
  | [] => none
  | c :: cs => cs.foldlM Commitment.merge c

theorem coalesced_concat {cs : List Commitment} {e c m : Commitment}
    (h : coalesced cs = some e) (hm : e.merge c = some m) :
    coalesced (cs ++ [c]) = some m := by
  cases cs with
  | nil => cases h
  | cons d ds =>
      have hfold : ds.foldlM Commitment.merge d = some e := h
      rw [List.cons_append, coalesced, List.foldlM_append, hfold]
      simpa using hm

/-! ## The invariant -/

namespace Session

/-- Where worker and record agree: every placed commitment is where it was placed, an
entry is what was placed there, and the table was given what the worker is done
with. -/
structure Faithful (s : Session) : Prop where
  orderly : s.worker.Orderly
  located : ∀ p ∈ s.placed, ∃ es, s.worker.batches[p.batch]? = some es ∧ p.entry < es.length
  entries_eq : ∀ n es j, s.worker.batches[n]? = some es →
    es[j]? = coalesced (s.commitmentsAt n j)
  handed_eq : s.handed = s.worker.delivered

variable {s : Session}

theorem commitmentsAt_concat (s : Session) (w : Worker) (p : Placed) (n j : Nat) :
    ({ s with worker := w, placed := s.placed ++ [p] } : Session).commitmentsAt n j =
      if p.batch = n ∧ p.entry = j then s.commitmentsAt n j ++ [p.commitment]
      else s.commitmentsAt n j := by
  by_cases h : p.batch = n ∧ p.entry = j
  · rw [if_pos h]
    simp [commitmentsAt, List.filter_append, h.1, h.2]
  · rw [if_neg h]
    have hfalse : (p.batch == n && p.entry == j) = false := by simpa using h
    simp [commitmentsAt, List.filter_append, hfalse]

/-- Nothing was placed where nothing stands. -/
theorem Faithful.commitmentsAt_eq_nil (h : s.Faithful) {n j : Nat}
    (hout : ∀ es, s.worker.batches[n]? = some es → es.length ≤ j) :
    s.commitmentsAt n j = [] := by
  rw [commitmentsAt, List.map_eq_nil_iff, List.filter_eq_nil_iff]
  intro p hp hmatch
  simp only [Bool.and_eq_true, beq_iff_eq] at hmatch
  obtain ⟨es, hes, hlt⟩ := h.located p hp
  rw [hmatch.1] at hes
  rw [hmatch.2] at hlt
  exact Nat.not_lt_of_le (hout es hes) hlt

/-- Steps that change no batch, or open an empty one, keep the record right. -/
theorem Faithful.setWorker (h : s.Faithful) {w : Worker} (hw : w.Orderly)
    (hbatches : w.batches = s.worker.batches ∨ w.batches = s.worker.batches ++ [[]])
    (hdelivered : w.delivered = s.worker.delivered) :
    ({ s with worker := w } : Session).Faithful := by
  rcases hbatches with hsame | hmore
  · refine ⟨hw, ?_, ?_, h.handed_eq.trans hdelivered.symm⟩
    · intro p hp
      obtain ⟨es, hes, hlt⟩ := h.located p hp
      exact ⟨es, hsame ▸ hes, hlt⟩
    · intro n es j hes
      exact h.entries_eq n es j (hsame ▸ hes)
  · refine ⟨hw, ?_, ?_, h.handed_eq.trans hdelivered.symm⟩
    · intro p hp
      obtain ⟨es, hes, hlt⟩ := h.located p hp
      have hn : p.batch < s.worker.batches.length := (List.getElem?_eq_some_iff.mp hes).1
      refine ⟨es, ?_, hlt⟩
      rw [hmore, List.getElem?_append_left hn]
      exact hes
    · intro n es j hes
      rw [hmore] at hes
      by_cases hn : n < s.worker.batches.length
      · rw [List.getElem?_append_left hn] at hes
        exact h.entries_eq n es j hes
      · rw [List.getElem?_append_right (Nat.le_of_not_lt hn)] at hes
        have hnil : es = [] := List.mem_singleton.mp (List.mem_of_getElem? hes)
        have hnone : s.commitmentsAt n j = [] := by
          apply h.commitmentsAt_eq_nil
          intro es' hes'
          exact absurd (List.getElem?_eq_some_iff.mp hes').1 hn
        rw [hnil]
        exact (congrArg coalesced hnone).symm

/-- What a put makes of the entries of a batch. -/
theorem entries_put {b b' : Batch} {c : Commitment} {index : Option Nat} {i : Nat}
    (h : b.put c index = .ok (i, b')) :
    i < b'.entries.length ∧ b.entries.length ≤ b'.entries.length ∧
      (∀ j, j ≠ i → b'.entries[j]? = b.entries[j]?) ∧
      ((b.entries.length = i ∧ b'.entries[i]? = some c) ∨
        ∃ entry merged, b.entries[i]? = some entry ∧ entry.merge c = some merged ∧
          b'.entries[i]? = some merged) := by
  rcases Batch.put_eq_ok h with ⟨-, rfl, rfl⟩ | ⟨-, entry, merged, hentry, hmerge, rfl⟩
  · refine ⟨by simp, by simp, ?_, .inl ⟨rfl, by simp⟩⟩
    intro j hj
    by_cases hlt : j < b.entries.length
    · exact List.getElem?_append_left hlt
    · rw [List.getElem?_eq_none (by simp; omega), List.getElem?_eq_none (by omega)]
  · have hlt : i < b.entries.length := (List.getElem?_eq_some_iff.mp hentry).1
    refine ⟨by simpa using hlt, by simp, ?_, .inr ⟨entry, merged, hentry, hmerge, by simp [hlt]⟩⟩
    intro j hj
    exact List.getElem?_set_ne (Ne.symm hj)

/-- A placed commitment is the last of its entry. -/
theorem Faithful.place (h : s.Faithful) (call : Nat) {w : Worker} {i : Nat} {c : Commitment}
    {index : Option Nat} (hput : s.worker.put c index = .placed i w) :
    ({ s with worker := w, placed := s.placed ++ [⟨call, c, s.worker.opened, i⟩] }
      : Session).Faithful := by
  have horderly := h.orderly.put hput
  obtain ⟨b, b', hb, hok, rfl⟩ := Worker.put_eq_placed hput
  obtain ⟨hi, hgrow, hother, hentry⟩ := entries_put hok
  -- Only the receiving batch, which is the last one opened, has changed.
  have hold : ∀ n, s.worker.batches[n]? =
      if n = s.worker.opened then some b.entries else s.worker.closedBatches[n]? := by
    intro n
    rw [Worker.batches_of_receiving hb]
    exact s.worker.getElem?_closedBatches_concat b.entries n
  refine ⟨horderly, ?_, ?_, h.handed_eq⟩
  · intro p hp
    dsimp only at hp ⊢
    rw [Worker.batches_of_receiving rfl]
    rcases List.mem_append.mp hp with hp | hp
    · obtain ⟨es, hes, hlt⟩ := h.located p hp
      rw [hold] at hes
      by_cases hn : p.batch = s.worker.opened
      · rw [if_pos hn, Option.some.injEq] at hes
        refine ⟨b'.entries, ?_, ?_⟩
        · exact (s.worker.getElem?_closedBatches_concat _ _).trans (if_pos hn)
        · exact Nat.lt_of_lt_of_le (hes ▸ hlt) hgrow
      · rw [if_neg hn] at hes
        refine ⟨es, ?_, hlt⟩
        exact (s.worker.getElem?_closedBatches_concat _ _).trans ((if_neg hn).trans hes)
    · rw [List.mem_singleton.mp hp]
      refine ⟨b'.entries, ?_, hi⟩
      exact (s.worker.getElem?_closedBatches_concat _ _).trans (if_pos rfl)
  · intro n es j hes
    rw [commitmentsAt_concat]
    have hlookup := (s.worker.getElem?_closedBatches_concat b'.entries n).symm.trans hes
    by_cases hn : n = s.worker.opened
    · rw [if_pos hn, Option.some.injEq] at hlookup
      subst hn hlookup
      have hreceiving : s.worker.batches[s.worker.opened]? = some b.entries :=
        (hold _).trans (if_pos rfl)
      have hbefore : ∀ j, b.entries[j]? = coalesced (s.commitmentsAt s.worker.opened j) :=
        fun j => h.entries_eq s.worker.opened b.entries j hreceiving
      by_cases hj : j = i
      · subst hj
        rw [if_pos ⟨rfl, rfl⟩]
        rcases hentry with ⟨hlen, hc⟩ | ⟨entry, merged, hat, hmerge, hmerged⟩
        · have hnil : s.commitmentsAt s.worker.opened j = [] := by
            apply h.commitmentsAt_eq_nil
            intro es hes
            rw [hreceiving, Option.some.injEq] at hes
            rw [← hes]
            exact Nat.le_of_eq hlen
          rw [hc, hnil]
          rfl
        · have hcoalesced : coalesced (s.commitmentsAt s.worker.opened j) = some entry := by
            rw [← hbefore j, hat]
          rw [hmerged, coalesced_concat hcoalesced hmerge]
      · rw [if_neg (by rintro ⟨-, hji⟩; exact hj hji.symm), hother j hj]
        exact hbefore j
    · rw [if_neg hn] at hlookup
      rw [if_neg (by rintro ⟨hno, -⟩; exact hn hno.symm)]
      exact h.entries_eq n es j ((hold n).trans ((if_neg hn).trans hlookup))

/-! ## Steps -/

theorem Faithful.attempt (h : s.Faithful) (call : Nat) (c : Commitment) (index : Option Nat) :
    (s.attempt call c index).Faithful := by
  cases hput : s.worker.put c index with
  | placed i w =>
      have hplace := h.place call hput
      simpa [Session.attempt, hput] using hplace
  | full =>
      rw [Session.attempt, hput]
      exact ⟨h.orderly, h.located, h.entries_eq, h.handed_eq⟩
  | refused =>
      rw [Session.attempt, hput]
      exact ⟨h.orderly, h.located, h.entries_eq, h.handed_eq⟩

theorem Faithful.step (h : s.Faithful) (a : WorkerStep) : (s.step a).Faithful := by
  cases a with
  | start =>
      rw [Session.step]
      split
      next hc =>
        have hstart : s.worker.start = { s.worker with running := true, consumer := .waiting } := by
          simp [Worker.start, hc]
        rw [hstart]
        exact h.setWorker (h.orderly.setWaiting (.inl hc) true)
          (.inl (Worker.batches_setWaiting (.inl hc) true))
          (Worker.delivered_setWaiting (.inl hc) true)
      · exact h
  | put c index =>
      have hcalls : ({ s with calls := s.calls + 1 } : Session).Faithful :=
        ⟨h.orderly, h.located, h.entries_eq, h.handed_eq⟩
      exact hcalls.attempt s.calls c index
  | retry position =>
      rw [Session.step]
      split
      next call c hblocked =>
        have herase : ({ s with blocked := s.blocked.eraseIdx position } : Session).Faithful :=
          ⟨h.orderly, h.located, h.entries_eq, h.handed_eq⟩
        exact herase.attempt call c none
      · exact h
  | sync =>
      rw [Session.step]
      split
      next waiter w hsync =>
        obtain ⟨b, hb, -, rfl⟩ := Worker.sync_eq_some hsync
        exact h.setWorker (h.orderly.setReceiving hb rfl)
          (.inl (Worker.batches_setReceiving hb rfl)) rfl
      · exact h
  | expire => exact h.setWorker h.orderly.expire (.inl rfl) rfl
  | poll =>
      exact h.setWorker h.orderly.poll (Worker.batches_poll h.orderly)
        (Worker.delivered_poll s.worker)
  | outcome ok =>
      rw [Session.step]
      split
      next batch final hsaving =>
        have hbatches := Worker.batches_saved hsaving ok
        refine ⟨h.orderly.saved hsaving ok, ?_, ?_, ?_⟩
        · intro p hp
          obtain ⟨es, hes, hlt⟩ := h.located p hp
          exact ⟨es, hbatches ▸ hes, hlt⟩
        · intro n es j hes
          exact h.entries_eq n es j (hbatches ▸ hes)
        · dsimp only
          rw [Worker.delivered_saved h.orderly hsaving, h.handed_eq]
      · exact h
  | recycle =>
      exact h.setWorker h.orderly.recycle (.inl (Worker.batches_recycle s.worker))
        (Worker.delivered_recycle s.worker)
  | close =>
      rw [Session.step]
      rcases Worker.close_cases s.worker with hclose | ⟨hc, hclose⟩
      · rw [hclose]
        exact h.setWorker (h.orderly.setRunning false) (.inl rfl) rfl
      · rw [hclose]
        exact h.setWorker (h.orderly.setWaiting (.inr hc) false)
          (.inl (Worker.batches_setWaiting (.inr hc) false))
          (Worker.delivered_setWaiting (.inr hc) false)

theorem faithful_run (steps : List WorkerStep) : (run steps).Faithful := by
  have hrun : ∀ s : Session, s.Faithful → (steps.foldl Session.step s).Faithful := by
    induction steps with
    | nil => exact fun _ h => h
    | cons a steps ih => exact fun s h => ih (s.step a) (h.step a)
  apply hrun
  refine ⟨Worker.orderly_empty, ?_, ?_, rfl⟩
  · intro p hp
    cases hp
  · intro n es j hes
    have hnil : es = [] := by
      have hmem := List.mem_of_getElem? hes
      simpa [Worker.batches, Worker.closedBatches, Worker.inFlight?] using hmem
    rw [hnil]
    rfl

/-! ## Calls -/

theorem callIds_attempt (s : Session) (call : Nat) (c : Commitment) (index : Option Nat) :
    (s.attempt call c index).callIds.Perm (call :: s.callIds) := by
  rw [List.perm_iff_count]
  intro n
  cases hput : s.worker.put c index with
  | placed i w =>
      simp only [Session.attempt, hput, callIds, List.map_append, List.count_append,
        List.map_singleton, List.count_cons, List.count_nil]
      omega
  | full =>
      simp only [Session.attempt, hput, callIds, List.map_append, List.count_append,
        List.map_singleton, List.count_cons, List.count_nil]
      omega
  | refused =>
      simp only [Session.attempt, hput, callIds, List.map_append, List.count_append,
        List.map_singleton, List.count_cons, List.count_nil]
      omega

theorem calls_attempt (s : Session) (call : Nat) (c : Commitment) (index : Option Nat) :
    (s.attempt call c index).calls = s.calls := by
  cases hput : s.worker.put c index with
  | placed i w => simp [Session.attempt, hput]
  | full => simp [Session.attempt, hput]
  | refused => simp [Session.attempt, hput]

/-- Every call so far is placed, waiting or refused, and only one of these. -/
theorem callIds_step (h : s.callIds.Perm (List.range s.calls)) (a : WorkerStep) :
    (s.step a).callIds.Perm (List.range (s.step a).calls) := by
  cases a with
  | put c index =>
      rw [Session.step, calls_attempt, List.range_succ]
      have hattempt := callIds_attempt { s with calls := s.calls + 1 } s.calls c index
      have hold : (s.calls :: s.callIds).Perm (s.calls :: List.range s.calls) := h.cons s.calls
      exact (hattempt.trans hold).trans (List.perm_append_singleton _ _).symm
  | retry position =>
      rw [Session.step]
      split
      next call c hblocked =>
        rw [calls_attempt]
        have hattempt :=
          callIds_attempt { s with blocked := s.blocked.eraseIdx position } call c none
        obtain ⟨hlt, hget⟩ := List.getElem?_eq_some_iff.mp hblocked
        have herase : ((call, c) :: s.blocked.eraseIdx position).Perm s.blocked := by
          rw [← hget]
          exact List.getElem_cons_eraseIdx_perm hlt
        have hback : (call :: ({ s with blocked := s.blocked.eraseIdx position }
            : Session).callIds).Perm s.callIds := by
          have hids := herase.map (·.1)
          rw [List.perm_iff_count] at hids ⊢
          intro n
          have hn := hids n
          simp only [callIds, List.map_cons, List.count_cons, List.count_append] at hn ⊢
          omega
        exact (hattempt.trans hback).trans h
      · exact h
  | start | sync | outcome ok =>
      rw [Session.step]
      split
      · exact h
      · exact h
  | expire | poll | recycle | close => exact h

theorem callIds_run (steps : List WorkerStep) :
    (run steps).callIds.Perm (List.range (run steps).calls) := by
  have hrun : ∀ s : Session, s.callIds.Perm (List.range s.calls) →
      (steps.foldl Session.step s).callIds.Perm
        (List.range (steps.foldl Session.step s).calls) := by
    induction steps with
    | nil => exact fun _ h => h
    | cons a steps ih => exact fun s h => ih (s.step a) (callIds_step h a)
  exact hrun {} (List.Perm.refl _)

/-! ## The account of a run -/

/-- The account that a session gives of the commitments handed to its worker. -/
structure Accounts (s : Session) : Prop where
  /-- A call is placed once, waits or is refused, and only one of these. -/
  calls : s.callIds.Perm (List.range s.calls)
  /-- A placed commitment is one of those that make up the entry at its place. -/
  placed_in : ∀ p ∈ s.placed, ∃ es e,
    s.worker.batches[p.batch]? = some es ∧ es[p.entry]? = some e ∧
      p.commitment ∈ s.commitmentsAt p.batch p.entry ∧
      coalesced (s.commitmentsAt p.batch p.entry) = some e
  /-- An entry is made up of placed commitments only. -/
  entry_from : ∀ n es j e, s.worker.batches[n]? = some es → es[j]? = some e →
    coalesced (s.commitmentsAt n j) = some e
  /-- The batch of a placed commitment still receives, is in the hands of the
  consumer, or was given to the table once. -/
  whereabouts : ∀ p ∈ s.placed,
    (p.batch = s.worker.opened ∧ ∃ b, s.worker.receiving = some b ∧
      s.worker.batches[p.batch]? = some b.entries) ∨
    (p.batch = s.worker.flushed.length ∧ ∃ b, s.worker.inFlight? = some b ∧
      s.worker.batches[p.batch]? = some b.entries) ∨
    (p.batch < s.worker.flushed.length ∧ ∃ es, s.worker.batches[p.batch]? = some es ∧
      s.handed.filter (·.2 == p.batch) = [(es, p.batch)])
  /-- The table is given the batches in the order they were opened, -/
  handed_order : s.handed.Pairwise fun a b => a.2 < b.2
  /-- each as it is, and none too large. -/
  handed_batch : ∀ a ∈ s.handed,
    s.worker.batches[a.2]? = some a.1 ∧ a.1.length ≤ batchSize
  /-- What was refused is in no batch. -/
  refused_nowhere : ∀ r ∈ s.refused, ∀ p ∈ s.placed, p.call ≠ r.1
  /-- When the consumer has ended, nothing is left behind. -/
  ended : s.worker.consumer = .ended → s.worker.receiving = none ∧
    ∀ p ∈ s.placed, ∃ es, s.worker.batches[p.batch]? = some es ∧
      s.handed.filter (·.2 == p.batch) = [(es, p.batch)]

theorem filter_eq_singleton {α : Type} {l : List (α × Nat)}
    (h : l.Pairwise fun a b => a.2 < b.2) {a : α} {n : Nat} (ha : (a, n) ∈ l) :
    l.filter (·.2 == n) = [(a, n)] := by
  induction l with
  | nil => cases ha
  | cons e rest ih =>
      obtain ⟨hfirst, hrest⟩ := List.pairwise_cons.mp h
      rcases List.mem_cons.mp ha with rfl | ha
      · have hnone : rest.filter (·.2 == n) = [] := by
          rw [List.filter_eq_nil_iff]
          intro b hb hbn
          have hlt : n < b.2 := hfirst b hb
          have heq : b.2 = n := by simpa using hbn
          omega
        simp [hnone]
      · have hlt : e.2 < n := hfirst _ ha
        have hne : (e.2 == n) = false := by
          rw [beq_eq_false_iff_ne]
          omega
        rw [List.filter_cons, hne]
        exact ih hrest ha

theorem Faithful.handed_once (h : s.Faithful) {p : Placed} (hp : p ∈ s.placed)
    (hn : p.batch < s.worker.settled) :
    ∃ es, s.worker.batches[p.batch]? = some es ∧
      s.handed.filter (·.2 == p.batch) = [(es, p.batch)] := by
  obtain ⟨es, hes, hlt⟩ := h.located p hp
  refine ⟨es, hes, ?_⟩
  rw [h.handed_eq]
  apply filter_eq_singleton (Worker.pairwise_delivered s.worker)
  rw [Worker.mem_delivered]
  refine ⟨hn, hes, ?_⟩
  rintro rfl
  exact Nat.not_lt_zero _ hlt

/-- In every state that a worker reaches in whatever order of steps, no accepted
commitment is lost, duplicated or reordered. -/
theorem run_accounts (steps : List WorkerStep) : (run steps).Accounts := by
  have h := faithful_run steps
  have hcalls := callIds_run steps
  generalize run steps = s at h hcalls
  have hdistinct : s.callIds.Nodup := hcalls.nodup_iff.mpr List.nodup_range
  refine ⟨hcalls, ?_, ?_, ?_, ?_, ?_, ?_, ?_⟩
  · intro p hp
    obtain ⟨es, hes, hlt⟩ := h.located p hp
    have hat := h.entries_eq p.batch es p.entry hes
    rw [List.getElem?_eq_getElem hlt] at hat
    refine ⟨es, es[p.entry], hes, List.getElem?_eq_getElem hlt, ?_, hat.symm⟩
    apply List.mem_map_of_mem
    simpa using hp
  · intro n es j e hes he
    rw [← h.entries_eq n es j hes]
    exact he
  · intro p hp
    obtain ⟨es, hes, -⟩ := h.located p hp
    rcases Worker.batch_cases hes with ⟨hn, b, hb, rfl⟩ | ⟨hn, b, hb, rfl⟩ | hn
    · exact .inl ⟨hn, b, hb, hes⟩
    · exact .inr (.inl ⟨hn, b, hb, hes⟩)
    · have hsettled := Nat.lt_of_lt_of_le hn s.worker.length_flushed_le_settled
      exact .inr (.inr ⟨hn, h.handed_once hp hsettled⟩)
  · rw [h.handed_eq]
    exact Worker.pairwise_delivered s.worker
  · intro a ha
    rw [h.handed_eq] at ha
    obtain ⟨-, hes, -⟩ := Worker.mem_delivered.mp ha
    exact ⟨hes, h.orderly.bounded a.1 (List.mem_of_getElem? hes)⟩
  · intro r hr p hp heq
    have hdisjoint := (List.nodup_append.mp hdistinct).2.2
    apply hdisjoint p.call _ r.1 _ heq
    · exact List.mem_append_left _ (List.mem_map_of_mem hp)
    · exact List.mem_map_of_mem hr
  · intro hended
    have hnone := h.orderly.final_gone (by rw [hended]; rfl)
    refine ⟨hnone, ?_⟩
    intro p hp
    apply h.handed_once hp
    obtain ⟨es, hes, -⟩ := h.located p hp
    have hlt := (List.getElem?_eq_some_iff.mp hes).1
    rw [Worker.batches_of_receiving_none hnone, Worker.length_closedBatches] at hlt
    simpa [Worker.opened, Worker.settled, Worker.inFlight?, hended] using hlt

end Session

end WriteBehind
