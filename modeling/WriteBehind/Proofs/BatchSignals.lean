import WriteBehind.Batch

/-!
# What the waiters of a batch are told

A batch is used again and again: it is filled, closed for writing, and emptied by a reset.
Those who wait for a reset share a signal, which the batch makes when the first of them asks
and holds until the reset.  The reset writes into it whether the batch was abandoned and lets
go of it, and that releases whoever waits (`Signals`).  A waiter may look at its signal long
after that, when the batch has other ones in use.

The batch itself keeps no signals.  It counts its resets, and a waiter is the number of resets
before it (`Batch.waiter`).  `BatchUse` puts a batch and its signals side by side, and
`BatchUse.run_reports` says of any calls that both tell a waiter the same: nothing up to the
first reset after it was taken, and from then on the fate of the batch at that reset.
-/

namespace WriteBehind

/-! ## Signals -/

/-- What the waiters of one use of a batch share. -/
structure Signal where
  /-- Whether the batch was abandoned. -/
  aborted : Bool := false
  /-- Whether the batch has let go of the signal. -/
  released : Bool := false

namespace Signal

/-- The signal with the fate of its batch. -/
def raise (s : Signal) (aborted : Bool) : Signal := { s with aborted }

/-- The signal when its batch lets go of it. -/
def release (s : Signal) : Signal := { s with released := true }

/-- What a waiter is told: nothing before the release, then whether the batch was saved. -/
def told? (s : Signal) : Option Bool := if s.released then some (!s.aborted) else none

end Signal

/-- The signals that a batch has made, in their order, and the number of the one that it
holds. -/
structure Signals where
  made : List Signal := []
  held : Option Nat := none

namespace Signals

/-- The signal for a waiter: the one that is held, or else a new one. -/
def waiter (s : Signals) : Nat × Signals :=
  match s.held with
  | some n => (n, s)
  | none => (s.made.length, ⟨s.made ++ [{}], some s.made.length⟩)

/-- Writes the fate of the batch into the signal that is held, and lets go of it. -/
def settle (s : Signals) (aborted : Bool) : Signals :=
  match s.held with
  | some n => ⟨s.made.modify n fun signal => (signal.raise aborted).release, none⟩
  | none => s

/-- What the waiters of a signal are told. -/
def told? (s : Signals) (n : Nat) : Option Bool := s.made[n]?.bind Signal.told?

/-- The signal that is held is as it was made. -/
def Silent (s : Signals) : Prop := ∀ n, s.held = some n → s.made[n]? = some {}

variable {s : Signals} {n : Nat}

theorem silent_new : ({} : Signals).Silent := by
  intro n hn
  cases hn

theorem Silent.told?_eq_none (h : s.Silent) (hn : s.held = some n) : s.told? n = none := by
  rw [told?, h n hn]
  rfl

theorem held_waiter (s : Signals) : s.waiter.2.held = some s.waiter.1 := by
  cases hheld : s.held with
  | some m => simp [waiter, hheld]
  | none => simp [waiter, hheld]

/-- A signal that was just made tells nothing, so one more waiter changes nothing of what
others are told. -/
theorem told?_waiter (s : Signals) (n : Nat) : s.waiter.2.told? n = s.told? n := by
  cases hheld : s.held with
  | some m => simp [waiter, hheld]
  | none =>
      simp only [waiter, hheld, told?]
      rcases Nat.lt_trichotomy n s.made.length with hlt | rfl | hgt
      · rw [List.getElem?_append_left hlt]
      · rw [List.getElem?_concat_length, List.getElem?_eq_none (Nat.le_refl _)]
        rfl
      · rw [List.getElem?_eq_none (Nat.le_of_lt hgt), List.getElem?_eq_none]
        rw [List.length_append]
        exact hgt

theorem Silent.waiter (h : s.Silent) : s.waiter.2.Silent := by
  intro n hn
  cases hheld : s.held with
  | some m =>
      simp only [Signals.waiter, hheld] at hn ⊢
      exact h n (hheld.trans hn)
  | none =>
      simp only [Signals.waiter, hheld, Option.some.injEq] at hn ⊢
      rw [← hn]
      exact List.getElem?_concat_length

theorem held_settle (s : Signals) (aborted : Bool) : (s.settle aborted).held = none := by
  cases hheld : s.held with
  | some m => simp [settle, hheld]
  | none => simp [settle, hheld]

theorem Silent.settle (s : Signals) (aborted : Bool) : (s.settle aborted).Silent := by
  intro n hn
  rw [held_settle] at hn
  cases hn

/-- The signal that was held tells the fate of the batch, the other ones tell what they told
before. -/
theorem Silent.told?_settle (h : s.Silent) (aborted : Bool) (n : Nat) :
    (s.settle aborted).told? n = if s.held = some n then some (!aborted) else s.told? n := by
  cases hheld : s.held with
  | none => simp [Signals.settle, hheld]
  | some m =>
      simp only [Signals.settle, hheld, told?, List.getElem?_modify, Option.some.injEq]
      by_cases hmn : m = n
      · subst hmn
        simp [h m hheld, Signal.raise, Signal.release, Signal.told?]
      · simp [hmn]

end Signals

/-! ## Batches in use -/

/-- A call on a batch. -/
inductive BatchCall where
  | put (c : Commitment) (index : Option Nat)
  | markOvertime
  | retire
  | waiter
  | reset (aborted : Bool)

/-- Whether a call is a reset, and if so, whether the batch was abandoned. -/
def BatchCall.reset? : BatchCall → Option Bool
  | .reset aborted => some aborted
  | .put _ _ | .markOvertime | .retire | .waiter => none

/-- The resets among some calls: whether the batch was abandoned. -/
def resets (calls : List BatchCall) : List Bool := calls.filterMap BatchCall.reset?

@[simp] theorem resets_nil : resets [] = [] := rfl

@[simp] theorem resets_cons (call : BatchCall) (calls : List BatchCall) :
    resets (call :: calls) = call.reset?.toList ++ resets calls := by
  cases call <;> rfl

@[simp] theorem resets_append (calls calls' : List BatchCall) :
    resets (calls ++ calls') = resets calls ++ resets calls' :=
  List.filterMap_append

/-- A batch and its signals. -/
structure BatchUse where
  batch : Batch
  signals : Signals := {}

namespace BatchUse

/-- A new batch, which logs to a journal file. -/
def new (buffer : Nat) (journal : JournalFile) : BatchUse := { batch := { buffer, journal } }

/-- A call on the batch.  A commitment that is handed back leaves it as it is. -/
def call (u : BatchUse) : BatchCall → BatchUse
  | .put c index =>
    match u.batch.put c index with
    | .ok (_, batch) => { u with batch }
    | .error _ => u
  | .markOvertime => { u with batch := u.batch.markOvertime }
  | .retire => { u with batch := u.batch.retire }
  | .waiter => ⟨u.batch.waiter.2, u.signals.waiter.2⟩
  | .reset aborted => ⟨u.batch.reset aborted, u.signals.settle aborted⟩

/-- The batch after some calls. -/
def after (u : BatchUse) (calls : List BatchCall) : BatchUse := calls.foldl call u

/-- What a waiter is told that would be taken at an earlier time: by its signal, and by the
batch. -/
def told (u earlier : BatchUse) : Option Bool × Option Bool :=
  (u.signals.told? earlier.signals.waiter.1, u.batch.fate? earlier.batch.waiter.1)

variable {u : BatchUse} {n : Nat}

@[simp] theorem after_nil (u : BatchUse) : u.after [] = u := rfl

@[simp] theorem after_cons (u : BatchUse) (call : BatchCall) (calls : List BatchCall) :
    u.after (call :: calls) = (u.call call).after calls := rfl

@[simp] theorem after_append (u : BatchUse) (calls calls' : List BatchCall) :
    u.after (calls ++ calls') = (u.after calls).after calls' :=
  List.foldl_append

/-! ### What a call does -/

/-- What a call leaves alone that neither takes a waiter nor resets the batch. -/
structure Spares (u u' : BatchUse) : Prop where
  signals : u'.signals = u.signals
  awaited : u'.batch.awaited = u.batch.awaited
  fates : u'.batch.fates = u.batch.fates
  destroyed : u'.batch.journal.destroyed = u.batch.journal.destroyed

theorem spares_put (u : BatchUse) (c : Commitment) (index : Option Nat) :
    Spares u (u.call (.put c index)) := by
  cases hput : u.batch.put c index with
  | error back =>
      simp only [call, hput]
      exact ⟨rfl, rfl, rfl, rfl⟩
  | ok r =>
      obtain ⟨i, b⟩ := r
      simp only [call, hput]
      rcases Batch.put_eq_ok hput with ⟨-, -, rfl⟩ | ⟨-, entry, merged, -, -, rfl⟩
      · exact ⟨rfl, rfl, rfl, rfl⟩
      · exact ⟨rfl, rfl, rfl, rfl⟩

/-- A batch is left alone by its calls, gives a waiter out, or is reset. -/
theorem call_cases (u : BatchUse) (c : BatchCall) :
    (c.reset? = none ∧ Spares u (u.call c)) ∨ c = .waiter ∨ ∃ aborted, c = .reset aborted := by
  cases c with
  | put c index => exact .inl ⟨rfl, spares_put u c index⟩
  | markOvertime | retire => exact .inl ⟨rfl, rfl, rfl, rfl, rfl⟩
  | waiter => exact .inr (.inl rfl)
  | reset aborted => exact .inr (.inr ⟨aborted, rfl⟩)

theorem fates_call (u : BatchUse) (c : BatchCall) :
    (u.call c).batch.fates = u.batch.fates ++ c.reset?.toList.map (!·) := by
  rcases call_cases u c with ⟨hc, hspares⟩ | rfl | ⟨aborted, rfl⟩
  · rw [hspares.fates, hc]
    exact (List.append_nil _).symm
  · exact (List.append_nil _).symm
  · rfl

/-- A reset destroys the journal file once if the batch was saved, and nothing else does. -/
theorem destroyed_call (u : BatchUse) (c : BatchCall) :
    (u.call c).batch.journal.destroyed =
      u.batch.journal.destroyed + c.reset?.toList.count false := by
  rcases call_cases u c with ⟨hc, hspares⟩ | rfl | ⟨aborted, rfl⟩
  · rw [hspares.destroyed, hc]
    rfl
  · rfl
  · cases aborted with
    | true => rfl
    | false => rfl

/-- The batch is awaited as long as it holds a signal. -/
theorem awaited_call (h : u.batch.awaited = u.signals.held.isSome) (c : BatchCall) :
    (u.call c).batch.awaited = (u.call c).signals.held.isSome := by
  rcases call_cases u c with ⟨-, hspares⟩ | rfl | ⟨aborted, rfl⟩
  · rw [hspares.awaited, hspares.signals]
    exact h
  · simp only [call, Signals.held_waiter]
    rfl
  · simp only [call, Signals.held_settle]
    rfl

theorem silent_call (h : u.signals.Silent) (c : BatchCall) : (u.call c).signals.Silent := by
  rcases call_cases u c with ⟨-, hspares⟩ | rfl | ⟨aborted, rfl⟩
  · rw [hspares.signals]
    exact h
  · exact h.waiter
  · exact .settle u.signals aborted

/-- Only a reset tells those something who wait for the signal that is held, and nobody else
is told anything new. -/
theorem told?_call (h : u.signals.Silent) (c : BatchCall) (n : Nat) :
    (u.call c).signals.told? n =
      if u.signals.held = some n then c.reset?.map (!·) else u.signals.told? n := by
  have hquiet : u.signals.told? n =
      if u.signals.held = some n then none else u.signals.told? n := by
    split
    next hheld => exact h.told?_eq_none hheld
    · rfl
  rcases call_cases u c with ⟨hc, hspares⟩ | rfl | ⟨aborted, rfl⟩
  · rw [hspares.signals, hc]
    exact hquiet
  · exact (u.signals.told?_waiter n).trans hquiet
  · exact h.told?_settle aborted n

/-- A signal is held up to the next reset. -/
theorem held_call {c : BatchCall} (hheld : u.signals.held = some n) (hc : c.reset? = none) :
    (u.call c).signals.held = some n := by
  rcases call_cases u c with ⟨-, hspares⟩ | rfl | ⟨aborted, rfl⟩
  · rw [hspares.signals]
    exact hheld
  · simp [call, Signals.waiter, hheld]
  · cases hc

/-! ### What calls do -/

theorem fates_after (u : BatchUse) (calls : List BatchCall) :
    (u.after calls).batch.fates = u.batch.fates ++ (resets calls).map (!·) := by
  induction calls generalizing u with
  | nil => simp
  | cons c calls ih => simp [ih, fates_call]

theorem destroyed_after (u : BatchUse) (calls : List BatchCall) :
    (u.after calls).batch.journal.destroyed =
      u.batch.journal.destroyed + (resets calls).count false := by
  induction calls generalizing u with
  | nil => simp
  | cons c calls ih => simp only [after_cons, ih, destroyed_call, resets_cons, List.count_append,
      Nat.add_assoc]

theorem awaited_after (h : u.batch.awaited = u.signals.held.isSome) (calls : List BatchCall) :
    (u.after calls).batch.awaited = (u.after calls).signals.held.isSome := by
  induction calls generalizing u with
  | nil => exact h
  | cons c calls ih => exact ih (awaited_call h c)

theorem silent_after (h : u.signals.Silent) (calls : List BatchCall) :
    (u.after calls).signals.Silent := by
  induction calls generalizing u with
  | nil => exact h
  | cons c calls ih => exact ih (silent_call h c)

/-- Who has been told something is told the same ever after. -/
theorem told?_after_of_told (h : u.signals.Silent) {saved : Bool}
    (htold : u.signals.told? n = some saved) (calls : List BatchCall) :
    (u.after calls).signals.told? n = some saved := by
  induction calls generalizing u with
  | nil => exact htold
  | cons c calls ih =>
      have hfree : u.signals.held ≠ some n := by
        intro hheld
        rw [h.told?_eq_none hheld] at htold
        cases htold
      exact ih (silent_call h c) ((told?_call h c n).trans ((if_neg hfree).trans htold))

/-- The first reset decides what those are told who wait for the signal that is held. -/
theorem told?_after_of_held (h : u.signals.Silent) (hheld : u.signals.held = some n)
    (calls : List BatchCall) :
    (u.after calls).signals.told? n = (resets calls).head?.map (!·) := by
  induction calls generalizing u with
  | nil => exact h.told?_eq_none hheld
  | cons c calls ih =>
      have hnext : (u.call c).signals.told? n = c.reset?.map (!·) :=
        (told?_call h c n).trans (if_pos hheld)
      cases hreset : c.reset? with
      | none =>
          rw [after_cons, ih (silent_call h c) (held_call hheld hreset), resets_cons, hreset]
          rfl
      | some aborted =>
          rw [hreset] at hnext
          rw [after_cons, told?_after_of_told (silent_call h c) hnext, resets_cons, hreset]
          rfl

/-- A waiter is told the fate of the batch at the first reset after it was taken. -/
theorem told_after (h : u.signals.Silent) (calls : List BatchCall) :
    (u.after (.waiter :: calls)).told u =
      ((resets calls).head?.map (!·), (resets calls).head?.map (!·)) := by
  refine Prod.ext ?_ ?_
  · exact told?_after_of_held h.waiter u.signals.held_waiter calls
  · have hfates : (u.after (.waiter :: calls)).batch.fates =
        u.batch.fates ++ (resets calls).map (!·) := fates_after u (.waiter :: calls)
    simp only [told, Batch.fate?, Batch.waiter, hfates]
    rw [List.getElem?_append_right (Nat.le_refl _), Nat.sub_self, List.getElem?_map,
      List.head?_eq_getElem?]

/-! ## The report of all calls -/

/-- What the calls on a batch come to. -/
structure Reports (start : BatchUse) (calls : List BatchCall) : Prop where
  /-- A waiter is told nothing up to the first reset after it was taken.  From then on it is
  told whether the batch was saved at that reset, by its signal as by the batch. -/
  told : ∀ before later, calls = before ++ .waiter :: later →
    (start.after calls).told (start.after before) =
      ((resets later).head?.map (!·), (resets later).head?.map (!·))
  /-- Waiters between which there is no reset are told the same at any time. -/
  together : ∀ before between later, calls = before ++ .waiter :: (between ++ .waiter :: later) →
    resets between = [] → (start.after calls).told (start.after before) =
      (start.after calls).told (start.after (before ++ .waiter :: between))
  /-- The batch is due for its waiters as long as it holds their signal. -/
  awaited : (start.after calls).batch.awaited = (start.after calls).signals.held.isSome
  /-- Each reset of a saved batch destroys the journal file once, no other call does. -/
  destroyed : (start.after calls).batch.journal.destroyed =
    start.batch.journal.destroyed + (resets calls).count false
  /-- A reset leaves the batch empty and not due. -/
  emptied : ∀ before aborted, calls = before ++ [.reset aborted] →
    (start.after calls).batch.isEmpty = true ∧ (start.after calls).batch.consumable = false

/-- Whatever is done with a batch, each waiter is told how the use of the batch went in which
it was taken. -/
theorem run_reports (buffer : Nat) (journal : JournalFile) (calls : List BatchCall) :
    (new buffer journal).Reports calls := by
  have hsilent : ∀ calls, ((new buffer journal).after calls).signals.Silent :=
    silent_after Signals.silent_new
  have htold : ∀ before later, calls = before ++ .waiter :: later →
      ((new buffer journal).after calls).told ((new buffer journal).after before) =
        ((resets later).head?.map (!·), (resets later).head?.map (!·)) := by
    rintro before later rfl
    rw [after_append]
    exact told_after (hsilent before) later
  refine ⟨htold, ?_, awaited_after rfl calls, destroyed_after _ calls, ?_⟩
  · intro before between later hcalls hbetween
    have hsecond : calls = (before ++ .waiter :: between) ++ .waiter :: later := by
      rw [hcalls, List.append_assoc, List.cons_append]
    rw [htold before _ hcalls, htold _ later hsecond, resets_append, hbetween]
    rfl
  · rintro before aborted rfl
    rw [after_append]
    exact ⟨rfl, rfl⟩

/-- An abandoned batch that is used again: the waiters of its first use stay with the bad
news. -/
example (buffer : Nat) (journal : JournalFile) :
    let start := new buffer journal
    let calls : List BatchCall := [.waiter, .reset true, .waiter, .reset false]
    (start.after calls).told start = (some false, some false) ∧
      (start.after calls).told (start.after [.waiter, .reset true]) = (some true, some true) :=
  ⟨rfl, rfl⟩

end BatchUse

end WriteBehind
