import WriteBehind.Proofs.TableWrites

/-!
# Runs of attempts

`Retries` tells how a run of attempts goes: which outcomes the attempts have, one after
the other, and in which state the run ends.  A failed attempt is followed by one
question and a success by none, so a run ends with its first success or with the first
question that is answered with no.  It is the run that `retryWhile` makes within any bound
that leaves room for its attempts (`Retries.retryWhile_eq`), so the bound never shows.

A table in memory refuses as many attempts as it was told to and takes the one after
them.  Its runs of attempts always end, and `MemoryTable.save_once_or_not_at_all` says
what a call that hands over commitments leaves behind.
-/

namespace WriteBehind

section Runs

variable {σ ε α : Type}

/-- A run of attempts: from a state, with the outcomes of the attempts in order, to a
state. -/
inductive Retries (op : σ → Except ε α × σ) (running : σ → Bool × σ) :
    σ → List (Except ε α) → σ → Prop
  | success {s s' : σ} {a : α} (taken : op s = (.ok a, s')) :
      Retries op running s [.ok a] s'
  | stopped {s s₁ s' : σ} {e : ε} (refused : op s = (.error e, s₁))
      (no : running s₁ = (false, s')) :
      Retries op running s [.error e] s'
  | again {s s₁ s₂ s' : σ} {e : ε} {outcomes : List (Except ε α)}
      (refused : op s = (.error e, s₁)) (yes : running s₁ = (true, s₂))
      (rest : Retries op running s₂ outcomes s') :
      Retries op running s (.error e :: outcomes) s'

/-- The number of attempts that failed. -/
def refusals (outcomes : List (Except ε α)) : Nat := outcomes.countP (!·.isOk)

@[simp] theorem refusals_ok (a : α) : refusals [(.ok a : Except ε α)] = 0 := rfl

@[simp] theorem refusals_error_cons (e : ε) (outcomes : List (Except ε α)) :
    refusals (.error e :: outcomes) = refusals outcomes + 1 :=
  List.countP_cons_of_pos rfl

@[simp] theorem refusals_nil : refusals ([] : List (Except ε α)) = 0 := rfl

@[simp] theorem any_isOk_error_cons (e : ε) (outcomes : List (Except ε α)) :
    (Except.error e :: outcomes).any (·.isOk) = outcomes.any (·.isOk) := rfl

namespace Retries

variable {op : σ → Except ε α × σ} {running : σ → Bool × σ} {s s' : σ}
  {outcomes : List (Except ε α)}

/-- The first attempt is always made. -/
theorem ne_nil (h : Retries op running s outcomes s') : outcomes ≠ [] := by
  cases h with
  | success _ | stopped _ _ | again _ _ _ => exact List.cons_ne_nil _ _

/-- Within a bound that is large enough, a run is the one that is made, and its last
outcome is the result. -/
theorem retryWhile_eq (h : Retries op running s outcomes s') {bound : Nat}
    (hbound : outcomes.length ≤ bound) :
    ∃ result, outcomes.getLast? = some result ∧
      retryWhile op running bound s = some (result, s') := by
  induction h generalizing bound with
  | success taken =>
      obtain ⟨n, rfl⟩ := Nat.exists_eq_add_of_le' hbound
      exact ⟨_, rfl, by simp [retryWhile, taken]⟩
  | stopped refused no =>
      obtain ⟨n, rfl⟩ := Nat.exists_eq_add_of_le' hbound
      exact ⟨_, rfl, by simp [retryWhile, refused, no]⟩
  | again refused yes rest ih =>
      rw [List.length_cons] at hbound
      obtain ⟨n, rfl⟩ := Nat.exists_eq_add_of_le' (Nat.one_le_of_lt hbound)
      obtain ⟨result, hlast, hrun⟩ := ih (Nat.le_of_succ_le_succ hbound)
      refine ⟨result, ?_, ?_⟩
      · rw [List.getLast?_cons_of_ne_nil rest.ne_nil, hlast]
      · simp [retryWhile, refused, yes, hrun]

/-- A run has a success exactly if that is its result. -/
theorem any_isOk_eq (h : Retries op running s outcomes s') {result : Except ε α}
    (hlast : outcomes.getLast? = some result) : outcomes.any (·.isOk) = result.isOk := by
  induction h with
  | success taken | stopped refused no =>
      obtain rfl := Option.some.inj hlast
      simp
  | again refused yes rest ih =>
      rw [List.getLast?_cons_of_ne_nil rest.ne_nil] at hlast
      rw [any_isOk_error_cons]
      exact ih hlast

end Retries

end Runs

/-! ## Attempts at a table in memory -/

namespace MemoryTable

/-- A table that has refused a number of attempts. -/
def afterRefusals (t : MemoryTable) (n : Nat) : MemoryTable :=
  { t with failBudget := t.failBudget - n, failures := t.failures + n }

/-- A table that has taken some writes. -/
def taking (t : MemoryTable) (ws : List PreparedWrite) : MemoryTable :=
  { t with rows := t.rows.applyAll ws, written := t.written + t.rows.countWritten ws }

@[simp] theorem afterRefusals_zero (t : MemoryTable) : t.afterRefusals 0 = t := by
  simp [afterRefusals]

theorem afterRefusals_succ (t : MemoryTable) (n : Nat) :
    (t.afterRefusals 1).afterRefusals n = t.afterRefusals (n + 1) := by
  simp [afterRefusals, Nat.sub_sub, Nat.add_assoc, Nat.add_comm 1 n]

theorem tryOnce_of_budget {t : MemoryTable} (h : t.failBudget ≠ 0) (ws : List PreparedWrite)
    (asked : Nat) :
    tryOnce ws (t, asked) =
      (.error (.custom s!"{t.name} refused the write"), t.afterRefusals 1, asked) := by
  obtain ⟨budget, hbudget⟩ := Nat.exists_eq_succ_of_ne_zero h
  simp [tryOnce, apply, afterRefusals, hbudget]

theorem tryOnce_of_no_budget {t : MemoryTable} (h : t.failBudget = 0) (ws : List PreparedWrite)
    (asked : Nat) : tryOnce ws (t, asked) = (.ok (), t.taking ws, asked) := by
  simp [tryOnce, apply, taking, h]

/-- The attempts at some writes, with the questions counted on from a number.  As long
as the answers are yes, one attempt fails for each that the table was told to refuse,
and the next one is taken; at the first no nothing more is tried. -/
theorem exists_retries (answers : Nat → Bool) (ws : List PreparedWrite) (t : MemoryTable)
    (asked : Nat) :
    ∃ outcomes after,
      Retries (tryOnce ws) (ask answers) (t, asked) outcomes
        (after, asked + refusals outcomes) ∧
      refusals outcomes ≤ t.failBudget ∧ outcomes.length ≤ t.failBudget + 1 ∧
      ((outcomes.any (·.isOk) = true ∧ (∀ k < t.failBudget, answers (asked + k) = true) ∧
          after = (t.afterRefusals (refusals outcomes)).taking ws) ∨
        (outcomes.any (·.isOk) = false ∧ (∃ k < t.failBudget, answers (asked + k) = false) ∧
          after = t.afterRefusals (refusals outcomes))) := by
  generalize hbudget : t.failBudget = budget
  induction budget generalizing t asked with
  | zero =>
      refine ⟨[.ok ()], t.taking ws, .success (tryOnce_of_no_budget hbudget ws asked), ?_, ?_, ?_⟩
      · simp
      · simp
      · left
        exact ⟨rfl, fun k hk => absurd hk (Nat.not_lt_zero k), by simp⟩
  | succ budget ih =>
      have hrefused := tryOnce_of_budget (by omega : t.failBudget ≠ 0) ws asked
      have hleft : (t.afterRefusals 1).failBudget = budget := by simp [afterRefusals, hbudget]
      cases hanswer : answers asked with
      | false =>
          have hno : ask answers (t.afterRefusals 1, asked) =
              (false, t.afterRefusals 1, asked + 1) := by simp [ask, hanswer]
          refine ⟨_, t.afterRefusals 1, .stopped hrefused hno, by simp, by simp, ?_⟩
          right
          exact ⟨rfl, ⟨0, Nat.succ_pos budget, hanswer⟩, rfl⟩
      | true =>
          have hyes : ask answers (t.afterRefusals 1, asked) =
              (true, t.afterRefusals 1, asked + 1) := by simp [ask, hanswer]
          obtain ⟨outcomes, after, hrest, hfew, hlength, hcases⟩ := ih (t.afterRefusals 1)
            (asked + 1) hleft
          refine ⟨.error (.custom s!"{t.name} refused the write") :: outcomes, after,
            .again hrefused hyes ?_, ?_, ?_, ?_⟩
          · rw [refusals_error_cons, Nat.add_comm (refusals outcomes), ← Nat.add_assoc]
            exact hrest
          · rw [refusals_error_cons]
            omega
          · rw [List.length_cons]
            omega
          · rw [refusals_error_cons, any_isOk_error_cons, ← afterRefusals_succ]
            rcases hcases with ⟨hok, hall, hafter⟩ | ⟨hok, ⟨k, hk, hno⟩, hafter⟩
            · left
              refine ⟨hok, fun k hk => ?_, hafter⟩
              cases k with
              | zero => exact hanswer
              | succ k => simpa [Nat.add_assoc, Nat.add_comm 1 k] using hall k (by omega)
            · right
              refine ⟨hok, ⟨k + 1, by omega, ?_⟩, hafter⟩
              simpa [Nat.add_assoc, Nat.add_comm 1 k] using hno

/-- A table takes the commitments of a call once or not at all.  Whatever the answers
are, the attempts come to an end, in which at least one was made.  The call says yes
exactly if one of them was taken, that is if every refusal left was followed by a yes;
then the writes of all commitments that can be prepared have been applied once, in
order, and counted as written if they put or removed a row.  Otherwise no row was
touched.  Either way the refusals are counted, and taken from those left. -/
theorem save_once_or_not_at_all (answers : Nat → Bool) (t : MemoryTable)
    (cs : List Commitment) :
    ∃ outcomes after,
      Retries (tryOnce (prepareAll cs)) (ask answers) ({ t with saves := t.saves + 1 }, 0)
        outcomes (after, refusals outcomes) ∧
      outcomes ≠ [] ∧
      t.save answers cs = (outcomes.any (·.isOk), after) ∧
      (outcomes.any (·.isOk) = true ↔ ∀ k < t.failBudget, answers k = true) ∧
      (outcomes.any (·.isOk) = true →
        after.rows = t.rows.applyAll (prepareAll cs) ∧
        after.written = t.written + t.rows.countWritten (prepareAll cs)) ∧
      (outcomes.any (·.isOk) = false → after.rows = t.rows ∧ after.written = t.written) ∧
      after.failures = t.failures + refusals outcomes ∧
      after.failBudget + refusals outcomes = t.failBudget ∧
      after.saves = t.saves + 1 ∧ after.name = t.name := by
  obtain ⟨outcomes, after, hrun, hfew, hlength, hcases⟩ :=
    exists_retries answers (prepareAll cs) { t with saves := t.saves + 1 } 0
  rw [Nat.zero_add] at hrun
  have hsave : t.save answers cs = (outcomes.any (·.isOk), after) := by
    obtain ⟨result, hlast, hattempts⟩ := hrun.retryWhile_eq hlength
    rw [hrun.any_isOk_eq hlast]
    rw [← attempts_eq { t with saves := t.saves + 1 }] at hattempts
    cases result with
    | ok u => simp [save, hattempts, Except.isOk, Except.toBool]
    | error e => simp [save, hattempts, Except.isOk, Except.toBool]
  refine ⟨outcomes, after, hrun, hrun.ne_nil, hsave, ?_⟩
  simp only [Nat.zero_add] at hcases
  have hleft : t.failBudget - refusals outcomes + refusals outcomes = t.failBudget :=
    Nat.sub_add_cancel hfew
  rcases hcases with ⟨hok, hall, rfl⟩ | ⟨hok, ⟨k, hk, hno⟩, rfl⟩
  · refine ⟨⟨fun _ => hall, fun _ => hok⟩, fun _ => ⟨rfl, rfl⟩, ?_, rfl, hleft, rfl, rfl⟩
    intro hfalse
    rw [hok] at hfalse
    cases hfalse
  · refine ⟨⟨?_, ?_⟩, ?_, fun _ => ⟨rfl, rfl⟩, rfl, hleft, rfl, rfl⟩
    · intro htrue
      rw [hok] at htrue
      cases htrue
    · intro hall
      rw [hall k hk] at hno
      cases hno
    · intro htrue
      rw [hok] at htrue
      cases htrue

end MemoryTable

end WriteBehind
