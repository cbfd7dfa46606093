import Mathlib.Data.List.Basic
import Mathlib.Data.Nat.Find
import Mathlib.Logic.Function.Iterate
import WriteBehind.Retry

/-!
# How many attempts are made

From a state, an operation and a question have two sequences: the outcomes that attempts
would have and the answers that would be given after them, if every attempt were followed
by its question and then by another attempt (`Attempts.outcome`, `Attempts.answer`).  An
attempt ends the loop if it succeeds or if the answer after it is no.  `retryWhile` keeps
to the sequences up to the first attempt that ends it, and leaves out the question after a
success (`Attempts.retryWhile_add`, `Attempts.retryWhile_of_isLast`).

What it calls is seen from calls that write themselves down (`noted`).  The loop cannot
tell them from others, so `retryWhile_calls` has the outcome, the calls in their order, and
the loops that are never done.
-/

namespace WriteBehind

variable {σ ε α β : Type}

namespace Attempts

/-! ## Outcomes and answers one after the other -/

section Sequences

variable (op : σ → Except ε α × σ) (running : σ → Bool × σ) (s : σ)

/-- The state after an attempt and the question that follows it. -/
def round : σ := (running (op s).2).2

/-- The state before an attempt.  Attempts are counted from zero. -/
def before (n : Nat) : σ := (round op running)^[n] s

/-- The outcome of an attempt. -/
def outcome (n : Nat) : Except ε α := (op (before op running s n)).1

/-- The answer to the question after an attempt. -/
def answer (n : Nat) : Bool := (running (op (before op running s n)).2).1

/-- An attempt ends the loop if it succeeds or if the answer after it is no. -/
def Ends (n : Nat) : Prop :=
  (outcome op running s n).isOk = true ∨ answer op running s n = false

instance (n : Nat) : Decidable (Ends op running s n) :=
  inferInstanceAs (Decidable (_ ∨ _))

/-- The last attempt is the first one that ends the loop. -/
def IsLast (k : Nat) : Prop :=
  Ends op running s k ∧ ∀ j < k, ¬ Ends op running s j

instance (k : Nat) : Decidable (IsLast op running s k) :=
  inferInstanceAs (Decidable (_ ∧ _))

/-- The state that the loop leaves after its last attempt.  A success is followed by no
question. -/
def after (k : Nat) : σ :=
  if (outcome op running s k).isOk then (op (before op running s k)).2
  else round op running (before op running s k)

end Sequences

section Loop

variable {op : σ → Except ε α × σ} {running : σ → Bool × σ} {s : σ} {k n : Nat}

theorem before_succ :
    before op running s (n + 1) = round op running (before op running s n) :=
  Function.iterate_succ_apply' _ n s

theorem isOk_of_not_ends (h : ¬ Ends op running s n) :
    (outcome op running s n).isOk = false :=
  Bool.eq_false_iff.2 fun hok => h (.inl hok)

theorem answer_of_not_ends (h : ¬ Ends op running s n) : answer op running s n = true :=
  (Bool.not_eq_false _).mp fun hno => h (.inr hno)

/-- A loop that some attempt ends has a last attempt. -/
theorem exists_isLast (h : Ends op running s n) : ∃ k, IsLast op running s k :=
  have hends : ∃ n, Ends op running s n := ⟨n, h⟩
  ⟨Nat.find hends, Nat.find_spec hends, fun _ hj => Nat.find_min hends hj⟩

/-! ## The loop along the sequences -/

/-- What the question after an attempt comes back with. -/
theorem running_eq (running : σ → Bool × σ) {s₁ : σ} {result : Except ε α}
    (hop : op s = (result, s₁)) :
    running s₁ = (answer op running s 0, round op running s) := by
  simp [answer, before, round, hop]

/-- An attempt that ends the loop is its result. -/
theorem retryWhile_of_ends (h : Ends op running s 0) (bound : Nat) :
    retryWhile op running (bound + 1) s =
      some (outcome op running s 0, after op running s 0) := by
  rw [retryWhile]
  split
  next a s₁ hop => simp [outcome, after, before, hop, Except.isOk, Except.toBool]
  next e s₁ hop =>
    have hfailed : outcome op running s 0 = .error e := congrArg Prod.fst hop
    have hno : answer op running s 0 = false := by
      rcases h with hok | hno
      · rw [hfailed] at hok
        cases hok
      · exact hno
    rw [running_eq running hop, hno, after, hfailed]
    rfl

/-- After any other attempt and its question the loop goes on. -/
theorem retryWhile_of_not_ends (h : ¬ Ends op running s 0) (bound : Nat) :
    retryWhile op running (bound + 1) s = retryWhile op running bound (round op running s) := by
  rw [retryWhile]
  split
  next a s₁ hop =>
    have hok : outcome op running s 0 = .ok a := congrArg Prod.fst hop
    have hfailed := isOk_of_not_ends h
    rw [hok] at hfailed
    cases hfailed
  next e s₁ hop => rw [running_eq running hop, answer_of_not_ends h]

/-- As long as no attempt ends it, the loop goes through every attempt and its question. -/
theorem retryWhile_add (h : ∀ j < n, ¬ Ends op running s j) (bound : Nat) :
    retryWhile op running (n + bound) s =
      retryWhile op running bound (before op running s n) := by
  induction n generalizing bound with
  | zero =>
      rw [Nat.zero_add]
      rfl
  | succ n ih =>
      have hnot : ¬ Ends op running (before op running s n) 0 := h n (Nat.lt_succ_self n)
      calc retryWhile op running (n + 1 + bound) s
          = retryWhile op running (n + (bound + 1)) s := by
            rw [Nat.add_assoc, Nat.add_comm 1 bound]
        _ = retryWhile op running (bound + 1) (before op running s n) :=
            ih (fun j hj => h j (Nat.lt_succ_of_lt hj)) (bound + 1)
        _ = retryWhile op running bound (before op running s (n + 1)) := by
            rw [retryWhile_of_not_ends hnot, before_succ]

/-- The loop is done with its last attempt, and not before. -/
theorem retryWhile_of_isLast (h : IsLast op running s k) (bound : Nat) :
    retryWhile op running bound s =
      if k < bound then some (outcome op running s k, after op running s k) else none := by
  split
  next hlt =>
    obtain ⟨m, rfl⟩ := Nat.exists_eq_add_of_lt hlt
    have hends : Ends op running (before op running s k) 0 := h.1
    rw [Nat.add_assoc, retryWhile_add h.2, retryWhile_of_ends hends]
    rfl
  next hle =>
    have hnot : ∀ j < bound, ¬ Ends op running s j :=
      fun j hj => h.2 j (Nat.lt_of_lt_of_le hj (Nat.le_of_not_lt hle))
    exact retryWhile_add hnot 0

/-- The loops that are never done are those that no attempt ends. -/
theorem retryWhile_eq_none_iff :
    (∀ bound, retryWhile op running bound s = none) ↔ ∀ n, ¬ Ends op running s n := by
  constructor
  · intro hnone n hends
    obtain ⟨k, hlast⟩ := exists_isLast hends
    have hdone := retryWhile_of_isLast hlast (k + 1)
    rw [hnone, if_pos (Nat.lt_succ_self k)] at hdone
    cases hdone
  · intro hnot bound
    exact retryWhile_add (fun j _ => hnot j) 0

end Loop

end Attempts

/-! ## Calls that are written down -/

/-- A call that the loop makes, with what came back. -/
inductive RetryCall (ε α : Type) where
  | attempt (outcome : Except ε α)
  | question (answer : Bool)

namespace RetryCall

/-- The outcome, if the call is an attempt. -/
def outcome? : RetryCall ε α → Option (Except ε α)
  | attempt outcome => some outcome
  | question _ => none

/-- The answer, if the call is a question. -/
def answer? : RetryCall ε α → Option Bool
  | attempt _ => none
  | question answer => some answer

end RetryCall

/-- A function whose calls are added to a list that is kept beside the state. -/
def noted (call : β → RetryCall ε α) (f : σ → β × σ) (t : σ × List (RetryCall ε α)) :
    β × σ × List (RetryCall ε α) :=
  ((f t.1).1, (f t.1).2, t.2 ++ [call (f t.1).1])

namespace Attempts

section Calls

variable (op : σ → Except ε α × σ) (running : σ → Bool × σ) (s : σ)

/-- An attempt and, if it failed, the question after it. -/
def turn (n : Nat) : List (RetryCall ε α) :=
  .attempt (outcome op running s n) ::
    if (outcome op running s n).isOk then [] else [.question (answer op running s n)]

/-- The calls of the first attempts. -/
def calls (n : Nat) : List (RetryCall ε α) := (List.range n).flatMap (turn op running s)

end Calls

variable {op : σ → Except ε α × σ} {running : σ → Bool × σ} {s : σ} {k n : Nat}

theorem calls_succ :
    calls op running s (n + 1) = calls op running s n ++ turn op running s n := by
  rw [calls, List.range_succ, List.flatMap_append, List.flatMap_singleton, calls]

theorem turn_of_not_ends (h : ¬ Ends op running s n) :
    turn op running s n = [.attempt (outcome op running s n), .question true] := by
  rw [turn, isOk_of_not_ends h, answer_of_not_ends h]
  rfl

/-! ### Attempts and questions apart -/

theorem filterMap_outcome?_calls :
    (calls op running s n).filterMap RetryCall.outcome? =
      (List.range n).map (outcome op running s) := by
  induction n with
  | zero => rfl
  | succ n ih =>
      have hturn : (turn op running s n).filterMap RetryCall.outcome? =
          [outcome op running s n] := by
        cases hok : (outcome op running s n).isOk <;> simp [turn, hok, RetryCall.outcome?]
      rw [calls_succ, List.filterMap_append, ih, hturn, List.range_succ, List.map_append,
        List.map_singleton]

/-- Up to an attempt that ends the loop, all answers are yes. -/
theorem filterMap_answer?_calls (h : ∀ j < n, ¬ Ends op running s j) :
    (calls op running s n).filterMap RetryCall.answer? = List.replicate n true := by
  induction n with
  | zero => rfl
  | succ n ih =>
      rw [calls_succ, List.filterMap_append, ih fun j hj => h j (Nat.lt_succ_of_lt hj),
        turn_of_not_ends (h n (Nat.lt_succ_self n)), List.replicate_succ']
      rfl

/-- After an attempt that ends the loop there is no answer if it succeeded, and else a no. -/
theorem filterMap_answer?_turn (h : Ends op running s k) :
    (turn op running s k).filterMap RetryCall.answer? =
      if (outcome op running s k).isOk then [] else [false] := by
  cases hok : (outcome op running s k).isOk with
  | true =>
      rw [turn, hok]
      rfl
  | false =>
      have hno : answer op running s k = false := h.resolve_left (Bool.eq_false_iff.1 hok)
      rw [turn, hok, hno]
      rfl

/-! ### The loop does not see the list -/

section Noted

variable {log : List (RetryCall ε α)}

theorem round_noted :
    round (noted .attempt op) (noted .question running) (s, log) =
      (round op running s,
        log ++ [.attempt (op s).1, .question (running (op s).2).1]) := by
  simp [round, noted]

theorem fst_before_noted :
    (before (noted .attempt op) (noted .question running) (s, log) n).1 =
      before op running s n := by
  induction n with
  | zero => rfl
  | succ n ih =>
      rw [before_succ, before_succ, ← ih]
      rfl

theorem outcome_noted :
    outcome (noted .attempt op) (noted .question running) (s, log) n =
      outcome op running s n := by
  rw [outcome, noted, fst_before_noted, outcome]

theorem answer_noted :
    answer (noted .attempt op) (noted .question running) (s, log) n =
      answer op running s n := by
  rw [answer, noted, noted, fst_before_noted, answer]

theorem isLast_noted :
    IsLast (noted .attempt op) (noted .question running) (s, log) k ↔
      IsLast op running s k := by
  simp only [IsLast, Ends, outcome_noted, answer_noted]

/-- Until an attempt ends the loop, the list has the calls of all attempts so far. -/
theorem before_noted (h : ∀ j < n, ¬ Ends op running s j) :
    before (noted .attempt op) (noted .question running) (s, log) n =
      (before op running s n, log ++ calls op running s n) := by
  induction n with
  | zero => exact Prod.ext rfl (List.append_nil log).symm
  | succ n ih =>
      have hnot : ¬ Ends op running s n := h n (Nat.lt_succ_self n)
      have hturn : [.attempt (outcome op running s n), .question (answer op running s n)] =
          turn op running s n := by
        rw [turn_of_not_ends hnot, answer_of_not_ends hnot]
      calc before (noted .attempt op) (noted .question running) (s, log) (n + 1)
          = round (noted .attempt op) (noted .question running)
              (before op running s n, log ++ calls op running s n) := by
            rw [before_succ, ih fun j hj => h j (Nat.lt_succ_of_lt hj)]
        _ = (round op running (before op running s n),
              log ++ calls op running s n ++
                [.attempt (outcome op running s n), .question (answer op running s n)]) :=
            round_noted
        _ = (before op running s (n + 1), log ++ calls op running s (n + 1)) := by
            rw [hturn, List.append_assoc, ← calls_succ, before_succ]

/-- When the loop has ended, the list has the calls of all attempts. -/
theorem after_noted (h : IsLast op running s k) :
    after (noted .attempt op) (noted .question running) (s, log) k =
      (after op running s k, log ++ calls op running s (k + 1)) := by
  rw [after, outcome_noted, before_noted h.2, round_noted, calls_succ, ← List.append_assoc]
  cases hok : (outcome op running s k).isOk with
  | true =>
      rw [after, turn, hok]
      rfl
  | false =>
      rw [after, turn, hok]
      rfl

end Noted

/-! ## The calls of a loop -/

/-- The attempts of a loop, for any operation and any question.  If an attempt is the first
that succeeds or is followed by a no, the loop is done as soon as that many attempts are
admitted, and returns the outcome of that one.  Its calls are the attempts up to it, each
made once and in order, with one question right after each that failed and none after a
success; so all answers are yes, but for a no after the last attempt if that one failed.
If there is no such attempt, and only then, the loop is never done. -/
theorem retryWhile_calls (op : σ → Except ε α × σ) (running : σ → Bool × σ) (s : σ) :
    (∀ k, IsLast op running s k →
      (∀ bound, retryWhile op running bound s =
        if k < bound then some (outcome op running s k, after op running s k) else none) ∧
      (∀ bound, retryWhile (noted .attempt op) (noted .question running) bound (s, []) =
        if k < bound then
          some (outcome op running s k, after op running s k, calls op running s (k + 1))
        else none) ∧
      (calls op running s (k + 1)).filterMap RetryCall.outcome? =
        (List.range (k + 1)).map (outcome op running s) ∧
      (calls op running s (k + 1)).filterMap RetryCall.answer? =
        List.replicate k true ++ if (outcome op running s k).isOk then [] else [false]) ∧
    ((∀ bound, retryWhile op running bound s = none) ↔ ∀ n, ¬ Ends op running s n) := by
  refine ⟨?_, retryWhile_eq_none_iff⟩
  intro k hlast
  refine ⟨retryWhile_of_isLast hlast, ?_, filterMap_outcome?_calls, ?_⟩
  · intro bound
    rw [retryWhile_of_isLast (isLast_noted.2 hlast), outcome_noted, after_noted hlast,
      List.nil_append]
  · rw [calls_succ, List.filterMap_append, filterMap_answer?_calls hlast.2,
      filterMap_answer?_turn hlast.1]

end Attempts

namespace Sample

open Attempts

/-- An operation that fails the first few times.  Its state counts the calls. -/
def flaky (fails calls : Nat) : Except Nat Nat × Nat :=
  (if calls < fails then .error (calls + 1) else .ok ((calls + 1) * 10), calls + 1)

/-- A question that is answered with yes until a number of calls was made. -/
def allowing (limit calls : Nat) : Bool × Nat := (decide (calls < limit), calls)

/-- A success at the third attempt, a no after the fourth one, and a loop that nothing
ends. -/
theorem retryWhile_calls_flaky :
    (IsLast (flaky 2) (allowing 4) 0 2 ∧
      retryWhile (noted .attempt (flaky 2)) (noted .question (allowing 4)) 9 (0, []) =
        some (.ok 30, 3,
          [.attempt (.error 1), .question true, .attempt (.error 2), .question true,
            .attempt (.ok 30)])) ∧
    (IsLast (flaky 9) (allowing 4) 0 3 ∧
      retryWhile (flaky 9) (allowing 4) 9 0 = some (.error 4, 4) ∧
      retryWhile (noted .attempt (flaky 9)) (noted .question (allowing 4)) 9 (0, []) =
        some (.error 4, 4,
          [.attempt (.error 1), .question true, .attempt (.error 2), .question true,
            .attempt (.error 3), .question true, .attempt (.error 4), .question false])) ∧
    ∀ bound, retryWhile (fun calls => ((.error calls : Except Nat Nat), calls + 1))
      (fun calls => (true, calls)) bound 0 = none := by
  have hthird : IsLast (flaky 2) (allowing 4) 0 2 := by decide
  have hfourth : IsLast (flaky 9) (allowing 4) 0 3 := by decide
  obtain ⟨-, hcalls, -⟩ := (retryWhile_calls (flaky 2) (allowing 4) 0).1 2 hthird
  obtain ⟨hresult, hcalls', -⟩ := (retryWhile_calls (flaky 9) (allowing 4) 0).1 3 hfourth
  refine ⟨⟨hthird, hcalls 9⟩, ⟨hfourth, hresult 9, hcalls' 9⟩, ?_⟩
  refine (retryWhile_calls _ _ _).2.2 fun n hends => ?_
  rcases hends with hok | hno
  · cases hok
  · cases hno

end Sample

end WriteBehind
