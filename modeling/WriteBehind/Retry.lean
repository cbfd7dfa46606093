/-!
# Retrying

An operation that may fail is tried again as long as a question, asked after
each failure, is answered with yes.  The first attempt is always made.
-/

namespace WriteBehind

variable {σ ε α : Type}

/-- The result of the attempts at an operation and the state after them, or
nothing when a bound on the attempts was met first.  Operation and question may
both change the state. -/
def retryWhile (op : σ → Except ε α × σ) (running : σ → Bool × σ) :
    Nat → σ → Option (Except ε α × σ)
  | 0, _ => none
  | attempts + 1, s =>
    match op s with
    | (.ok a, s) => some (.ok a, s)
    | (.error e, s) =>
      match running s with
      | (true, s) => retryWhile op running attempts s
      | (false, s) => some (.error e, s)

end WriteBehind
