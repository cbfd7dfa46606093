import WriteBehind.SortedMap

/-!
# Memos

A memo makes a thing per name on first demand and gives out the same one ever
after.  A failed attempt leaves no trace.
-/

namespace WriteBehind

/-- The things made so far, by name. -/
abbrev Memo (α : Type) := SortedMap α

namespace Memo

variable {σ ε α : Type}

/-- The thing of a name, made if there is none yet. -/
def getOrCreate (memo : Memo α) (name : String) (create : σ → Except ε α × σ) (s : σ) :
    Except ε α × Memo α × σ :=
  match memo.get? name with
  | some a => (.ok a, memo, s)
  | none =>
    match create s with
    | (.ok a, s) => (.ok a, memo.insert name a, s)
    | (.error e, s) => (.error e, memo, s)

end Memo

end WriteBehind
