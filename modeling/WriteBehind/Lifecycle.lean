/-!
# Lifecycles

Where a record stands between its creation in memory and its removal from
storage.  A record starts out `unavailable`; `new` records have never been
stored, `normal` ones have, and `deleted` ones wait for their removal.
-/

namespace WriteBehind

/-- The stations of a record's life. -/
inductive Lifecycle where
  | unavailable
  | new
  | normal
  | deleted
deriving DecidableEq, Repr, Inhabited

namespace Lifecycle

/-- Deleted, or never stored. -/
def isGone : Lifecycle → Bool
  | .deleted | .unavailable => true
  | .new | .normal => false

/-- The name shown in messages. -/
def name : Lifecycle → String
  | .unavailable => "Unavailable"
  | .new => "New"
  | .normal => "Normal"
  | .deleted => "Deleted"

/-- All lifecycles, in the order of their wire indices. -/
def all : List Lifecycle :=
  [.unavailable, .new, .normal, .deleted]

/-- The lifecycle of a given name. -/
def ofName? (name : String) : Option Lifecycle :=
  all.find? (·.name == name)

/-- The position of a lifecycle in `all`, its number on the wire. -/
def index : Lifecycle → Nat
  | .unavailable => 0
  | .new => 1
  | .normal => 2
  | .deleted => 3

/-- The lifecycle with a given number on the wire. -/
def ofIndex? (n : Nat) : Option Lifecycle :=
  all[n]?

@[simp] theorem isGone_new : isGone .new = false := rfl

@[simp] theorem isGone_normal : isGone .normal = false := rfl

@[simp] theorem isGone_deleted : isGone .deleted = true := rfl

@[simp] theorem isGone_unavailable : isGone .unavailable = true := rfl

theorem isGone_eq_false_iff {l : Lifecycle} :
    l.isGone = false ↔ l = .new ∨ l = .normal := by
  cases l <;> simp

end Lifecycle

end WriteBehind
