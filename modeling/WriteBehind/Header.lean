import WriteBehind.FieldSet

/-!
# Headers: pending changes and flags

`Pending` is what a record owes to storage: a lifecycle and the set of changed
fields.  Pending changes coalesce by `Pending.merge`, whose policy is that a new
record stays new, that a removal absorbs what came before it, and that nothing
is added after a removal.  A `Header` carries the pending changes of a record in
memory together with its flags.
-/

namespace WriteBehind

/-- What a record owes to storage. -/
structure Pending where
  lifecycle : Lifecycle := .unavailable
  changes : FieldSet := .empty
deriving DecidableEq, Repr, Inhabited

namespace Pending

/-- Earlier and later changes as one, unless the earlier ones were final. -/
def merge (p q : Pending) : Option Pending :=
  match p.lifecycle with
  | .new =>
    some (if q.lifecycle.isGone then { p with lifecycle := .unavailable } else p)
  | .normal =>
    some (if q.lifecycle.isGone then { p with lifecycle := .deleted }
      else { p with changes := p.changes.union q.changes })
  | .deleted | .unavailable => none

theorem isSome_merge (p q : Pending) : (p.merge q).isSome = !p.lifecycle.isGone := by
  cases hp : p.lifecycle <;> simp [merge, hp]

/-- Changes that are merged in leave the lifecycle as it was. -/
theorem lifecycle_of_merge {p q m : Pending} (h : p.merge q = some m)
    (hq : q.lifecycle.isGone = false) :
    m.lifecycle = p.lifecycle := by
  cases hp : p.lifecycle with
  | new =>
    simp only [merge, hp, hq, Option.some.injEq] at h
    subst h
    exact hp
  | normal =>
    simp only [merge, hp, hq, Option.some.injEq] at h
    subst h
    rfl
  | deleted | unavailable => simp [merge, hp] at h

/-- Changes that are merged into changes add up. -/
theorem changes_of_merge {p q m : Pending} (h : p.merge q = some m)
    (hp : p.lifecycle = .normal) (hq : q.lifecycle.isGone = false) :
    m.changes = p.changes.union q.changes := by
  simp only [merge, hp, hq, Option.some.injEq] at h
  subst h
  rfl

/-- Only new records are new after a merge. -/
theorem eq_new_of_merge {p q m : Pending} (h : p.merge q = some m) (hm : m.lifecycle = .new) :
    p.lifecycle = .new := by
  cases hp : p.lifecycle with
  | new => rfl
  | normal =>
    simp only [merge, hp, Option.some.injEq] at h
    subst h
    cases hq : q.lifecycle.isGone <;> simp [hq] at hm
  | deleted => simp [merge, hp] at h
  | unavailable => simp [merge, hp] at h

end Pending

/-- The state of a record in memory. -/
structure Header extends Pending where
  /-- Something waits to be committed. -/
  dirty : Bool := false
  committing : Bool := false
  /-- Not yet loaded completely. -/
  loading : Bool := true
  tmp : Bool := false
  expired : Bool := false
  readonly : Bool := false
  /-- A second instance of a record, which never enters the cache. -/
  detached : Bool := false
  /-- Where the last commitment was placed in its batch. -/
  savingIndex : Option Nat := none
deriving DecidableEq, Repr, Inhabited

namespace Header

/-- A header put at the start of a lifecycle. -/
def init (h : Header) (l : Lifecycle) : Header :=
  { h with lifecycle := l, dirty := l == .new }

/-- The header of a record that starts with a lifecycle. -/
def ofLifecycle (l : Lifecycle) : Header := init {} l

/-- Records changed fields.  New records are stored whole and record none; a
record that is gone refuses. -/
def markChanged (h : Header) (fields : FieldSet) : Except Error Header :=
  match h.lifecycle with
  | .new => .ok h
  | .normal => .ok { h with changes := h.changes.union fields, dirty := true }
  | .deleted | .unavailable => .error (.invalidLifecycle h.lifecycle)

/-- Records changed fields by their codes, which are looked at for normal
records only. -/
def setChanged (h : Header) (fields : List Field) : Except Failure Header :=
  match h.lifecycle with
  | .new => .ok h
  | .normal =>
    match h.changes.add fields with
    | .ok changes => .ok { h with changes, dirty := true }
    | .error b => .error (.breach b)
  | .deleted | .unavailable => .error (.error (.invalidLifecycle h.lifecycle))

/-- A header that waits for its record to be removed, and whether it did not
before.  A new record needs no removal. -/
def markAsDeleted (h : Header) : Header × Bool :=
  match h.lifecycle with
  | .new => ({ h with lifecycle := .unavailable, dirty := false }, true)
  | .normal => ({ h with lifecycle := .deleted, dirty := true }, true)
  | .deleted | .unavailable => (h, false)

/-- Takes over the pending changes of another header. -/
def merge (h other : Header) : Option Header :=
  (h.toPending.merge other.toPending).map fun p => { h with toPending := p }

/-- A header while its pending changes are captured. -/
def beginCommit (h : Header) : Header := { h with committing := true }

/-- The lifecycle after a commitment. -/
def committedLifecycle : Lifecycle → Lifecycle
  | .new => .normal
  | .deleted => .unavailable
  | l => l

/-- A header after its pending changes were captured. -/
def finishCommit (h : Header) : Header :=
  { h with
    lifecycle := committedLifecycle h.lifecycle
    changes := .empty
    dirty := false
    committing := false }

/-! ## Flags -/

/-- A header whose record was loaded completely. -/
def loadComplete (h : Header) : Header := { h with loading := false }

/-- A header of a temporary record. -/
def setTmp (h : Header) : Header := { h with tmp := true }

/-- A header of a record that the cache has forgotten. -/
def setExpired (h : Header) : Header := { h with expired := true }

/-- A header of a record that is to be written or only read. -/
def setReadonly (h : Header) (on : Bool) : Header := { h with readonly := on }

/-- A header of a second instance, which the cache does not hold. -/
def detach (h : Header) : Header := { h with detached := true }

/-- A header with the place of the last commitment in its batch. -/
def setSavingIndex (h : Header) (index : Option Nat) : Header := { h with savingIndex := index }

/-- A header with other changed fields. -/
def setChanges (h : Header) (changes : FieldSet) : Header := { h with changes }

/-- Whether a field is marked as changed. -/
def changed (h : Header) (field : Field) : Except Breach Bool := h.changes.contains field

/-- Whether the record may be handled here.  No record claims it. -/
def validateAffinity (_ : Header) : Bool := false

/-- The names of the flags that are set. -/
def flagNames (h : Header) : List String :=
  [("dirty", h.dirty), ("committing", h.committing), ("loading", h.loading), ("tmp", h.tmp),
    ("expired", h.expired), ("readonly", h.readonly), ("mirror", h.detached),
    ("affine", h.validateAffinity)].filterMap fun (name, on) => if on then some name else none

end Header

end WriteBehind
