import WriteBehind.Error

/-!
# Sets of field codes

Changes of a record are tracked as a set of field codes.  A set is a word of 64
bits, so it holds the codes below 64; the operations that take arbitrary codes
breach their contract on any other one.  Membership of a code is the test of
its bit, and every operation is described by what it does to membership.
-/

namespace WriteBehind

/-- The code of a tracked field. -/
abbrev Field := Nat

/-- The number of codes a field set can hold. -/
def fieldCapacity : Nat := 64

/-- A set of field codes below `fieldCapacity`. -/
structure FieldSet where
  bits : BitVec 64
deriving DecidableEq, Repr, Inhabited

namespace FieldSet

/-- The set without members. -/
def empty : FieldSet := ⟨0⟩

/-- The set of all codes. -/
def all : FieldSet := ⟨BitVec.allOnes 64⟩

/-- The set whose members are the bits of a number, the lowest 64 of them. -/
def ofNat (n : Nat) : FieldSet := ⟨BitVec.ofNat 64 n⟩

/-- The bits of a set as a number. -/
def toNat (s : FieldSet) : Nat := s.bits.toNat

/-- Whether a code is a member.  Codes out of range never are. -/
def mem (s : FieldSet) (f : Field) : Bool := s.bits.getLsbD f

instance : Membership Field FieldSet := ⟨fun s f => s.mem f = true⟩

instance (f : Field) (s : FieldSet) : Decidable (f ∈ s) :=
  inferInstanceAs (Decidable (s.mem f = true))

/-- A set with one more member. -/
def insert (s : FieldSet) (f : Field) : FieldSet := ⟨s.bits ||| BitVec.twoPow 64 f⟩

/-- A set without one code. -/
def erase (s : FieldSet) (f : Field) : FieldSet := ⟨s.bits &&& ~~~ BitVec.twoPow 64 f⟩

/-- The members of either set. -/
def union (s t : FieldSet) : FieldSet := ⟨s.bits ||| t.bits⟩

/-- The members of both sets. -/
def inter (s t : FieldSet) : FieldSet := ⟨s.bits &&& t.bits⟩

/-- The members of the first set that the second one lacks. -/
def diff (s t : FieldSet) : FieldSet := ⟨s.bits &&& ~~~ t.bits⟩

/-- Adds codes one by one; a code out of range is a breach. -/
def add (s : FieldSet) : List Field → Except Breach FieldSet
  | [] => .ok s
  | f :: fs =>
    if f < fieldCapacity then (s.insert f).add fs else .error (.fieldOutOfRange f)

/-- Removes codes one by one; a code out of range is a breach. -/
def remove (s : FieldSet) : List Field → Except Breach FieldSet
  | [] => .ok s
  | f :: fs =>
    if f < fieldCapacity then (s.erase f).remove fs else .error (.fieldOutOfRange f)

/-- The set of the listed codes. -/
def ofCodes (fs : List Field) : Except Breach FieldSet :=
  empty.add fs

/-- Whether a code is a member; a code out of range is a breach. -/
def contains (s : FieldSet) (f : Field) : Except Breach Bool :=
  if f < fieldCapacity then .ok (s.mem f) else .error (.fieldOutOfRange f)

/-- Whether every member of `t` is a member of `s`. -/
def includes (s t : FieldSet) : Bool := s.bits &&& t.bits == t.bits

/-- Whether the sets share a member. -/
def meets (s t : FieldSet) : Bool := s.bits &&& t.bits != 0

/-- Whether a set has no member. -/
def isEmpty (s : FieldSet) : Bool := s.bits == 0

/-- The members in ascending order. -/
def codes (s : FieldSet) : List Field :=
  (List.range fieldCapacity).filter s.mem

/-- The number of members. -/
def size (s : FieldSet) : Nat :=
  (List.range fieldCapacity).countP s.mem

/-- A set as messages show it: its members between braces. -/
def text (s : FieldSet) : String :=
  "\x7b" ++ String.intercalate ", " (s.codes.map toString) ++ "\x7d"

/-! ## Membership -/

theorem mem_iff {s : FieldSet} {f : Field} : f ∈ s ↔ s.mem f = true := Iff.rfl

theorem lt_of_mem {s : FieldSet} {f : Field} (h : f ∈ s) : f < fieldCapacity :=
  BitVec.lt_of_getLsbD h

theorem ext {s t : FieldSet} (h : ∀ f, f < fieldCapacity → s.mem f = t.mem f) : s = t := by
  obtain ⟨s⟩ := s
  obtain ⟨t⟩ := t
  congr
  exact BitVec.eq_of_getLsbD_eq h

@[simp] theorem mem_empty (f : Field) : empty.mem f = false := by
  simp [mem, empty]

@[simp] theorem mem_insert (s : FieldSet) (f g : Field) :
    (s.insert f).mem g = (s.mem g || decide (f = g ∧ g < fieldCapacity)) := by
  simp only [mem, insert, BitVec.getLsbD_or, BitVec.getLsbD_twoPow, fieldCapacity]
  grind

@[simp] theorem mem_erase (s : FieldSet) (f g : Field) :
    (s.erase f).mem g = (s.mem g && decide (f ≠ g)) := by
  by_cases hg : g < 64
  · simp only [mem, erase, BitVec.getLsbD_and, BitVec.getLsbD_not, BitVec.getLsbD_twoPow]
    grind
  · simp [mem, erase, BitVec.getLsbD_of_ge _ _ (Nat.le_of_not_lt hg)]

@[simp] theorem mem_union (s t : FieldSet) (f : Field) :
    (s.union t).mem f = (s.mem f || t.mem f) := by
  simp [mem, union]

@[simp] theorem mem_inter (s t : FieldSet) (f : Field) :
    (s.inter t).mem f = (s.mem f && t.mem f) := by
  simp [mem, inter]

@[simp] theorem mem_diff (s t : FieldSet) (f : Field) :
    (s.diff t).mem f = (s.mem f && !t.mem f) := by
  by_cases hf : f < 64
  · simp [mem, diff, hf]
  · simp [mem, diff, BitVec.getLsbD_of_ge _ _ (Nat.le_of_not_lt hf)]

@[simp] theorem mem_codes {s : FieldSet} {f : Field} : f ∈ s.codes ↔ f ∈ s := by
  simp only [codes, List.mem_filter, List.mem_range, mem_iff]
  exact ⟨And.right, fun h => ⟨lt_of_mem h, h⟩⟩

end FieldSet

end WriteBehind
