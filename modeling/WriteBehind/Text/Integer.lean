/-!
# Integers in text

Decimal integers: at least one ASCII digit, after one sign or none.
-/

namespace WriteBehind.Text

/-- The number written by a list of decimal digits. -/
def digitsValue (cs : List Char) : Nat :=
  cs.foldl (fun n c => 10 * n + (c.toNat - 48)) 0

/-- The natural number that a list of characters is, digits only. -/
def natural? (cs : List Char) : Option Nat :=
  if cs.isEmpty || !cs.all Char.isDigit then none else some (digitsValue cs)

/-- The integer that a text is. -/
def integer? (s : String) : Option Int :=
  match s.toList with
  | '-' :: cs => (natural? cs).map fun n => -(n : Int)
  | '+' :: cs => (natural? cs).map fun n => (n : Int)
  | cs => (natural? cs).map fun n => (n : Int)

/-- The integer that a text is, when it fits 64 signed bits. -/
def int64? (s : String) : Option Int64 :=
  (integer? s).bind fun n =>
    if -0x8000000000000000 ≤ n ∧ n < 0x8000000000000000 then some (Int64.ofInt n) else none

/-- The natural number that a text is, a plus sign in front allowed, when it
fits 64 unsigned bits. -/
def uint64? (s : String) : Option Nat :=
  let unsigned? := match s.toList with
    | '+' :: cs => natural? cs
    | cs => natural? cs
  unsigned?.filter (· < 0x10000000000000000)

/-! ## Different integers have different texts -/

theorem eq_of_repr_eq {m n : Nat} (h : m.repr = n.repr) : m = n := by
  have hdigits : Nat.toDigits 10 m = Nat.toDigits 10 n := by
    rw [← Nat.toList_repr, ← Nat.toList_repr, h]
  have hvalue := congrArg (Nat.ofDigitChars 10 · 0) hdigits
  simpa using hvalue

theorem minus_append_ne_repr (m n : Nat) : "-" ++ m.repr ≠ n.repr := by
  intro h
  have hmem : '-' ∈ Nat.toDigits 10 n := by
    rw [← Nat.toList_repr, ← h]
    simp
  have hdigit := Nat.isDigit_of_mem_toDigits (by omega) (by omega) hmem
  exact absurd hdigit (by decide)

theorem eq_of_toString_eq {a b : Int} (h : toString a = toString b) : a = b := by
  cases a with
  | ofNat m =>
      cases b with
      | ofNat n => exact congrArg Int.ofNat (eq_of_repr_eq h)
      | negSucc n => exact absurd h.symm (minus_append_ne_repr (n + 1) m)
  | negSucc m =>
      cases b with
      | ofNat n => exact absurd h (minus_append_ne_repr (m + 1) n)
      | negSucc n =>
          have hminus : "-" ++ (m + 1).repr = "-" ++ (n + 1).repr := h
          have hrepr : (m + 1).repr = (n + 1).repr := by simpa using hminus
          rw [Nat.succ.inj (eq_of_repr_eq hrepr)]

end WriteBehind.Text
