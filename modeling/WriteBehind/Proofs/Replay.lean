import WriteBehind.Rows

/-!
# What commitments do to the row of one key

Writes of different keys do not touch each other's rows, so rows can be followed
key by key.  `PreparedWrite.onRow` is what a write does to the row of its key,
`Commitment.onRow` the same for a commitment, and `replay` lets a list of
commitments act on the row of one key.  `Rows.get?_applyAll_prepareAll` says that
this is what a table does with them.
-/

namespace WriteBehind

/-- What a write makes of the row of its key. -/
def PreparedWrite.onRow (w : PreparedWrite) (row : Option Document) : Option Document :=
  match w.lifecycle with
  | .new => some w.data
  | .normal => row.map (·.overlay w.data)
  | .deleted => none
  | .unavailable => row

/-- What a commitment makes of the row of its key.  Without a write it leaves the
row alone. -/
def Commitment.onRow (c : Commitment) (row : Option Document) : Option Document :=
  match c.prepareWrite with
  | .ok w => w.onRow row
  | .error _ => row

/-- What commitments make of the row of a key, one after the other. -/
def replay (key : String) (cs : List Commitment) (row : Option Document) : Option Document :=
  cs.foldl (fun row c => if c.keyText = key then c.onRow row else row) row

/-! ## Writes and rows -/

theorem Rows.get?_applyWrite (rows : Rows) (w : PreparedWrite) (k : String) :
    (rows.applyWrite w).get? k =
      if w.key = k then w.onRow (rows.get? k) else rows.get? k := by
  by_cases hk : w.key = k
  · subst hk
    cases hl : w.lifecycle with
    | new => simp [applyWrite, rowChange, change, PreparedWrite.onRow, hl]
    | normal =>
        cases hr : rows.get? w.key with
        | none => simp [applyWrite, rowChange, change, PreparedWrite.onRow, hl, hr]
        | some row => simp [applyWrite, rowChange, change, PreparedWrite.onRow, hl, hr]
    | deleted => simp [applyWrite, rowChange, change, PreparedWrite.onRow, hl]
    | unavailable => simp [applyWrite, rowChange, change, PreparedWrite.onRow, hl]
  · rw [if_neg hk, applyWrite]
    cases rowChange (rows.get? w.key) w with
    | put row => simp [change, hk]
    | remove => simp [change, hk]
    | skip => rfl

theorem Commitment.keyText_of_prepareWrite {c : Commitment} {w : PreparedWrite}
    (h : c.prepareWrite = .ok w) :
    w.key = c.keyText := by
  cases c with
  | snapshot s =>
      cases hf : s.writtenFields with
      | error e => simp [prepareWrite, Snapshot.prepareWrite, hf, Except.map] at h
      | ok data =>
          simp only [prepareWrite, Snapshot.prepareWrite, hf, Except.map,
            Except.ok.injEq] at h
          exact (congrArg PreparedWrite.key h).symm
  | foreign f =>
      cases hf : f.outcome with
      | error e => simp [prepareWrite, hf, Except.map] at h
      | ok data =>
          simp only [prepareWrite, hf, Except.map, Except.ok.injEq] at h
          exact (congrArg PreparedWrite.key h).symm

@[simp] theorem prepareAll_nil : prepareAll [] = [] := rfl

theorem prepareAll_append (cs ds : List Commitment) :
    prepareAll (cs ++ ds) = prepareAll cs ++ prepareAll ds :=
  List.filterMap_append

theorem Rows.applyAll_append (rows : Rows) (ws vs : List PreparedWrite) :
    rows.applyAll (ws ++ vs) = (rows.applyAll ws).applyAll vs :=
  List.foldl_append

/-! ## Replaying commitments -/

@[simp] theorem replay_nil (key : String) (row : Option Document) :
    replay key [] row = row := rfl

theorem replay_cons (key : String) (c : Commitment) (cs : List Commitment)
    (row : Option Document) :
    replay key (c :: cs) row =
      replay key cs (if c.keyText = key then c.onRow row else row) := rfl

theorem replay_append (key : String) (cs ds : List Commitment) (row : Option Document) :
    replay key (cs ++ ds) row = replay key ds (replay key cs row) :=
  List.foldl_append

theorem replay_singleton_of_eq {key : String} {c : Commitment} (h : c.keyText = key)
    (row : Option Document) :
    replay key [c] row = c.onRow row := by
  simp [replay, h]

/-- A commitment at the end acts on the row that those before it leave. -/
theorem replay_concat (key : String) (cs : List Commitment) (c : Commitment)
    (row : Option Document) :
    replay key (cs ++ [c]) row =
      if c.keyText = key then c.onRow (replay key cs row) else replay key cs row := by
  rw [replay_append]
  rfl

/-- Commitments of other keys leave a row alone. -/
theorem replay_eq_self {key : String} {cs : List Commitment}
    (h : ∀ c ∈ cs, c.keyText ≠ key) (row : Option Document) :
    replay key cs row = row := by
  induction cs generalizing row with
  | nil => rfl
  | cons c cs ih =>
      rw [replay_cons, if_neg (h c List.mem_cons_self)]
      exact ih (fun d hd => h d (List.mem_cons_of_mem c hd)) row

/-- Replaying a commitment list is what a table does with its writes, seen from
one key. -/
theorem Rows.get?_applyAll_prepareAll (rows : Rows) (cs : List Commitment) (k : String) :
    (rows.applyAll (prepareAll cs)).get? k = replay k cs (rows.get? k) := by
  induction cs generalizing rows with
  | nil => rfl
  | cons c cs ih =>
      cases hw : c.prepareWrite with
      | error e =>
          have hskip : prepareAll (c :: cs) = prepareAll cs := by
            simp [prepareAll, hw, Except.toOption]
          rw [hskip, ih, replay_cons]
          simp [Commitment.onRow, hw]
      | ok w =>
          have htake : prepareAll (c :: cs) = w :: prepareAll cs := by
            simp [prepareAll, hw, Except.toOption]
          have hkey : w.key = c.keyText := Commitment.keyText_of_prepareWrite hw
          have hstep : rows.applyAll (w :: prepareAll cs) =
              (rows.applyWrite w).applyAll (prepareAll cs) := rfl
          rw [htake, hstep, ih, get?_applyWrite, replay_cons, hkey]
          simp [Commitment.onRow, hw]

/-- Two lists of commitments that replay alike for every key give the same rows. -/
theorem Rows.applyAll_prepareAll_congr {rows : Rows} {cs ds : List Commitment}
    (h : ∀ k, replay k cs (rows.get? k) = replay k ds (rows.get? k)) :
    rows.applyAll (prepareAll cs) = rows.applyAll (prepareAll ds) := by
  refine SortedMap.ext_get? fun k => ?_
  rw [get?_applyAll_prepareAll, get?_applyAll_prepareAll]
  exact h k

/-- Replacing a commitment of one key does not show at another one. -/
theorem replay_set_of_ne {key : String} {cs : List Commitment} {i : Nat}
    {old c : Commitment} (hi : cs[i]? = some old) (hold : old.keyText ≠ key)
    (hc : c.keyText ≠ key) (row : Option Document) :
    replay key (cs.set i c) row = replay key cs row := by
  induction cs generalizing i row with
  | nil => simp at hi
  | cons d cs ih =>
      cases i with
      | zero =>
          obtain rfl : d = old := by simpa using hi
          rw [List.set_cons_zero, replay_cons, replay_cons, if_neg hold, if_neg hc]
      | succ i =>
          rw [List.set_cons_succ, replay_cons, replay_cons]
          exact ih (by simpa using hi) _

/-- A list of commitments around one of them. -/
theorem replay_split {key : String} {cs : List Commitment} {i : Nat} {c : Commitment}
    (hi : cs[i]? = some c) (row : Option Document) :
    replay key cs row =
      replay key (cs.drop (i + 1))
        (replay key [c] (replay key (cs.take i) row)) := by
  have hlt : i < cs.length := (List.getElem?_eq_some_iff.mp hi).1
  have hget : cs[i] = c := (List.getElem?_eq_some_iff.mp hi).2
  have hsplit : cs = cs.take i ++ ([c] ++ cs.drop (i + 1)) := by
    rw [← hget]
    simp
  calc
    replay key cs row = replay key (cs.take i ++ ([c] ++ cs.drop (i + 1))) row := by
      rw [← hsplit]
    _ = _ := by rw [replay_append, replay_append]

end WriteBehind
