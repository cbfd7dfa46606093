import WriteBehind.Batch
import WriteBehind.Proofs.Offers

/-!
# What a batch takes in

A batch knows little of the commitments that it takes in: whose key they have, whether one
absorbs another one, and how to offer one to another (`Coalescing`).  `Coalescing.put` says
in these terms what a batch does with a commitment, in the order in which it is done: if
the entry of the index absorbs the commitment, it is logged and offered to the entry, and
in any other case, also if the entry hands it back after all, it goes to the end where there
is room and is logged there.

For commitments that keep their promises (`Coalescing.Lawful`) a call merges into one entry,
appends one, or hands the commitment back and changes nothing (`Coalescing.Outcome`), and
from that follows what any sequence of calls leaves behind (`Coalescing.Accounts`).  The
commitments of this library do keep them, and `Batch.put` is `Coalescing.put` of theirs
(`Batch.put_accounts`).
-/

namespace WriteBehind

/-! ## Commitments as a batch sees them -/

/-- What a batch asks of commitments `γ` with keys `κ`. -/
structure Coalescing (γ κ : Type) where
  ns : γ → String
  key : γ → κ
  /-- Whether a later commitment would be merged into an entry. -/
  absorbs : γ → γ → Bool
  /-- An entry after a later commitment was offered to it, and that one if it is handed
  back. -/
  offer : γ → γ → γ × Option γ

/-- The promises of commitments: one that is absorbed is taken, it has the namespace and the
key of the entry, and these stay what they are. -/
structure Coalescing.Lawful {γ κ : Type} (K : Coalescing γ κ) : Prop where
  taken_iff : ∀ c later, (K.offer c later).2 = none ↔ K.absorbs c later = true
  same : ∀ c later, K.absorbs c later = true → K.ns c = K.ns later ∧ K.key c = K.key later
  keeps : ∀ c later, K.absorbs c later = true →
    K.ns (K.offer c later).1 = K.ns c ∧ K.key (K.offer c later).1 = K.key c

/-- The entries of a batch, and what is logged in its journal file, earliest first. -/
structure Intake (γ : Type) where
  entries : List γ := []
  logged : List γ := []

/-- One call with the batch before and after it. -/
structure Turn (γ : Type) where
  before : Intake γ
  commitment : γ
  index : Option Nat
  answer : Except γ Nat
  after : Intake γ

namespace Coalescing

variable {γ κ : Type} (K : Coalescing γ κ)

/-- Logs a commitment and puts it at the end, unless the batch is full. -/
def append (b : Intake γ) (c : γ) : Except γ Nat × Intake γ :=
  if batchSize ≤ b.entries.length then (.error c, b)
  else (.ok b.entries.length, ⟨b.entries ++ [c], b.logged ++ [c]⟩)

/-- Takes a commitment in and gives the index of its entry, or hands it back. -/
def put (b : Intake γ) (c : γ) (index : Option Nat) : Except γ Nat × Intake γ :=
  match index with
  | none => append b c
  | some i =>
    match b.entries[i]? with
    | none => append b c
    | some entry =>
      if K.absorbs entry c then
        let b := { b with logged := b.logged ++ [c] }
        let (entry, back) := K.offer entry c
        let b := { b with entries := b.entries.set i entry }
        match back with
        | none => (.ok i, b)
        | some c => append b c
      else append b c

/-- Calls one after the other, each with the batch before and after it. -/
def turns : Intake γ → List (γ × Option Nat) → List (Turn γ)
  | _, [] => []
  | b, (c, index) :: calls =>
    let (answer, after) := K.put b c index
    ⟨b, c, index, answer, after⟩ :: turns after calls

/-- The batch after calls. -/
def final (b : Intake γ) (calls : List (γ × Option Nat)) : Intake γ :=
  calls.foldl (fun b call => (K.put b call.1 call.2).2) b

/-- The commitments that were taken in, in the order of the calls. -/
def accepted (turns : List (Turn γ)) : List γ :=
  turns.filterMap fun t => if t.answer.isOk then some t.commitment else none

/-! ## What one call does -/

/-- Whether there is an entry at the index that absorbs the commitment. -/
def Absorbed (b : Intake γ) (c : γ) (index : Option Nat) : Prop :=
  ∃ i entry, index = some i ∧ b.entries[i]? = some entry ∧ K.absorbs entry c = true

/-- Whether an entry has the namespace and the key of a commitment. -/
def Places (b : Intake γ) (i : Nat) (c : γ) : Prop :=
  ∃ entry, b.entries[i]? = some entry ∧ K.ns entry = K.ns c ∧ K.key entry = K.key c

/-- What a call answers and leaves behind. -/
inductive Outcome (b : Intake γ) (c : γ) (index : Option Nat) : Except γ Nat → Intake γ → Prop
  | merged {i : Nat} {entry : γ} (given : index = some i) (found : b.entries[i]? = some entry)
      (absorbed : K.absorbs entry c = true) :
      Outcome b c index (.ok i) ⟨b.entries.set i (K.offer entry c).1, b.logged ++ [c]⟩
  | appended (room : b.entries.length < batchSize) (apart : ¬ K.Absorbed b c index) :
      Outcome b c index (.ok b.entries.length) ⟨b.entries ++ [c], b.logged ++ [c]⟩
  | returned (full : batchSize ≤ b.entries.length) (apart : ¬ K.Absorbed b c index) :
      Outcome b c index (.error c) b

variable {K} {b after : Intake γ} {c : γ} {index : Option Nat} {answer : Except γ Nat}
  {calls : List (γ × Option Nat)} {t : Turn γ}

theorem outcome_append (h : ¬ K.Absorbed b c index) :
    K.Outcome b c index (append b c).1 (append b c).2 := by
  rw [append]
  split
  next hfull => exact .returned hfull h
  next hroom => exact .appended (Nat.lt_of_not_le hroom) h

theorem outcome_put (hK : K.Lawful) (b : Intake γ) (c : γ) (index : Option Nat) :
    K.Outcome b c index (K.put b c index).1 (K.put b c index).2 := by
  unfold put
  split
  next => exact outcome_append fun ⟨i, _, hindex, _⟩ => nomatch hindex
  next i =>
    split
    next hnone =>
      apply outcome_append
      rintro ⟨j, entry, hindex, hentry, -⟩
      obtain rfl := Option.some.inj hindex
      rw [hnone] at hentry
      cases hentry
    next entry hentry =>
      split
      next habsorbs =>
        -- An entry that absorbs a commitment does not hand it back.
        have hoffer : K.offer entry c = ((K.offer entry c).1, none) :=
          Prod.ext rfl ((hK.taken_iff entry c).mpr habsorbs)
        rw [hoffer]
        exact .merged rfl hentry habsorbs
      next hnot =>
        apply outcome_append
        rintro ⟨j, entry', hindex, hentry', habsorbs⟩
        obtain rfl := Option.some.inj hindex
        obtain rfl := Option.some.inj (hentry.symm.trans hentry')
        exact hnot habsorbs

namespace Outcome

/-- A batch that is not over its size stays so. -/
theorem length_le (h : K.Outcome b c index answer after) (hb : b.entries.length ≤ batchSize) :
    after.entries.length ≤ batchSize := by
  cases h with
  | merged given found absorbed => simpa using hb
  | appended room apart =>
      rw [List.length_append]
      exact room
  | returned full apart => exact hb

/-- Where a commitment was taken in, there is an entry of its key. -/
theorem places (hK : K.Lawful) {i : Nat} (h : K.Outcome b c index (.ok i) after) :
    K.Places after i c := by
  cases h with
  | merged given found absorbed =>
      obtain ⟨hns, hkey⟩ := hK.same _ _ absorbed
      obtain ⟨hns', hkey'⟩ := hK.keeps _ _ absorbed
      have hlt := (List.getElem?_eq_some_iff.mp found).1
      exact ⟨_, List.getElem?_set_self hlt, hns'.trans hns, hkey'.trans hkey⟩
  | appended room apart => exact ⟨c, by simp, rfl, rfl⟩

/-- The entry of a key stays an entry of that key. -/
theorem keeps_places (hK : K.Lawful) (h : K.Outcome b c index answer after) {i : Nat} {d : γ}
    (hd : K.Places b i d) : K.Places after i d := by
  obtain ⟨entry, hentry, hns, hkey⟩ := hd
  cases h with
  | @merged j e given found absorbed =>
      by_cases hij : j = i
      · subst hij
        obtain rfl := Option.some.inj (hentry.symm.trans found)
        obtain ⟨hns', hkey'⟩ := hK.keeps _ _ absorbed
        have hlt := (List.getElem?_eq_some_iff.mp found).1
        exact ⟨_, List.getElem?_set_self hlt, hns'.trans hns, hkey'.trans hkey⟩
      · exact ⟨entry, (List.getElem?_set_ne hij).trans hentry, hns, hkey⟩
  | appended room apart =>
      have hlt := (List.getElem?_eq_some_iff.mp hentry).1
      exact ⟨entry, (List.getElem?_append_left hlt).trans hentry, hns, hkey⟩
  | returned full apart => exact ⟨entry, hentry, hns, hkey⟩

/-- A commitment is handed back exactly if the batch is full and the entry of its index, if
there is one, does not absorb it. -/
theorem returned_iff (h : K.Outcome b c index answer after) :
    (∃ back, answer = .error back) ↔
      batchSize ≤ b.entries.length ∧ ¬ K.Absorbed b c index := by
  cases h with
  | @merged i entry given found absorbed =>
      constructor
      · rintro ⟨back, hback⟩
        cases hback
      · rintro ⟨-, hapart⟩
        exact absurd ⟨i, entry, given, found, absorbed⟩ hapart
  | appended room apart =>
      constructor
      · rintro ⟨back, hback⟩
        cases hback
      · rintro ⟨hfull, -⟩
        exact absurd room (Nat.not_lt_of_le hfull)
  | returned full apart => exact ⟨fun _ => ⟨full, apart⟩, fun _ => ⟨c, rfl⟩⟩

/-- What is handed back is the commitment, and nothing has changed. -/
theorem eq_of_returned {back : γ} (h : K.Outcome b c index (.error back) after) :
    back = c ∧ after = b := by
  cases h with
  | returned full apart => exact ⟨rfl, rfl⟩

/-- A commitment is logged if it is taken in. -/
theorem logged_eq (h : K.Outcome b c index answer after) :
    after.logged = b.logged ++ if answer.isOk then [c] else [] := by
  cases h with
  | merged given found absorbed => rfl
  | appended room apart => rfl
  | returned full apart => exact (List.append_nil _).symm

end Outcome

/-! ## What calls do -/

/-- What calls do to a batch. -/
structure Accounts (K : Coalescing γ κ) (b : Intake γ) (calls : List (γ × Option Nat)) : Prop where
  /-- Each call merges, appends or hands back. -/
  outcome : ∀ t ∈ K.turns b calls, K.Outcome t.before t.commitment t.index t.answer t.after
  /-- The batch never gets over its size. -/
  bounded : ∀ t ∈ K.turns b calls, t.after.entries.length ≤ batchSize
  /-- The entry that a call has answered is one of the key, from then on to the end. -/
  placed : ∀ t ∈ K.turns b calls, ∀ i, t.answer = .ok i →
    K.Places t.after i t.commitment ∧ K.Places (K.final b calls) i t.commitment
  returned_iff : ∀ t ∈ K.turns b calls, (∃ back, t.answer = .error back) ↔
    batchSize ≤ t.before.entries.length ∧ ¬ K.Absorbed t.before t.commitment t.index
  returned : ∀ t ∈ K.turns b calls, ∀ back, t.answer = .error back →
    back = t.commitment ∧ t.after = t.before
  /-- The journal has the commitments that were taken in, each once and in their order. -/
  logged : (K.final b calls).logged = b.logged ++ accepted (K.turns b calls)

theorem outcome_of_mem_turns (hK : K.Lawful) (h : t ∈ K.turns b calls) :
    K.Outcome t.before t.commitment t.index t.answer t.after := by
  induction calls generalizing b with
  | nil => cases h
  | cons call calls ih =>
      obtain ⟨c, index⟩ := call
      rcases List.mem_cons.mp h with rfl | hrest
      · exact outcome_put hK b c index
      · exact ih hrest

theorem length_le_of_mem_turns (hK : K.Lawful) (hb : b.entries.length ≤ batchSize)
    (h : t ∈ K.turns b calls) : t.after.entries.length ≤ batchSize := by
  induction calls generalizing b with
  | nil => cases h
  | cons call calls ih =>
      obtain ⟨c, index⟩ := call
      have hafter := (outcome_put hK b c index).length_le hb
      rcases List.mem_cons.mp h with rfl | hrest
      · exact hafter
      · exact ih hafter hrest

theorem places_final (hK : K.Lawful) {i : Nat} {d : γ} (h : K.Places b i d) :
    K.Places (K.final b calls) i d := by
  induction calls generalizing b with
  | nil => exact h
  | cons call calls ih => exact ih ((outcome_put hK b call.1 call.2).keeps_places hK h)

theorem places_of_mem_turns (hK : K.Lawful) (h : t ∈ K.turns b calls) {i : Nat}
    (hi : t.answer = .ok i) : K.Places (K.final b calls) i t.commitment := by
  induction calls generalizing b with
  | nil => cases h
  | cons call calls ih =>
      obtain ⟨c, index⟩ := call
      rcases List.mem_cons.mp h with rfl | hrest
      · have hanswer : (K.put b c index).1 = .ok i := hi
        have houtcome := outcome_put hK b c index
        rw [hanswer] at houtcome
        have hfinal : K.Places (K.final (K.put b c index).2 calls) i c :=
          places_final hK (houtcome.places hK)
        exact hfinal
      · exact ih hrest

theorem logged_final (hK : K.Lawful) (b : Intake γ) (calls : List (γ × Option Nat)) :
    (K.final b calls).logged = b.logged ++ accepted (K.turns b calls) := by
  induction calls generalizing b with
  | nil => exact (List.append_nil _).symm
  | cons call calls ih =>
      obtain ⟨c, index⟩ := call
      have hlogged := (outcome_put hK b c index).logged_eq
      have haccepted : accepted (K.turns b ((c, index) :: calls)) =
          (if (K.put b c index).1.isOk then [c] else []) ++
            accepted (K.turns (K.put b c index).2 calls) := by
        simp only [turns, accepted, List.filterMap_cons]
        cases (K.put b c index).1.isOk <;> rfl
      calc
        (K.final b ((c, index) :: calls)).logged
            = (K.put b c index).2.logged ++ accepted (K.turns (K.put b c index).2 calls) :=
          ih _
        _ = b.logged ++ accepted (K.turns b ((c, index) :: calls)) := by
          rw [hlogged, haccepted, List.append_assoc]

theorem Lawful.accounts (hK : K.Lawful) (hb : b.entries.length ≤ batchSize)
    (calls : List (γ × Option Nat)) : K.Accounts b calls where
  outcome t ht := outcome_of_mem_turns hK ht
  bounded t ht := length_le_of_mem_turns hK hb ht
  placed t ht i hi := by
    have houtcome := outcome_of_mem_turns hK ht
    rw [hi] at houtcome
    exact ⟨houtcome.places hK, places_of_mem_turns hK ht hi⟩
  returned_iff t ht := (outcome_of_mem_turns hK ht).returned_iff
  returned t ht back hback := by
    have houtcome := outcome_of_mem_turns hK ht
    rw [hback] at houtcome
    exact houtcome.eq_of_returned
  logged := logged_final hK b calls

end Coalescing

/-! ## Commitments of this library -/

/-- What storage sees of a key. -/
structure KeyView where
  text : String
  hash : UInt64
  filter : Document

namespace Commitment

/-- What storage sees of the key of a commitment. -/
def keyView : Commitment → KeyView
  | .snapshot s => ⟨s.key.text, s.key.hash, s.type.key.filter s.key⟩
  | .foreign f => ⟨f.keyText, f.hash, f.filter⟩

/-- Commitments as a batch sees them. -/
def coalescing : Coalescing Commitment KeyView where
  ns := ns
  key := keyView
  absorbs := absorbs
  offer := offer

theorem taken_iff (c later : Commitment) :
    (c.offer later).2 = none ↔ c.absorbs later = true := by
  rw [offer_eq, ← isSome_merge]
  cases c.merge later with
  | none => simp
  | some m => simp

theorem exists_merge_of_absorbs {c later : Commitment} (h : c.absorbs later = true) :
    ∃ s next m, c = .snapshot s ∧ later = .snapshot next ∧ s.merge next = some m ∧
      c.offer later = (.snapshot m, none) := by
  rw [← isSome_merge] at h
  obtain ⟨merged, hmerged⟩ := Option.isSome_iff_exists.mp h
  cases c with
  | foreign f => cases hmerged
  | snapshot s =>
      cases later with
      | foreign f => cases hmerged
      | snapshot next =>
          have hoffer := offer_eq (.snapshot s) (.snapshot next)
          rw [hmerged] at hoffer
          obtain ⟨m, hm, rfl⟩ := Option.map_eq_some_iff.mp hmerged
          exact ⟨s, next, m, rfl, rfl, hm, hoffer⟩

theorem lawful_coalescing : coalescing.Lawful where
  taken_iff := taken_iff
  same c later h := by
    obtain ⟨s, next, m, rfl, rfl, hm, -⟩ := exists_merge_of_absorbs h
    obtain ⟨htype, hkey, -⟩ := Snapshot.merge_eq_some hm
    simp [coalescing, ns, keyView, htype, hkey]
  keeps c later h := by
    obtain ⟨s, next, m, rfl, rfl, hm, hoffer⟩ := exists_merge_of_absorbs h
    obtain ⟨-, -, -, htype, hkey, -⟩ := Snapshot.merge_eq_some hm
    simp [coalescing, hoffer, ns, keyView, htype, hkey]

end Commitment

namespace Batch

/-- The entries of a batch and what is logged. -/
def intake (b : Batch) : Intake Commitment := ⟨b.entries, b.journal.logged.reverse⟩

/-- A batch with other entries and another log. -/
def withIntake (b : Batch) (t : Intake Commitment) : Batch :=
  { b with entries := t.entries, journal := { b.journal with logged := t.logged.reverse } }

theorem push_eq (b : Batch) (c : Commitment) :
    b.push c =
      match Coalescing.append b.intake c with
      | (.ok i, t) => .ok (i, b.withIntake t)
      | (.error back, _) => .error back := by
  have hlength : b.intake.entries.length = b.entries.length := rfl
  rw [push, Coalescing.append, hlength]
  by_cases hroom : b.entries.length < batchSize
  · rw [if_pos hroom, if_neg (Nat.not_le_of_lt hroom)]
    simp [intake, withIntake, JournalFile.log]
  · rw [if_neg hroom, if_pos (Nat.le_of_not_lt hroom)]

/-- A batch takes in commitments as `Coalescing.put` says. -/
theorem put_eq (b : Batch) (c : Commitment) (index : Option Nat) :
    b.put c index =
      match Commitment.coalescing.put b.intake c index with
      | (.ok i, t) => .ok (i, b.withIntake t)
      | (.error back, _) => .error back := by
  cases index with
  | none => exact b.push_eq c
  | some i =>
      cases hentry : b.entries[i]? with
      | none =>
          have hfound : b.intake.entries[i]? = none := hentry
          simp only [put, mergeAt, hentry, Coalescing.put, hfound]
          exact b.push_eq c
      | some entry =>
          have hfound : b.intake.entries[i]? = some entry := hentry
          cases hm : entry.merge c with
          | none =>
              have hnot : Commitment.coalescing.absorbs entry c = false := by
                simp [Commitment.coalescing, ← Commitment.isSome_merge, hm]
              simp only [put, mergeAt, hentry, hm, Option.map_none, Coalescing.put, hfound, hnot]
              exact b.push_eq c
          | some m =>
              have habsorbs : Commitment.coalescing.absorbs entry c = true := by
                simp [Commitment.coalescing, ← Commitment.isSome_merge, hm]
              have hoffer : Commitment.coalescing.offer entry c = (m, none) := by
                simp [Commitment.coalescing, Commitment.offer_eq, hm]
              simp only [put, mergeAt, hentry, hm, Option.map_some, Coalescing.put, hfound,
                habsorbs, if_true, hoffer]
              simp [intake, withIntake, JournalFile.log]

/-- A batch after calls.  A commitment that is handed back leaves it as it is. -/
def putEach (b : Batch) (calls : List (Commitment × Option Nat)) : Batch :=
  calls.foldl (fun b call =>
    match b.put call.1 call.2 with
    | .ok (_, b) => b
    | .error _ => b) b

@[simp] theorem intake_withIntake (b : Batch) (t : Intake Commitment) :
    (b.withIntake t).intake = t := by
  simp [intake, withIntake]

theorem intake_putEach (b : Batch) (calls : List (Commitment × Option Nat)) :
    (b.putEach calls).intake = Commitment.coalescing.final b.intake calls := by
  induction calls generalizing b with
  | nil => rfl
  | cons call calls ih =>
      have houtcome :=
        Coalescing.outcome_put Commitment.lawful_coalescing b.intake call.1 call.2
      have hput := b.put_eq call.1 call.2
      rw [putEach, List.foldl_cons, Coalescing.final, List.foldl_cons]
      cases hnext : Commitment.coalescing.put b.intake call.1 call.2 with
      | mk answer after =>
          rw [hnext] at hput houtcome
          cases answer with
          | ok i =>
              rw [hput]
              have hrest := ih (b.withIntake after)
              rw [intake_withIntake] at hrest
              exact hrest
          | error back =>
              rw [hput]
              obtain ⟨-, rfl⟩ := houtcome.eq_of_returned
              exact ih b

/-- What a batch does with any calls, for whatever commitments keep their promises, and that
a batch of the commitments here does just that. -/
theorem put_accounts :
    (∀ {γ κ : Type} (K : Coalescing γ κ), K.Lawful → ∀ b : Intake γ,
      b.entries.length ≤ batchSize → ∀ calls, K.Accounts b calls) ∧
    Commitment.coalescing.Lawful ∧
    (∀ (b : Batch) (c : Commitment) (index : Option Nat), b.put c index =
      match Commitment.coalescing.put b.intake c index with
      | (.ok i, t) => .ok (i, b.withIntake t)
      | (.error back, _) => .error back) ∧
    ∀ (b : Batch) (calls : List (Commitment × Option Nat)),
      (b.putEach calls).intake = Commitment.coalescing.final b.intake calls := by
  refine ⟨?_, Commitment.lawful_coalescing, put_eq, intake_putEach⟩
  intro γ κ K hK b hb calls
  exact hK.accounts hb calls

end Batch

namespace Sample

/-- A batch with room for one more, whose entries are those of a dismissed hero. -/
def crowded : Batch := { entries := List.replicate 255 (.snapshot heroDropped) }

/-- A hero comes and goes, and in between another removal finds no room. -/
def comings : List (Commitment × Option Nat) :=
  [(.snapshot heroDraft, none), (.snapshot heroDropped, some 0),
    (.snapshot heroDropped, some 255)]

set_option maxRecDepth 4000 in
/-- The removal that finds no room is not in the journal. -/
theorem logged_comings :
    (crowded.putEach comings).intake.logged = [.snapshot heroDraft, .snapshot heroDropped] := by
  obtain ⟨haccounts, hlawful, -, hsame⟩ := Batch.put_accounts
  have hroom : crowded.intake.entries.length ≤ batchSize := by
    simp [crowded, Batch.intake, batchSize]
  have hlogged := (haccounts Commitment.coalescing hlawful crowded.intake hroom comings).logged
  rw [hsame, hlogged]
  rfl

end Sample

end WriteBehind
