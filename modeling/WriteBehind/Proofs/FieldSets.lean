import Mathlib.Data.Finset.Card
import WriteBehind.RecordType
import WriteBehind.Proofs.Updates

/-!
# Field sets as finite sets

A field set is a word of bits, and what is meant is a finite set of codes, `FieldSet.members`.
`SetTerm` are the ways to make a field set out of bits, listed codes and other sets, with
two meanings: the set that the operations on words give, which is a breach when a code is
listed that no word can hold (`SetTerm.value`), and the one that the operations on finite sets
give (`SetTerm.members`).  `Yields` says how the two belong together; it holds of each
operation, so it holds of every term (`SetTerm.yields_value`).
-/

namespace WriteBehind

namespace FieldSet

variable {s t : FieldSet} {f : Field}

/-! ## Members -/

/-- The members of a field set, as a finite set. -/
def members (s : FieldSet) : Finset Field :=
  (Finset.range fieldCapacity).filter fun f => s.bits.getLsbD f = true

@[simp] theorem mem_members : f ∈ s.members ↔ f ∈ s := by
  rw [members, Finset.mem_filter, Finset.mem_range]
  exact ⟨And.right, fun h => ⟨lt_of_mem h, h⟩⟩

theorem members_inj : s.members = t.members ↔ s = t := by
  refine ⟨fun h => ext fun f _ => ?_, congrArg members⟩
  have hmem : f ∈ s.members ↔ f ∈ t.members := by rw [h]
  rw [mem_members, mem_members] at hmem
  exact Bool.eq_iff_iff.mpr hmem

@[simp] theorem members_empty : empty.members = ∅ := by
  ext f
  simp [mem_iff]

theorem members_insert (hf : f < fieldCapacity) :
    (s.insert f).members = Insert.insert f s.members := by
  ext g
  simp only [mem_members, mem_iff, mem_insert, Finset.mem_insert, Bool.or_eq_true,
    decide_eq_true_eq]
  constructor
  · rintro (hg | ⟨rfl, -⟩)
    · exact .inr hg
    · exact .inl rfl
  · rintro (rfl | hg)
    · exact .inr ⟨rfl, hf⟩
    · exact .inl hg

@[simp] theorem members_erase (s : FieldSet) (f : Field) :
    (s.erase f).members = s.members.erase f := by
  ext g
  rw [mem_members, mem_iff, mem_erase, Finset.mem_erase, mem_members, mem_iff, Bool.and_eq_true,
    decide_eq_true_iff, and_comm, ne_comm]

@[simp] theorem members_union (s t : FieldSet) :
    (s.union t).members = s.members ∪ t.members := by
  ext g
  simp [mem_iff]

@[simp] theorem members_inter (s t : FieldSet) :
    (s.inter t).members = s.members ∩ t.members := by
  ext g
  simp [mem_iff]

@[simp] theorem members_diff (s t : FieldSet) :
    (s.diff t).members = s.members \ t.members := by
  ext g
  simp [mem_iff]

/-- The set of the bits of a number has the members that are its bits. -/
@[simp] theorem members_ofNat (n : Nat) :
    (ofNat n).members = (Finset.range fieldCapacity).filter fun f => n.testBit f = true := by
  refine Finset.filter_congr fun f hf => ?_
  rw [ofNat, BitVec.getLsbD_ofNat, Bool.and_eq_true, decide_eq_true_iff]
  exact and_iff_right (Finset.mem_range.mp hf)

/-! ## Listed codes -/

/-- The result of a computation in which codes were listed: a breach of the first code that no
set can hold, or if there is none a set with these members. -/
def Yields (r : Except Breach FieldSet) (listed : List Field) (m : Finset Field) : Prop :=
  match listed.find? (fieldCapacity ≤ ·) with
  | some f => r = .error (.fieldOutOfRange f)
  | none => ∃ s, r = .ok s ∧ s.members = m

theorem yields_ok (s : FieldSet) : Yields (.ok s) [] s.members := ⟨s, rfl, rfl⟩

theorem Yields.bind {r : Except Breach FieldSet} {next : FieldSet → Except Breach FieldSet}
    {listed later : List Field} {m m' : Finset Field} (h : Yields r listed m)
    (hnext : ∀ s, s.members = m → Yields (next s) later m') :
    Yields (r >>= next) (listed ++ later) m' := by
  rw [Yields] at h
  cases hfirst : listed.find? (fieldCapacity ≤ ·) with
  | some f =>
      rw [hfirst] at h
      rw [Yields, List.find?_append, hfirst, h]
      rfl
  | none =>
      rw [hfirst] at h
      obtain ⟨s, rfl, hs⟩ := h
      have hrest := hnext s hs
      rw [Yields] at hrest ⊢
      rw [List.find?_append, hfirst, Option.none_or]
      exact hrest

theorem Yields.map {r : Except Breach FieldSet} {g : FieldSet → FieldSet}
    {listed : List Field} {m m' : Finset Field} (h : Yields r listed m)
    (hg : ∀ s, s.members = m → (g s).members = m') :
    Yields (r >>= fun s => pure (g s)) listed m' := by
  have hmap : Yields (r >>= fun s => pure (g s)) (listed ++ []) m' :=
    h.bind fun s hs => hg s hs ▸ yields_ok (g s)
  rwa [List.append_nil] at hmap

theorem yields_add (s : FieldSet) (fs : List Field) :
    Yields (s.add fs) fs (s.members ∪ fs.toFinset) := by
  induction fs generalizing s with
  | nil => exact ⟨s, rfl, (Finset.union_empty _).symm⟩
  | cons f fs ih =>
      rw [Yields, add, List.find?_cons]
      by_cases hf : f < fieldCapacity
      · have hrest := ih (s.insert f)
        rw [Yields, members_insert hf, Finset.insert_union, ← Finset.union_insert] at hrest
        simpa [hf, Nat.not_le.mpr hf] using hrest
      · simp [hf, Nat.le_of_not_lt hf]

theorem yields_remove (s : FieldSet) (fs : List Field) :
    Yields (s.remove fs) fs (s.members \ fs.toFinset) := by
  induction fs generalizing s with
  | nil => exact ⟨s, rfl, Finset.sdiff_empty.symm⟩
  | cons f fs ih =>
      rw [Yields, remove, List.find?_cons]
      by_cases hf : f < fieldCapacity
      · have hrest := ih (s.erase f)
        rw [Yields, members_erase] at hrest
        have herase : s.members.erase f \ fs.toFinset = s.members \ (f :: fs).toFinset := by
          rw [List.toFinset_cons, Finset.sdiff_insert, Finset.erase_sdiff_comm]
        rw [herase] at hrest
        simpa [hf, Nat.not_le.mpr hf] using hrest
      · simp [hf, Nat.le_of_not_lt hf]

theorem yields_ofCodes (fs : List Field) : Yields (ofCodes fs) fs fs.toFinset := by
  have h := yields_add empty fs
  rwa [members_empty, Finset.empty_union] at h

end FieldSet

/-! ## Terms -/

/-- A way to make a field set. -/
inductive SetTerm where
  | bits (n : Nat)
  /-- The listed codes, whether given as a list or collected one by one. -/
  | codes (fs : List Field)
  | add (e : SetTerm) (fs : List Field)
  | remove (e : SetTerm) (fs : List Field)
  | union (e e' : SetTerm)
  | inter (e e' : SetTerm)
  | diff (e e' : SetTerm)
  | clear (e : SetTerm)

namespace SetTerm

/-- What the operations on field sets give. -/
def value : SetTerm → Except Breach FieldSet
  | bits n => .ok (.ofNat n)
  | codes fs => FieldSet.ofCodes fs
  | add e fs => do (← e.value).add fs
  | remove e fs => do (← e.value).remove fs
  | union e e' => do return (← e.value).union (← e'.value)
  | inter e e' => do return (← e.value).inter (← e'.value)
  | diff e e' => do return (← e.value).diff (← e'.value)
  | clear e => do
    let _ ← e.value
    return .empty

/-- What the same operations on finite sets give. -/
def members : SetTerm → Finset Field
  | bits n => (Finset.range fieldCapacity).filter fun f => n.testBit f = true
  | codes fs => fs.toFinset
  | add e fs => e.members ∪ fs.toFinset
  | remove e fs => e.members \ fs.toFinset
  | union e e' => e.members ∪ e'.members
  | inter e e' => e.members ∩ e'.members
  | diff e e' => e.members \ e'.members
  | clear _ => ∅

/-- The codes that are listed, in the order in which they are looked at. -/
def listed : SetTerm → List Field
  | bits _ => []
  | codes fs => fs
  | add e fs | remove e fs => e.listed ++ fs
  | union e e' | inter e e' | diff e e' => e.listed ++ e'.listed
  | clear e => e.listed

/-- Every way to make a field set makes the set that is meant, or breaches its contract with
the first listed code that no set can hold. -/
theorem yields_value (e : SetTerm) : FieldSet.Yields e.value e.listed e.members := by
  induction e with
  | bits n => exact ⟨.ofNat n, rfl, FieldSet.members_ofNat n⟩
  | codes fs => exact FieldSet.yields_ofCodes fs
  | add e fs ih =>
      refine ih.bind fun s hs => ?_
      rw [members, ← hs]
      exact FieldSet.yields_add s fs
  | remove e fs ih =>
      refine ih.bind fun s hs => ?_
      rw [members, ← hs]
      exact FieldSet.yields_remove s fs
  | union e e' ih ih' =>
      refine ih.bind fun s hs => ih'.map fun t ht => ?_
      rw [FieldSet.members_union, hs, ht, members]
  | inter e e' ih ih' =>
      refine ih.bind fun s hs => ih'.map fun t ht => ?_
      rw [FieldSet.members_inter, hs, ht, members]
  | diff e e' ih ih' =>
      refine ih.bind fun s hs => ih'.map fun t ht => ?_
      rw [FieldSet.members_diff, hs, ht, members]
  | clear e ih => exact ih.map fun _ _ => FieldSet.members_empty

end SetTerm

/-! ## What is read off a set -/

namespace FieldSet

variable {s t : FieldSet}

/-- The members are listed in ascending order, so none of them twice. -/
theorem pairwise_codes (s : FieldSet) : s.codes.Pairwise (· < ·) :=
  List.pairwise_lt_range.filter _

theorem toFinset_codes (s : FieldSet) : s.codes.toFinset = s.members := by
  ext f
  rw [List.mem_toFinset, mem_codes, mem_members]

theorem length_codes (s : FieldSet) : s.codes.length = s.size :=
  List.countP_eq_length_filter.symm

theorem card_members (s : FieldSet) : s.members.card = s.size := by
  have hnodup : s.codes.Nodup := s.pairwise_codes.imp Nat.ne_of_lt
  rw [← toFinset_codes, List.toFinset_card_of_nodup hnodup, length_codes]

/-- The number of members is the number of bits that are set. -/
theorem toNat_cpop (s : FieldSet) : s.bits.cpop.toNat = s.size := by
  have hcount : ∀ k, s.bits.cpopNatRec k 0 = (List.range k).countP s.mem := by
    intro k
    induction k with
    | zero => rfl
    | succ k ih =>
        rw [BitVec.cpopNatRec_succ, BitVec.cpopNatRec_add, ih, List.range_succ,
          List.countP_append, List.countP_singleton, mem]
        cases s.bits.getLsbD k <;> rfl
  rw [BitVec.toNat_cpop, hcount]
  rfl

theorem ofCodes_codes (s : FieldSet) : ofCodes s.codes = .ok s := by
  rw [ofCodes, add_codes]
  exact congrArg Except.ok (ext fun f _ => by simp)

theorem inter_eq_iff : s.inter t = t ↔ t.members ⊆ s.members := by
  rw [← members_inj, members_inter, Finset.inter_eq_right]

theorem includes_iff : s.includes t = true ↔ t.members ⊆ s.members := by
  rw [← inter_eq_iff, includes, beq_iff_eq, inter, FieldSet.mk.injEq]

theorem meets_iff : s.meets t = true ↔ (s.members ∩ t.members).Nonempty := by
  have hbits : s.bits &&& t.bits = 0 ↔ s.inter t = empty := by
    rw [inter, empty, FieldSet.mk.injEq]
  rw [meets, bne_iff_ne, ne_eq, hbits, ← members_inj, members_inter, members_empty,
    Finset.nonempty_iff_ne_empty]

theorem isEmpty_iff : s.isEmpty = true ↔ s.members = ∅ := by
  have hbits : s.bits = 0 ↔ s = empty := by
    obtain ⟨bits⟩ := s
    rw [empty, FieldSet.mk.injEq]
  rw [isEmpty, beq_iff_eq, hbits, ← members_empty, members_inj]

/-- What is read off a field set is what its members say. -/
structure Agrees (s : FieldSet) : Prop where
  ascending : s.codes.Pairwise (· < ·)
  codes : s.codes.toFinset = s.members
  length : s.codes.length = s.size
  card : s.members.card = s.size
  bits_set : s.bits.cpop.toNat = s.size
  collected : ofCodes s.codes = .ok s
  isEmpty : s.isEmpty = true ↔ s.members = ∅
  includes : ∀ t, s.includes t = true ↔ t.members ⊆ s.members
  meets : ∀ t, s.meets t = true ↔ (s.members ∩ t.members).Nonempty
  exact : ∀ t, (s == t) = true ↔ s.members = t.members
  contains : ∀ f, s.contains f =
    if f < fieldCapacity then .ok (decide (f ∈ s.members)) else .error (.fieldOutOfRange f)

theorem agrees_members (s : FieldSet) : s.Agrees where
  ascending := s.pairwise_codes
  codes := s.toFinset_codes
  length := s.length_codes
  card := s.card_members
  bits_set := s.toNat_cpop
  collected := s.ofCodes_codes
  isEmpty := isEmpty_iff
  includes _ := includes_iff
  meets _ := meets_iff
  exact _ := beq_iff_eq.trans members_inj.symm
  contains f := by
    rw [contains]
    congr
    rw [Bool.eq_iff_iff, decide_eq_true_iff, mem_members, mem_iff]

end FieldSet

/-! ## Persisted fields -/

/-- The codes of the descriptors that are not runtime state. -/
def storedCodes (fields : List FieldDesc) : List Field :=
  (fields.filter (·.stored)).map (·.code)

theorem mem_storedCodes {fields : List FieldDesc} {f : Field} :
    f ∈ storedCodes fields ↔ ∃ d ∈ fields, d.role ≠ .runtime ∧ d.code = f := by
  simp [storedCodes, FieldDesc.stored, and_assoc]

theorem yields_persisted (fields : List FieldDesc) :
    FieldSet.Yields (persisted fields) (storedCodes fields) (storedCodes fields).toFinset :=
  FieldSet.yields_ofCodes (storedCodes fields)

/-- Field sets are finite sets of codes: made, taken apart and compared like them, and the
persisted fields of a table are the ones that are not runtime state. -/
theorem FieldSet.models_finset :
    (∀ e : SetTerm, FieldSet.Yields e.value e.listed e.members) ∧
      (∀ s : FieldSet, s.Agrees) ∧
      ∀ fields : List FieldDesc,
        FieldSet.Yields (persisted fields) (storedCodes fields) (storedCodes fields).toFinset ∧
          ∀ f, f ∈ storedCodes fields ↔ ∃ d ∈ fields, d.role ≠ .runtime ∧ d.code = f :=
  ⟨SetTerm.yields_value, FieldSet.agrees_members,
    fun fields => ⟨yields_persisted fields, fun _ => mem_storedCodes⟩⟩

end WriteBehind
