import Mathlib.Data.Nat.Digits.Lemmas
import WriteBehind.Proofs.JointFetches

/-!
# Integer key parts

An integer in a key may be handed over as a number or as a text.  `Numeral` says which texts
spell which integers, in terms of signs, digits and their positional value only;
`Text.integer?_eq_some_iff` is that the reader of decimal integers accepts these and no others,
and nothing wraps around at the limits of 64 bits (`Text.int64?_eq_some_iff`).

So the parts that denote an integer are its number and all its numerals
(`KeyPart.asInteger_eq_ok_iff`).  They make the same key of a record type whose keys begin with
an integer (`KeyForm.ofParts_eq_of_denotes`), under which one text, one group and one instance
are found.
-/

namespace WriteBehind

/-! ## Numerals -/

namespace Text

/-- The number that a list of decimal digits stands for, the last one counting ones. -/
def positional (digits : List Char) : Nat :=
  Nat.ofDigits 10 (digits.map fun c => c.toNat - '0'.toNat).reverse

/-- The numerals of an integer: one sign or none, and ASCII digits, at least one. -/
inductive Numeral : List Char → Int → Prop where
  | unsigned {digits : List Char} (hfilled : digits ≠ []) (hdigits : digits.all Char.isDigit) :
      Numeral digits (positional digits)
  | plus {digits : List Char} (hfilled : digits ≠ []) (hdigits : digits.all Char.isDigit) :
      Numeral ('+' :: digits) (positional digits)
  | minus {digits : List Char} (hfilled : digits ≠ []) (hdigits : digits.all Char.isDigit) :
      Numeral ('-' :: digits) (-(positional digits : Int))

theorem ofDigitChars_eq_positional (cs : List Char) :
    Nat.ofDigitChars 10 cs 0 = positional cs := by
  induction cs with
  | nil => rfl
  | cons c cs ih =>
      calc Nat.ofDigitChars 10 (c :: cs) 0
          = 10 ^ cs.length * (c.toNat - '0'.toNat) + Nat.ofDigitChars 10 cs 0 := by
            rw [Nat.ofDigitChars_cons, Nat.mul_zero, Nat.zero_add,
              Nat.ofDigitChars_eq_ofDigitChars_zero]
        _ = positional (c :: cs) := by
            rw [ih, positional, positional, List.map_cons, Nat.ofDigits_reverse_cons,
              List.length_map, Nat.add_comm]

theorem natural?_eq_some_iff {cs : List Char} {n : Nat} :
    natural? cs = some n ↔ cs ≠ [] ∧ cs.all Char.isDigit = true ∧ positional cs = n := by
  have hvalue : digitsValue cs = positional cs := ofDigitChars_eq_positional cs
  rw [natural?, hvalue]
  split
  next hbad =>
    refine iff_of_false nofun ?_
    rintro ⟨hfilled, hdigits, -⟩
    simp [hfilled, hdigits] at hbad
  next hgood =>
    simp only [Bool.or_eq_true, List.isEmpty_iff, Bool.not_eq_true', not_or,
      Bool.not_eq_false] at hgood
    simp [hgood.1, hgood.2]

theorem numeral_minus_iff {cs : List Char} {n : Int} :
    Numeral ('-' :: cs) n ↔ cs ≠ [] ∧ cs.all Char.isDigit = true ∧ -(positional cs : Int) = n := by
  constructor
  · intro h
    cases h with
    | unsigned hfilled hdigits => exact absurd (List.all_eq_true.mp hdigits '-' (by simp)) (by decide)
    | minus hfilled hdigits => exact ⟨hfilled, hdigits, rfl⟩
  · rintro ⟨hfilled, hdigits, rfl⟩
    exact .minus hfilled hdigits

theorem numeral_plus_iff {cs : List Char} {n : Int} :
    Numeral ('+' :: cs) n ↔ cs ≠ [] ∧ cs.all Char.isDigit = true ∧ (positional cs : Int) = n := by
  constructor
  · intro h
    cases h with
    | unsigned hfilled hdigits => exact absurd (List.all_eq_true.mp hdigits '+' (by simp)) (by decide)
    | plus hfilled hdigits => exact ⟨hfilled, hdigits, rfl⟩
  · rintro ⟨hfilled, hdigits, rfl⟩
    exact .plus hfilled hdigits

theorem numeral_unsigned_iff {cs : List Char} {n : Int} (hminus : ∀ rest, cs ≠ '-' :: rest)
    (hplus : ∀ rest, cs ≠ '+' :: rest) :
    Numeral cs n ↔ cs ≠ [] ∧ cs.all Char.isDigit = true ∧ (positional cs : Int) = n := by
  constructor
  · intro h
    cases h with
    | unsigned hfilled hdigits => exact ⟨hfilled, hdigits, rfl⟩
    | plus => exact absurd rfl (hplus _)
    | minus => exact absurd rfl (hminus _)
  · rintro ⟨hfilled, hdigits, rfl⟩
    exact .unsigned hfilled hdigits

/-- The texts that are read as an integer are its numerals. -/
theorem integer?_eq_some_iff {s : String} {n : Int} :
    integer? s = some n ↔ Numeral s.toList n := by
  have hread : ∀ (cs : List Char) (f : Int → Int),
      (natural? cs >>= fun m => some (m : Int)).map f = some n ↔
        cs ≠ [] ∧ cs.all Char.isDigit = true ∧ f (positional cs) = n := by
    intro cs f
    cases hm : natural? cs with
    | none =>
        refine iff_of_false nofun ?_
        rintro ⟨hfilled, hdigits, -⟩
        rw [natural?_eq_some_iff.mpr ⟨hfilled, hdigits, rfl⟩] at hm
        cases hm
    | some m =>
        obtain ⟨hfilled, hdigits, rfl⟩ := natural?_eq_some_iff.mp hm
        simp [hfilled, hdigits]
  rw [integer?]
  split
  next cs hs =>
    rw [hs, numeral_minus_iff]
    exact hread cs _
  next cs hs =>
    rw [hs, numeral_plus_iff]
    exact hread cs _
  next hminus hplus =>
    rw [numeral_unsigned_iff hminus hplus]
    exact hread _ _

/-- Nothing wraps around at the limits. -/
theorem int64?_eq_some_iff {s : String} {v : Int64} :
    int64? s = some v ↔ Numeral s.toList v.toInt := by
  rw [int64?, ← integer?_eq_some_iff]
  cases hn : integer? s with
  | none => exact iff_of_false nofun nofun
  | some n =>
      rw [Option.bind_some, Option.some.injEq]
      split
      next hrange =>
        rw [Option.some.injEq, ← Int64.toInt_inj, Int64.toInt_ofInt_of_le hrange.1 hrange.2]
      next hrange =>
        refine iff_of_false nofun ?_
        rintro rfl
        exact hrange ⟨v.le_toInt, v.toInt_lt⟩

theorem int64?_eq_none_iff {s : String} :
    int64? s = none ↔ ∀ n, Numeral s.toList n → ¬(-2 ^ 63 ≤ n ∧ n < 2 ^ 63) := by
  constructor
  · intro h n hn hrange
    have hv : int64? s = some (Int64.ofInt n) := by
      rw [int64?_eq_some_iff, Int64.toInt_ofInt_of_le hrange.1 hrange.2]
      exact hn
    rw [h] at hv
    cases hv
  · intro h
    cases hv : int64? s with
    | none => rfl
    | some v => exact absurd ⟨v.le_toInt, v.toInt_lt⟩ (h _ (int64?_eq_some_iff.mp hv))

/-- The decimal text of an integer is one of its numerals. -/
theorem numeral_toString (n : Int) : Numeral (toString n).toList n := by
  have hdigits : ∀ m : Nat, m.repr.toList ≠ [] ∧ m.repr.toList.all Char.isDigit = true ∧
      positional m.repr.toList = m := by
    intro m
    rw [Nat.toList_repr]
    refine ⟨Nat.toDigits_ne_nil, ?_, ?_⟩
    · rw [List.all_eq_true]
      exact fun c hc => Nat.isDigit_of_mem_toDigits (by decide) (by decide) hc
    · rw [← ofDigitChars_eq_positional, Nat.ofDigitChars_ten_toDigits]
  cases n with
  | ofNat m =>
      obtain ⟨hfilled, hall, hvalue⟩ := hdigits m
      have h := Numeral.unsigned hfilled hall
      rw [hvalue] at h
      exact h
  | negSucc m =>
      obtain ⟨hfilled, hall, hvalue⟩ := hdigits (m + 1)
      have h := Numeral.minus hfilled hall
      rw [hvalue] at h
      have htext : (toString (Int.negSucc m)).toList = '-' :: (m + 1).repr.toList := by
        show ("-" ++ (m + 1).repr).toList = _
        simp
      rw [htext]
      exact h

end Text

/-! ## Parts that denote an integer -/

namespace KeyPart

/-- What a part is meant to be: a number is itself, and a text is what it spells. -/
def Denotes : KeyPart → Int → Prop
  | .int v, n => v.toInt = n
  | .text s, n => Text.Numeral s.toList n

theorem asInteger_eq_ok_iff {p : KeyPart} {v : Int64} :
    p.asInteger = .ok v ↔ p.Denotes v.toInt := by
  cases p with
  | int w => rw [asInteger, Except.ok.injEq, Denotes, Int64.toInt_inj]
  | text s =>
      rw [asInteger, Denotes, ← Text.int64?_eq_some_iff]
      cases Text.int64? s with
      | none => exact iff_of_false nofun nofun
      | some w => rw [Except.ok.injEq, Option.some.injEq]

theorem asInteger_text_eq_error_iff {s : String} :
    (text s).asInteger = .error (.invalidKey s!"{Text.quote s} is not an integer") ↔
      ∀ n, Text.Numeral s.toList n → ¬(-2 ^ 63 ≤ n ∧ n < 2 ^ 63) := by
  rw [asInteger, ← Text.int64?_eq_none_iff]
  cases Text.int64? s with
  | none => exact iff_of_true rfl rfl
  | some v => exact iff_of_false nofun nofun

end KeyPart

namespace KeyForm

variable {f : KeyForm} {p q : KeyPart} {v w : Int64}

/-- The key that begins with an integer and leaves the rest open. -/
def ofInteger (f : KeyForm) (v : Int64) : Key := ⟨.int v, f.rest.map fun _ => none⟩

theorem readRest_nil (columns : List KeyColumn) :
    readRest columns [] = .ok (columns.map fun _ => none) := by
  cases columns with
  | nil => rfl
  | cons c columns => rfl

/-- Parts that denote an integer make its key, however they spell it. -/
theorem ofParts_eq_of_denotes (hkind : f.first.kind = .integer) (hp : p.Denotes v.toInt)
    (ns : String) : f.ofParts ns [p] = .ok (f.ofInteger v) := by
  have hread : f.first.read p = .ok (.int v) := by
    rw [KeyColumn.read, hkind, KeyPart.asInteger_eq_ok_iff.mpr hp]
    rfl
  have harity : [p].length ≤ f.arity := Nat.le_add_left 1 f.rest.length
  simp only [ofParts, if_pos harity, hread, readRest_nil]
  rfl

theorem text_ofInteger (f : KeyForm) (v : Int64) :
    (f.ofInteger v).text =
      String.intercalate "/" (toString v.toInt :: f.rest.map fun _ => "*") := by
  rw [Key.text, ofInteger, List.map_map]
  rfl

/-- Different integers have different texts, so they are different keys. -/
theorem eq_of_text_ofInteger (h : (f.ofInteger v).text = (f.ofInteger w).text) : v = w := by
  rw [text_ofInteger, text_ofInteger] at h
  have htext : toString v.toInt = toString w.toInt := by
    cases hrest : f.rest with
    | nil => simpa [hrest] using h
    | cons c columns =>
        rw [hrest, List.map_cons, String.intercalate_cons_cons, String.intercalate_cons_cons] at h
        simpa [String.append_assoc] using h
  exact Int64.toInt_inj.mp (Text.eq_of_toString_eq htext)

end KeyForm

/-! ## Look-ups by parts -/

namespace Scope

theorem get_of_live {s : Scope} {key : Key} {id : Nat}
    (h : s.source.repo.get key = some (.live id)) : s.get key = (.ok (some id), s) := by
  simp [Scope.get, h, Slot.live?]

end Scope

namespace Cache

variable {c : Cache} {model : Model} {ns : String} {p q : KeyPart} {v : Int64}

theorem getByParts_eq {key : Key} (hkey : model.record.key.ofParts model.record.ns [p] = .ok key) :
    c.getByParts model ns [p] = c.within model ns (·.get key) := by
  simp only [getByParts, hkey]

/-- The instance that a look-up finds is found again, and nothing else happens. -/
theorem within_get_again {key : Key} {id : Nat}
    (h : (c.within model ns (·.get key)).1 = .ok (some id)) :
    (c.within model ns (·.get key)).2.within model ns (·.get key) =
      (.ok (some id), (c.within model ns (·.get key)).2) := by
  cases hsource : c.source model ns with
  | error e =>
      rw [within, hsource] at h
      cases h
  | ok source =>
      simp only [within, hsource] at h ⊢
      have hfound : ((c.scope source).get key).1 = .ok (some id) := mapError_eq_ok_iff.mp h
      have hlive := Scope.live_of_get_some hfound
      have hinfo : ((c.scope source).get key).2.source.info.model = model := by
        rw [(Scope.loads_get (c.scope source) key).info]
        exact (source_eq_ok hsource).2
      rw [source_adopt hinfo]
      have hscope : (c.adopt ns ((c.scope source).get key).2).scope
          ((c.scope source).get key).2.source = ((c.scope source).get key).2 := rfl
      simp only [hscope, Scope.get_of_live hlive, adopt_adopt]
      rfl

/-- Two parts lead to the same entity of a source: to one key, whose text and hash are those of
an integer, and to one instance, whichever of them is asked for and if one is asked for after
the other. -/
structure SameEntity (c : Cache) (model : Model) (ns : String) (p q : KeyPart) (v : Int64) :
    Prop where
  key : ∃ key, model.record.key.ofParts model.record.ns [p] = .ok key ∧
    model.record.key.ofParts model.record.ns [q] = .ok key ∧
    key.text = String.intercalate "/"
      (toString v.toInt :: model.record.key.rest.map fun _ => "*") ∧
    key.hash = v.toUInt64 ∧
    ∀ repo : Repo Key Nat,
      repo.groupIndex key = v.toUInt64.toNat &&& (repo.groupCount - 1)
  answer : c.getByParts model ns [p] = c.getByParts model ns [q]
  found : ∀ id, (c.getByParts model ns [p]).1 = .ok (some id) →
    (c.getByParts model ns [p]).2.getByParts model ns [q] =
      (.ok (some id), (c.getByParts model ns [p]).2)

theorem sameEntity (hkind : model.record.key.first.kind = .integer) (hp : p.Denotes v.toInt)
    (hq : q.Denotes v.toInt) (c : Cache) (ns : String) : c.SameEntity model ns p q v := by
  have hkey := KeyForm.ofParts_eq_of_denotes hkind hp model.record.ns
  have hkey' := KeyForm.ofParts_eq_of_denotes hkind hq model.record.ns
  refine ⟨⟨_, hkey, hkey', KeyForm.text_ofInteger _ v, rfl, fun _ => rfl⟩, ?_, ?_⟩
  · rw [getByParts_eq hkey, getByParts_eq hkey']
  · intro id hid
    rw [getByParts_eq hkey] at hid ⊢
    rw [getByParts_eq hkey']
    exact within_get_again hid

/-- A key part is the integer that it denotes: texts are read exactly, numbers and their decimal
texts mean the same, and a source whose keys begin with an integer has one entity for each
integer. -/
theorem integer_key_parts :
    (∀ (s : String) (v : Int64),
        (KeyPart.text s).asInteger = .ok v ↔ Text.Numeral s.toList v.toInt) ∧
      (∀ s : String,
        (KeyPart.text s).asInteger = .error (.invalidKey s!"{Text.quote s} is not an integer") ↔
          ∀ n, Text.Numeral s.toList n → ¬(-2 ^ 63 ≤ n ∧ n < 2 ^ 63)) ∧
      (∀ v : Int64, (KeyPart.int v).asInteger = .ok v ∧
        (KeyPart.text (toString v.toInt)).asInteger = .ok v) ∧
      (∀ (c : Cache) (model : Model) (ns : String) (p q : KeyPart) (v : Int64),
        model.record.key.first.kind = .integer → p.Denotes v.toInt → q.Denotes v.toInt →
          c.SameEntity model ns p q v) ∧
      ∀ (f : KeyForm) (v w : Int64), (f.ofInteger v).text = (f.ofInteger w).text → v = w := by
  refine ⟨fun s v => KeyPart.asInteger_eq_ok_iff, fun s => KeyPart.asInteger_text_eq_error_iff,
    fun v => ⟨rfl, ?_⟩, fun c model ns p q v hkind hp hq => sameEntity hkind hp hq c ns,
    fun f v w => KeyForm.eq_of_text_ofInteger⟩
  exact KeyPart.asInteger_eq_ok_iff.mpr (Text.numeral_toString v.toInt)

end Cache

namespace Sample

/-- The first hero is found by its number, and again by a numeral with a sign and zeros in
front. -/
theorem integer_key_parts_heroRows :
    ((soleCache hero heroRows).getByParts hero "hero" [.int 1]).1.toOption = some (some 0) ∧
      (soleCache hero heroRows).SameEntity hero "hero" (.int 1) (.text "+001") 1 := by
  refine ⟨by decide +kernel, ?_⟩
  have hnumeral : (KeyPart.text "+001").asInteger = .ok 1 := by decide +kernel
  exact Cache.integer_key_parts.2.2.2.1 (soleCache hero heroRows) hero "hero" (.int 1)
    (.text "+001") 1 rfl (KeyPart.asInteger_eq_ok_iff.mp rfl)
    (KeyPart.asInteger_eq_ok_iff.mp hnumeral)

end Sample

end WriteBehind
