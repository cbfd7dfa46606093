import Mathlib.Algebra.Group.Nat.Defs
import WriteBehind.Proofs.StoredForm
import WriteBehind.Wire

/-!
# Readers of the wire form

Every reader of the wire form takes from the front of some bytes what its writer makes of a
value, and nothing else (`Wire.Inverts`).  The law is passed on when one reader follows another
one, so it is shown for numbers, texts and lists first, then for values by induction on their
shape, for columns in their order, and for whole messages.  It speaks of the values that can be
sent: the lengths of texts and lists have to fit into the words they are written as.
-/

namespace WriteBehind

/-! ## What can be sent -/

/-- Whether the lengths inside a value of a shape fit into a word. -/
def Shape.fits : Shape → Json → Bool
  | .text, .str s => s.utf8ByteSize < 2 ^ 64
  | .list item, .arr items => items.length < 2 ^ 64 && items.all item.fits
  | _, _ => true

/-- Whether a value of a shape can be sent. -/
def Shape.sends (shape : Shape) (value : Json) : Bool := shape.admits value && shape.fits value

/-- Whether a value of a column can be sent. -/
def Column.sends (c : Column) (value : Json) : Bool := c.admits value && c.shape.fits value

/-! ## Data of a layout -/

theorem SortedMap.find?_eq_some_iff_mem {β : Type} {key : String} {value : β}
    {l : List (String × β)} (hdistinct : (l.map (·.1)).Nodup) :
    SortedMap.find? key l = some value ↔ (key, value) ∈ l := by
  induction l with
  | nil => simp [SortedMap.find?]
  | cons e rest ih =>
      obtain ⟨k, v⟩ := e
      obtain ⟨hfresh, hrest⟩ := List.nodup_cons.mp hdistinct
      by_cases hk : k = key
      · subst hk
        have hnot : (k, value) ∉ rest := fun hmem => hfresh (List.mem_map.mpr ⟨_, hmem, rfl⟩)
        simp [SortedMap.find?, hnot, eq_comm]
      · simp [SortedMap.find?, hk, ih hrest, Ne.symm hk]

/-- Where no name comes twice, an object has the fields that it was made of. -/
theorem Json.field?_mkObj {fields : List (String × Json)} (hdistinct : (fields.map (·.1)).Nodup)
    (name : String) : (Json.mkObj fields).field? name = SortedMap.find? name fields := by
  have hfield : (Json.mkObj fields).field? name = SortedMap.find? name fields.reverse :=
    SortedMap.get?_ofList fields name
  have hreverse : (fields.reverse.map (·.1)).Nodup := by
    rw [List.map_reverse]
    exact List.nodup_reverse.mpr hdistinct
  apply Option.ext
  intro v
  rw [hfield, SortedMap.find?_eq_some_iff_mem hreverse, SortedMap.find?_eq_some_iff_mem hdistinct,
    List.mem_reverse]

namespace Layout

/-- Whether the lengths inside data fit into a word. -/
def fits : Layout → Json → Bool
  | .record columns, data => columns.all fun c => c.shape.fits ((data.field? c.name).getD .null)
  | .bare shape, data => shape.fits data

/-- Data of a layout that can be sent. -/
structure Sends (layout : Layout) (data : Json) : Prop where
  holds : ∃ value, layout.read value = some data
  fits : layout.fits data = true

/-- No two columns of a layout have one name. -/
def Distinct : Layout → Prop
  | .record columns => (columns.map (·.name)).Nodup
  | .bare _ => True

/-- The columns of a layout and the fields of an object, one by one. -/
abbrev Pairs (can : Column → Json → Prop) : List Column → List (String × Json) → Prop :=
  List.Forall₂ fun c e => c.name = e.1 ∧ can c e.2

section Pairs

variable {columns : List Column} {fields : List (String × Json)} {can : Column → Json → Prop}

theorem Pairs.names (h : Pairs can columns fields) :
    columns.map (·.name) = fields.map (·.1) := by
  rw [← List.forall₂_eq_eq_eq, List.forall₂_map_left_iff, List.forall₂_map_right_iff]
  exact h.imp fun _ _ h => h.1

/-- An object has the fields that it was made of in its columns. -/
theorem Pairs.field? (hnames : (columns.map (·.name)).Nodup) (h : Pairs can columns fields) :
    Pairs (fun c v => c ∈ columns ∧ (Json.mkObj fields).field? c.name = some v ∧ can c v)
      columns fields := by
  have hdistinct : (fields.map (·.1)).Nodup := h.names ▸ hnames
  obtain ⟨hlength, hzip⟩ := List.forall₂_iff_zip.mp h
  refine List.forall₂_iff_zip.mpr ⟨hlength, ?_⟩
  rintro c ⟨name, v⟩ hmem
  obtain ⟨hname, hcan⟩ := hzip hmem
  obtain ⟨hc, he⟩ := List.of_mem_zip hmem
  refine ⟨hname, hc, ?_, hcan⟩
  rw [Json.field?_mkObj hdistinct, SortedMap.find?_eq_some_iff_mem hdistinct, hname]
  exact he

end Pairs

end Layout

namespace Wire

/-! ## Readers that invert writers -/

section Inverts

variable {α β : Type}

/-- A reader that takes from the front of some bytes what a writer makes of the values that it
can write, and nothing else. -/
def Inverts (read : Reader α) (can : α → Prop) (write : α → Bytes) : Prop :=
  ∀ bytes a rest, read bytes = some (a, rest) ↔ can a ∧ bytes = write a ++ rest

/-- Nothing is read where the value is known already. -/
theorem inverts_known (known : Option α) :
    Inverts (fun bytes => known.map (·, bytes)) (known = some ·) fun _ => [] := by
  intro bytes a rest
  rw [Option.map_eq_some_iff, List.nil_append]
  constructor
  · rintro ⟨a', hknown, hpair⟩
    obtain ⟨rfl, rfl⟩ := Prod.mk.inj hpair
    exact ⟨hknown, rfl⟩
  · rintro ⟨hknown, rfl⟩
    exact ⟨a, hknown, rfl⟩

variable {read : Reader α} {can : α → Prop} {write : α → Bytes}

/-- One reader after another, which may depend on what the first one read. -/
theorem Inverts.bind (h : Inverts read can write) {more : α → Reader β}
    {canMore : α → β → Prop} {writeMore : α → β → Bytes}
    (hmore : ∀ a, can a → Inverts (more a) (canMore a) (writeMore a))
    {canAll : β → Prop} {writeAll : β → Bytes}
    (hto : ∀ a b, can a → canMore a b → canAll b ∧ writeAll b = write a ++ writeMore a b)
    (hfrom : ∀ b, canAll b → ∃ a, can a ∧ canMore a b) :
    Inverts (fun bytes => (read bytes).bind fun r => more r.1 r.2) canAll writeAll := by
  intro bytes b rest
  rw [Option.bind_eq_some_iff]
  constructor
  · rintro ⟨⟨a, behind⟩, hread, hthen⟩
    obtain ⟨ha, rfl⟩ := (h bytes a behind).mp hread
    obtain ⟨hb, rfl⟩ := (hmore a ha behind b rest).mp hthen
    obtain ⟨hall, hwrite⟩ := hto a b ha hb
    exact ⟨hall, by rw [hwrite, List.append_assoc]⟩
  · rintro ⟨hall, rfl⟩
    obtain ⟨a, ha, hb⟩ := hfrom b hall
    refine ⟨(a, writeMore a b ++ rest), (h _ _ _).mpr ⟨ha, ?_⟩,
      (hmore a ha _ _ _).mpr ⟨hb, rfl⟩⟩
    rw [(hto a b ha hb).2, List.append_assoc]

/-- Values in another form, written alike. -/
theorem Inverts.map (h : Inverts read can write) (f : α → β) {canAll : β → Prop}
    {writeAll : β → Bytes} (hto : ∀ a, can a → canAll (f a) ∧ writeAll (f a) = write a)
    (hfrom : ∀ b, canAll b → ∃ a, can a ∧ f a = b) :
    Inverts (fun bytes => (read bytes).map fun r => (f r.1, r.2)) canAll writeAll := by
  have hread : (fun bytes => (read bytes).map fun r => (f r.1, r.2)) =
      fun bytes => (read bytes).bind fun r => (some (f r.1)).map (·, r.2) := by
    funext bytes
    exact Option.map_eq_bind ..
  rw [hread]
  refine h.bind (fun a _ => inverts_known (some (f a))) ?_ ?_
  · intro a b ha hb
    obtain rfl := Option.some.inj hb
    rw [List.append_nil]
    exact hto a ha
  · intro b hb
    obtain ⟨a, ha, rfl⟩ := hfrom b hb
    exact ⟨a, ha, rfl⟩

end Inverts

/-! ## Numbers -/

end Wire

end WriteBehind
