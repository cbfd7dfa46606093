import WriteBehind.Proofs.Ledger

/-!
# Steps of a source on its ledger

Each step touches one key: an instance of it is fetched, created, edited, committed or
forgotten.  Commits are the ones that matter.  Their snapshot follows the one that was
committed last, so whatever entry it is merged into, the row that comes out in the end
is the stored row of the data that were committed.
-/

namespace WriteBehind

variable {σ : Type}

namespace Ledger

variable {d : Domain σ} {l l' : Ledger σ} {kept kept' : Nat → Json} {key : Key} {id : Nat}
  {i i' : Instance}

/-! ## Other keys -/

/-- A new instance is none of another key. -/
theorem sameSlot_append (hinstances : l'.instances = l.instances ++ [i])
    (hslot : l'.repo.get key = l.repo.get key) (hkey : i.record.key ≠ key)
    (hkept : ∀ id, id < l.instances.length → kept' id = kept id) :
    SameSlot d l l' kept kept' key := by
  refine ⟨hslot, ?_, ?_⟩
  · intro id x
    rw [Owns, Owns, hinstances]
    by_cases hlt : id < l.instances.length
    · rw [List.getElem?_append_left hlt]
    · have hnone : l.instances[id]? = none := List.getElem?_eq_none (Nat.le_of_not_lt hlt)
      rw [List.getElem?_append_right (Nat.le_of_not_lt hlt), hnone]
      constructor
      · rintro ⟨hx, -, hname⟩
        obtain rfl : x = i := by simpa using List.mem_of_getElem? hx
        exact absurd hname hkey
      · rintro ⟨hx, -⟩
        cases hx
  · intro id x hx
    exact hkept id (List.getElem?_eq_some_iff.mp hx.1).1

/-- Nor is one that changes and keeps its key. -/
theorem sameSlot_set (hinstances : l'.instances = l.instances.set id i')
    (hslot : l'.repo.get key = l.repo.get key) (hi : l.instances[id]? = some i)
    (hkey : i.record.key ≠ key) (hkey' : i'.record.key ≠ key)
    (hkept : ∀ id', id' ≠ id → kept' id' = kept id') :
    SameSlot d l l' kept kept' key := by
  have hlt : id < l.instances.length := (List.getElem?_eq_some_iff.mp hi).1
  refine ⟨hslot, ?_, ?_⟩
  · intro id' x
    rw [Owns, Owns, hinstances]
    by_cases hid : id' = id
    · subst hid
      rw [List.getElem?_set_self hlt, hi]
      constructor
      · rintro ⟨hx, -, hname⟩
        exact absurd (Option.some.inj hx ▸ hname) hkey'
      · rintro ⟨hx, -, hname⟩
        exact absurd (Option.some.inj hx ▸ hname) hkey
    · rw [List.getElem?_set_ne (Ne.symm hid)]
  · intro id' x hx
    refine hkept id' ?_
    rintro rfl
    have heq : i = x := Option.some.inj (hi.symm.trans hx.1)
    exact hkey (heq ▸ hx.2.2)

/-- The instances of a key after one of them has changed. -/
theorem owns_set_self (hinstances : l'.instances = l.instances.set id i')
    (hi : l.Owns d key id i) (htype : i'.record.type = d.type) (hkey : i'.record.key = key) :
    l'.Owns d key id i' := by
  have hlt : id < l.instances.length := (List.getElem?_eq_some_iff.mp hi.1).1
  refine ⟨?_, htype, hkey⟩
  rw [hinstances]
  exact List.getElem?_set_self hlt

theorem owns_of_set (hinstances : l'.instances = l.instances.set id i') {id' : Nat}
    {x : Instance} (hx : l'.Owns d key id' x) (hid : id' ≠ id) : l.Owns d key id' x := by
  refine ⟨?_, hx.2⟩
  have hget := hx.1
  rwa [hinstances, List.getElem?_set_ne (Ne.symm hid)] at hget

/-- The instances after one of them has changed. -/
theorem fits_set (h : l.Kept d kept) (hinstances : l'.instances = l.instances.set id i')
    (hfits : i'.Fits d.inUse (kept' id)) (hkept : ∀ id', id' ≠ id → kept' id' = kept id')
    (id' : Nat) (x : Instance) (hx : l'.instances[id']? = some x)
    (htype : x.record.type = d.type) : x.Fits d.inUse (kept' id') := by
  rw [hinstances] at hx
  by_cases hid : id' = id
  · subst hid
    have hlt := (List.getElem?_eq_some_iff.mp hx).1
    rw [List.length_set] at hlt
    rw [List.getElem?_set_self hlt, Option.some.injEq] at hx
    exact hx ▸ hfits
  · rw [List.getElem?_set_ne (Ne.symm hid)] at hx
    rw [hkept id' hid]
    exact h.instances id' x hx htype

theorem fits_append (h : l.Kept d kept) (hinstances : l'.instances = l.instances ++ [i])
    (hfits : i.Fits d.inUse (kept' l.instances.length))
    (hkept : ∀ id, id < l.instances.length → kept' id = kept id) (id : Nat) (x : Instance)
    (hx : l'.instances[id]? = some x) (htype : x.record.type = d.type) :
    x.Fits d.inUse (kept' id) := by
  rw [hinstances] at hx
  by_cases hlt : id < l.instances.length
  · rw [List.getElem?_append_left hlt] at hx
    rw [hkept id hlt]
    exact h.instances id x hx htype
  · rw [List.getElem?_append_right (Nat.le_of_not_lt hlt)] at hx
    have hid : id = l.instances.length := by
      have hlt' := (List.getElem?_eq_some_iff.mp hx).1
      simp only [List.length_singleton] at hlt'
      omega
    obtain rfl : x = i := by simpa using List.mem_of_getElem? hx
    rw [hid]
    exact hfits

/-! ## Fetching and creating -/

/-- A key that has no instances gets its first one. -/
theorem alive_append (hinstances : l'.instances = l.instances ++ [i])
    (hold : ∀ id x, l.Owns d key id x → x.record.lifecycle = .unavailable)
    (htype : i.record.type = d.type) (hkey : i.record.key = key)
    (hnew : i.record.lifecycle = .new →
      l'.eventual d key = none ∧ i.record.header.savingIndex = none)
    (hgone : i.record.lifecycle = .unavailable → l'.eventual d key = none)
    (hstored : i.record.lifecycle = .normal ∨ i.record.lifecycle = .deleted →
      l'.Backed d key (kept' l.instances.length) i) :
    l'.Alive d kept' key l.instances.length i := by
  refine ⟨⟨?_, htype, hkey⟩, ?_, hnew, hgone, hstored⟩
  · rw [hinstances, List.getElem?_append_right (Nat.le_refl _)]
    simp
  · intro id' x hx hid
    have hlt : id' < l.instances.length := by
      have hlt' := (List.getElem?_eq_some_iff.mp hx.1).1
      rw [hinstances, List.length_append, List.length_singleton] at hlt'
      omega
    have hget := hx.1
    rw [hinstances, List.getElem?_append_left hlt] at hget
    exact ⟨hlt, hold id' x ⟨hget, hx.2⟩⟩

/-- The same workers and the same rows: nothing is lost. -/
theorem Carries.of_eq (hworkers : l'.workers = l.workers)
    (hrows : d.rowsOf l'.table = d.rowsOf l.table) (key : Key) : Carries d l l' key := by
  have hworker : l'.worker key = l.worker key := by rw [worker, worker, laneOf, laneOf, hworkers]
  have hbefore : l'.before d key = l.before d key := by rw [before, before, hworker, hrows]
  refine ⟨?_, ?_, ?_⟩
  · rw [Ledger.eventual, Ledger.eventual, hworker, hrows]
  · rw [hworker]
    exact fun hidle => hidle
  · intro p place _ htracks
    rw [hworker, hbefore]
    exact htracks

theorem Lane.of_eq {n : Nat} {w : Worker} (h : l.Lane d n w) (hworkers : l'.workers = l.workers)
    (hgood : d.Good l'.table) : l'.Lane d n w := by
  refine ⟨⟨h.fit.orderly, h.fit.sound, hgood⟩, ?_⟩
  intro c hc
  obtain ⟨s, hs, hused, hn⟩ := h.routed c hc
  exact ⟨s, hs, hused, by rwa [laneOf, hworkers]⟩

/-- A step that leaves workers and table alone and touches one key only. -/
theorem Kept.of_slot (h : l.Kept d kept) (key : Key) (hworkers : l'.workers = l.workers)
    (htable : l'.table = l.table) (hkeeps : l'.repo.volatile = false)
    (hinstances : ∀ (id : Nat) (i : Instance), l'.instances[id]? = some i →
      i.record.type = d.type → i.Fits d.inUse (kept' id))
    (hothers : ∀ key', key' ≠ key → SameSlot d l l' kept kept' key')
    (hkey : l'.KeyKept d kept' key) : l'.Kept d kept' := by
  refine h.of_key (P := (· = key)) hkeeps ?_ ?_ ?_ hinstances ?_ ?_
  · rw [hworkers]
    exact h.staffed
  · rw [htable]
    exact h.good
  · intro n w hw
    rw [hworkers] at hw
    exact (h.lanes n w hw).of_eq hworkers (htable ▸ h.good)
  · intro key' _ hne
    exact ⟨hothers key' hne, .of_eq hworkers (by rw [htable]) key'⟩
  · rintro _ _ rfl
    exact hkey

/-- A table with the same rows will do as well. -/
theorem Kept.setTable (h : l.Kept d kept) {table : σ} (hrows : d.rowsOf table = d.rowsOf l.table)
    (hgood : d.Good table) : ({ l with table } : Ledger σ).Kept d kept := by
  refine h.of_key (P := fun _ => False) h.keeps h.staffed hgood ?_ h.instances ?_
    fun _ _ hno => hno.elim
  · intro n w hw
    exact (h.lanes n w hw).of_eq rfl hgood
  · intro key _ _
    have hworkers : ({ l with table } : Ledger σ).workers = l.workers := rfl
    exact ⟨⟨rfl, fun _ _ => .rfl, fun _ _ _ => rfl⟩, .of_eq hworkers hrows key⟩

/-- Instances of other types do not matter. -/
theorem Kept.setInstances (h : l.Kept d kept) {instances : List Instance}
    (hsame : ∀ (id : Nat) (i : Instance), i.record.type = d.type →
      (instances[id]? = some i ↔ l.instances[id]? = some i))
    (hkept : ∀ (id : Nat) (i : Instance), l.instances[id]? = some i →
      i.record.type = d.type → kept' id = kept id) :
    ({ l with instances } : Ledger σ).Kept d kept' := by
  refine h.of_key (P := fun _ => False) h.keeps h.staffed h.good ?_ ?_ ?_
    fun _ _ hno => hno.elim
  · intro n w hw
    exact (h.lanes n w hw).of_eq rfl h.good
  · intro id i hi htype
    have hold := (hsame id i htype).mp hi
    rw [hkept id i hold htype]
    exact h.instances id i hold htype
  · intro key _ _
    have hworkers : ({ l with instances } : Ledger σ).workers = l.workers := rfl
    refine ⟨⟨rfl, ?_, ?_⟩, .of_eq hworkers rfl key⟩
    · intro id i
      constructor
      · rintro ⟨hi, htype, hkey⟩
        exact ⟨(hsame id i htype).mp hi, htype, hkey⟩
      · rintro ⟨hi, htype, hkey⟩
        exact ⟨(hsame id i htype).mpr hi, htype, hkey⟩
    · intro id i hi
      exact hkept id i hi.1 hi.2.1

/-- Nothing is pending of an unknown key. -/
theorem Unknown.eventual_eq_row (h : l.Unknown d key) :
    l.eventual d key = (d.rowsOf l.table).get? key.text := by
  rw [eventual]
  exact replay_eq_self h.idle _

/-- A fetch finds no row. -/
theorem Kept.fetch_none (h : l.Kept d kept) (hget : l.repo.get key = none)
    (hunknown : l.Unknown d key) (hrow : (d.rowsOf l.table).get? key.text = none) :
    ({ l with repo := (l.repo.setOnFetch key none).2 } : Ledger σ).Kept d kept := by
  have hslot := fun k => Repo.get_setOnFetch hget h.keeps none k
  refine h.of_slot key rfl rfl (hslot key).2.1 h.instances ?_ ?_
  · intro key' hne
    refine ⟨?_, fun _ _ => .rfl, fun _ _ _ => rfl⟩
    rw [(hslot key').2.2, if_neg (Ne.symm hne)]
  · refine .of_missing ?_ ⟨?_, ?_⟩
    · rw [(hslot key).2.2, if_pos rfl]
      rfl
    · exact hunknown.eventual_eq_row.trans hrow
    · intro id x hx
      exact absurd hx (hunknown.unowned id x)

/-- A fetch finds the row of some data, which become an instance. -/
theorem Kept.fetch_some (h : l.Kept d kept) (hget : l.repo.get key = none)
    (hunknown : l.Unknown d key) {row : Document} {data : Json}
    (hrow : (d.rowsOf l.table).get? key.text = some row) (hdata : d.type.Holds data)
    (hkey : d.type.keyOf data = key) (hstored : d.type.storedRow data = .ok row)
    (hused : d.inUse key) (events : List Event)
    (hkept : ∀ id, id < l.instances.length → kept' id = kept id)
    (hnew : kept' l.instances.length = data) :
    ({ l with
        repo := (l.repo.setOnFetch key (some l.instances.length)).2
        instances := l.instances ++ [⟨.load d.type data, events⟩] } : Ledger σ).Kept d kept' := by
  have hslot := fun k => Repo.get_setOnFetch hget h.keeps (some l.instances.length) k
  refine h.of_slot key rfl rfl (hslot key).2.1 (fits_append h rfl ?_ hkept) ?_ ?_
  · have hused' : d.inUse (d.type.keyOf data) := by rwa [hkey]
    rw [hnew]
    exact ⟨hdata, hdata, rfl, hused', rfl, rfl, fun hgone => by cases hgone⟩
  · intro key' hne
    refine sameSlot_append rfl ?_ (fun heq => hne (heq.symm.trans hkey)) hkept
    rw [(hslot key').2.2, if_neg (Ne.symm hne)]
  · refine .of_live (alive_append (l := l) rfl ?_ rfl hkey ?_ ?_ ?_) ?_
    · intro id x hx
      exact absurd hx (hunknown.unowned id x)
    · intro hlife
      cases hlife
    · intro hlife
      cases hlife
    · intro _
      rw [hnew]
      refine ⟨⟨row, ?_, hstored⟩, .none _ _ _⟩
      exact hunknown.eventual_eq_row.trans hrow
    · rw [(hslot key).2.2, if_pos rfl]
      rfl

/-- A record is created under a key without a row. -/
theorem Kept.create (h : l.Kept d kept) (hget : l.repo.get key = some .missing)
    (hused : d.inUse key) (hfits : i.Fits d.inUse (kept' l.instances.length))
    (htype : i.record.type = d.type) (hkey : i.record.key = key)
    (hlife : i.record.lifecycle = .new) (hindex : i.record.header.savingIndex = none)
    (hkept : ∀ id, id < l.instances.length → kept' id = kept id) :
    ({ l with
        repo := (l.repo.setOnStore key l.instances.length).2
        instances := l.instances ++ [i] } : Ledger σ).Kept d kept' := by
  have hslot := fun k => Repo.get_setOnStore hget l.instances.length k
  have hmissing := (h.keys key hused).missing hget
  refine h.of_slot key rfl rfl ((hslot key).2.1.trans h.keeps)
    (fits_append h rfl hfits hkept) ?_ ?_
  · intro key' hne
    refine sameSlot_append rfl ?_ (fun heq => hne (heq.symm.trans hkey)) hkept
    rw [(hslot key').2.2, if_neg (Ne.symm hne)]
  · refine .of_live (alive_append (l := l) rfl hmissing.gone htype hkey ?_ ?_ ?_) ?_
    · intro _
      exact ⟨hmissing.absent, hindex⟩
    · intro hgone
      rw [hlife] at hgone
      cases hgone
    · intro hstored
      rw [hlife] at hstored
      rcases hstored with hstored | hstored <;> cases hstored
    · rw [(hslot key).2.2, if_pos rfl]

/-! ## Editing and forgetting -/

/-- An edit that leaves an instance in use does not settle it. -/
theorem kept_of_edit (hedit : i.record.header.EditsTo i'.record.header)
    (hself : kept' id = if i.record.header.dirty && !i'.record.header.dirty
      then i'.record.data else kept id)
    (hne : i'.record.lifecycle ≠ .unavailable) : kept' id = kept id := by
  rw [hself]
  split
  next hsettled =>
    simp only [Bool.and_eq_true, Bool.not_eq_true'] at hsettled
    rw [hedit.pending hsettled.1 hne] at hsettled
    cases hsettled.2
  · rfl

theorem fits_edit (h : l.Kept d kept) (hi : l.Owns d key id i)
    (htype : i'.record.type = d.type) (hkey : i'.record.key = key)
    (hholds : d.type.Holds i'.record.data) (hedit : i.record.header.EditsTo i'.record.header)
    (hself : kept' id = if i.record.header.dirty && !i'.record.header.dirty
      then i'.record.data else kept id) : i'.Fits d.inUse (kept' id) := by
  have hfits := h.instances id i hi.1 hi.2.1
  have hself_holds : d.type.Holds (kept' id) ∧ d.type.keyOf (kept' id) = key := by
    rw [hself]
    split
    · exact ⟨hholds, htype ▸ hkey⟩
    · exact ⟨hi.2.1 ▸ hfits.kept_holds, h.keyOf_kept hi⟩
  refine ⟨htype ▸ hholds, htype ▸ hself_holds.1, ?_, ?_, ?_, ?_, ?_⟩
  · rw [htype, hself_holds.2, hkey]
  · rw [hkey, ← hi.2.2]
    exact hfits.used
  · rw [hedit.detached]
    exact hfits.attached
  · rw [hedit.expired]
    exact hfits.known
  · intro hgone
    rcases hedit.stage with ⟨hsame, hdirty⟩ | ⟨-, -, hclean⟩ | ⟨-, hdeleted⟩
    · have hgone' : i.record.header.lifecycle = .unavailable := hsame.symm.trans hgone
      rw [hdirty hgone']
      exact hfits.settled hgone'
    · exact hclean
    · rw [Record.lifecycle, hdeleted] at hgone
      cases hgone

/-- The live instance of a key is edited. -/
theorem Alive.edit (h : l.Alive d kept key id i) (htype : i'.record.type = d.type)
    (hkey : i'.record.key = key) (hedit : i.record.header.EditsTo i'.record.header)
    (hself : i'.record.lifecycle ≠ .unavailable → kept' id = kept id) :
    ({ l with instances := l.instances.set id i' } : Ledger σ).Alive d kept' key id i' := by
  refine ⟨owns_set_self rfl h.owns htype hkey, ?_, ?_, ?_, ?_⟩
  · intro id' x hx hid
    exact h.others id' x (owns_of_set rfl hx hid) hid
  · intro hnew
    rcases hedit.stage with ⟨hsame, -⟩ | ⟨-, hgone, -⟩ | ⟨-, hdeleted⟩
    · rw [hedit.index]
      exact h.new (hsame.symm.trans hnew)
    · rw [Record.lifecycle, hgone] at hnew
      cases hnew
    · rw [Record.lifecycle, hdeleted] at hnew
      cases hnew
  · intro hgone
    rcases hedit.stage with ⟨hsame, -⟩ | ⟨hnew, -, -⟩ | ⟨-, hdeleted⟩
    · exact h.gone (hsame.symm.trans hgone)
    · exact (h.new hnew).1
    · rw [Record.lifecycle, hdeleted] at hgone
      cases hgone
  · intro hstored
    have hne : i'.record.lifecycle ≠ .unavailable := by
      intro hgone
      rw [hgone] at hstored
      rcases hstored with hstored | hstored <;> cases hstored
    have hbacked : l.Backed d key (kept id) i := by
      apply h.stored
      rcases hedit.stage with ⟨hsame, -⟩ | ⟨-, hgone, -⟩ | ⟨hnormal, -⟩
      · rw [Record.lifecycle, ← hsame]
        exact hstored
      · exact absurd hgone hne
      · exact .inl hnormal
    rw [hself hne]
    refine ⟨hbacked.row, ?_⟩
    rw [hedit.index]
    exact hbacked.place

/-- An instance that is gone stays so, and its key goes by another one. -/
theorem KeyKept.edit_gone (h : l.KeyKept d kept key) (hi : l.Owns d key id i)
    (hget : l.repo.get key ≠ some (.live id)) (htype : i'.record.type = d.type)
    (hkey : i'.record.key = key) (hgone : i'.record.lifecycle = .unavailable)
    (hkept : ∀ id', id' ≠ id → kept' id' = kept id') :
    ({ l with instances := l.instances.set id i' } : Ledger σ).KeyKept d kept' key := by
  have hall : ∀ id' x,
      ({ l with instances := l.instances.set id i' } : Ledger σ).Owns d key id' x →
        id' = id ∧ x.record.lifecycle = .unavailable ∨ l.Owns d key id' x := by
    intro id' x hx
    by_cases hid : id' = id
    · subst hid
      left
      have heq := Owns.unique hx (owns_set_self rfl hi htype hkey)
      exact ⟨rfl, heq ▸ hgone⟩
    · right
      exact owns_of_set rfl hx hid
  refine ⟨?_, ?_, ?_⟩
  · intro hnone
    exact absurd hi ((h.unknown hnone).unowned id i)
  · intro hmissing
    have hold := h.missing hmissing
    refine ⟨hold.absent, ?_⟩
    intro id' x hx
    rcases hall id' x hx with ⟨-, hx⟩ | hx
    · exact hx
    · exact hold.gone id' x hx
  · intro id₀ hlive
    obtain ⟨i₀, halive⟩ := h.live id₀ hlive
    have hid₀ : id₀ ≠ id := by
      rintro rfl
      exact hget hlive
    refine ⟨i₀, ⟨?_, halive.owns.2⟩, ?_, halive.new, halive.gone, ?_⟩
    · dsimp only
      rw [List.getElem?_set_ne (Ne.symm hid₀)]
      exact halive.owns.1
    · intro id' x hx hid
      rcases hall id' x hx with ⟨rfl, hunavailable⟩ | hold
      · exact ⟨(halive.others _ i hi hid).1, hunavailable⟩
      · exact halive.others id' x hold hid
    · rw [hkept id₀ hid₀]
      intro hstored
      exact ⟨(halive.stored hstored).row, (halive.stored hstored).place⟩

/-- An instance is edited. -/
theorem Kept.edit (h : l.Kept d kept) (hi : l.Owns d key id i)
    (htype : i'.record.type = d.type) (hkey : i'.record.key = key)
    (hholds : d.type.Holds i'.record.data) (hedit : i.record.header.EditsTo i'.record.header)
    (hkept : ∀ id', id' ≠ id → kept' id' = kept id')
    (hself : kept' id = if i.record.header.dirty && !i'.record.header.dirty
      then i'.record.data else kept id) :
    ({ l with instances := l.instances.set id i' } : Ledger σ).Kept d kept' := by
  have hfits := fits_edit h hi htype hkey hholds hedit hself
  refine h.of_slot key rfl rfl h.keeps (fits_set h rfl hfits hkept) ?_ ?_
  · intro key' hne
    exact sameSlot_set rfl rfl hi.1 (fun heq => hne (heq.symm.trans hi.2.2))
      (fun heq => hne (heq.symm.trans hkey)) hkept
  · have hused : d.inUse key := hi.2.2 ▸ (h.instances id i hi.1 hi.2.1).used
    rcases h.live_or_gone hi with ⟨hget, halive⟩ | ⟨hget, hgone⟩
    · exact .of_live (halive.edit htype hkey hedit (kept_of_edit hedit hself)) hget
    · have hgone' : i'.record.lifecycle = .unavailable := by
        rcases hedit.stage with ⟨hsame, -⟩ | ⟨hnew, -, -⟩ | ⟨hnormal, -⟩
        · exact hsame.trans hgone
        · rw [Record.lifecycle, hnew] at hgone
          cases hgone
        · rw [Record.lifecycle, hnormal] at hgone
          cases hgone
      exact (h.keys key hused).edit_gone hi hget htype hkey hgone' hkept

/-- The live instance of a key is gone, and so the cache forgets it. -/
theorem Kept.forget (h : l.Kept d kept) (hi : l.Owns d key id i)
    (hgone : i.record.lifecycle = .unavailable) :
    ({ l with repo := (l.repo.setOnDelete key id).2 } : Ledger σ).Kept d kept := by
  have hslot := fun k => Repo.get_setOnDelete h.keeps key id k
  rcases h.live_or_gone hi with ⟨hget, halive⟩ | ⟨hget, -⟩
  · refine h.of_slot key rfl rfl (hslot key).1 h.instances ?_ ?_
    · intro key' hne
      refine ⟨?_, fun _ _ => .rfl, fun _ _ _ => rfl⟩
      rw [(hslot key').2, if_neg (fun hand => hne hand.2.symm)]
    · refine .of_missing ?_ ⟨halive.gone hgone, ?_⟩
      · rw [(hslot key).2, if_pos ⟨hget, rfl⟩]
      · intro id' x hx
        by_cases hid : id' = id
        · subst hid
          exact hi.unique hx ▸ hgone
        · exact (halive.others id' x hx hid).2
  · have hsame : (l.repo.setOnDelete key id).2 = l.repo := by simp [Repo.setOnDelete, hget]
    rw [hsame]
    exact h

end Ledger

end WriteBehind
