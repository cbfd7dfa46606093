import WriteBehind.Proofs.Seating

/-!
# The cache is an identity map

Users of a cache know which keys are there, and they hold handles of instances.  A `Census`
follows a cache along with that: a key is present from the start if its row is stored, from
a successful creation on, and no longer once its live instance was saved after a deletion;
and the handles of a key are those that were handed out since it became present.  What the
cache answers is what the census says (`Course.refines`), whether or not anything was
flushed: a key is found exactly if it is present, it can be created exactly if it is not,
and all handles of a key are one instance.
-/

namespace WriteBehind

/-! ## One key -/

/-- How the slot of a key goes with the census. -/
structure Tally (stored : Bool) (slot : Option (Slot Nat)) (present : Bool)
    (handles issued : List Nat) : Prop where
  untouched : slot = none → present = stored ∧ issued = []
  missing : slot = some .missing → present = false
  live : ∀ id, slot = some (.live id) → present = true ∧ (id ∈ issued → id ∈ handles)
  single : ∀ id ∈ handles, slot = some (.live id)

section Tallies

variable {stored present : Bool} {slot slot' : Option (Slot Nat)} {handles issued : List Nat}

theorem Tally.start (stored : Bool) : Tally stored none stored [] [] := by
  refine ⟨fun _ => ⟨rfl, rfl⟩, ?_, ?_, ?_⟩
  · intro hno
    cases hno
  · intro id hno
    cases hno
  · intro id hno
    cases hno

/-- A fetch fills the slot of a key of which nothing is known, and hands out what is live. -/
theorem Tally.fetch (h : Tally stored slot present handles issued)
    (hkept : ∀ x, slot = some x → slot' = some x)
    (hfresh : slot = none → slot' = none ∨ (slot' = some .missing ∧ stored = false) ∨
      ∃ id, slot' = some (.live id) ∧ stored = true)
    {more : List Nat} (hmore : ∀ id ∈ more, slot' = some (.live id)) :
    Tally stored slot' present (handles ++ more) (issued ++ more) := by
  have hold : slot = none ∨ slot = slot' := by
    cases hslot : slot with
    | none => exact .inl rfl
    | some x => exact .inr (hkept x hslot).symm
  refine ⟨?_, ?_, ?_, ?_⟩
  · intro hnone
    have hslot : slot = none := hold.elim id fun heq => heq.trans hnone
    obtain ⟨hpresent, hissued⟩ := h.untouched hslot
    refine ⟨hpresent, ?_⟩
    rw [hissued, List.nil_append]
    refine List.eq_nil_iff_forall_not_mem.mpr fun id hid => ?_
    rw [hmore id hid] at hnone
    cases hnone
  · intro hmissing
    rcases hold with hslot | hslot
    · rw [(h.untouched hslot).1]
      rcases hfresh hslot with hno | ⟨-, hstored⟩ | ⟨id, hno, -⟩
      · rw [hno] at hmissing
        cases hmissing
      · exact hstored
      · rw [hno] at hmissing
        cases hmissing
    · exact h.missing (hslot.trans hmissing)
  · intro id hlive
    rcases hold with hslot | hslot
    · obtain ⟨hpresent, hissued⟩ := h.untouched hslot
      rw [hpresent, hissued, List.nil_append]
      refine ⟨?_, fun hid => List.mem_append_right _ hid⟩
      rcases hfresh hslot with hno | ⟨hno, -⟩ | ⟨id', -, hstored⟩
      · rw [hno] at hlive
        cases hlive
      · rw [hno] at hlive
        cases hlive
      · exact hstored
    · obtain ⟨hpresent, hhandles⟩ := h.live id (hslot.trans hlive)
      refine ⟨hpresent, fun hid => ?_⟩
      rcases List.mem_append.mp hid with hid | hid
      · exact List.mem_append_left _ (hhandles hid)
      · exact List.mem_append_right _ hid
  · intro id hid
    rcases List.mem_append.mp hid with hid | hid
    · exact hkept _ (h.single id hid)
    · exact hmore id hid

/-- A key whose slot is not live has no handles. -/
theorem Tally.handles_eq_nil (h : Tally stored slot present handles issued)
    (hfree : ∀ id, slot ≠ some (.live id)) : handles = [] :=
  List.eq_nil_iff_forall_not_mem.mpr fun id hid => hfree id (h.single id hid)

/-- A key that was free is created. -/
theorem Tally.create (h : Tally stored slot present handles issued)
    (hfree : ∀ id, slot ≠ some (.live id)) (id : Nat) :
    Tally stored (some (.live id)) true (handles ++ [id]) (issued ++ [id]) := by
  rw [h.handles_eq_nil hfree]
  refine ⟨?_, ?_, ?_, ?_⟩
  · intro hno
    cases hno
  · intro hno
    cases hno
  · intro id' hlive
    obtain rfl : id = id' := by simpa using hlive
    exact ⟨rfl, fun _ => List.mem_singleton_self id⟩
  · intro id' hid
    rw [List.mem_singleton.mp hid]

/-- The live instance of a key is removed. -/
theorem Tally.remove (stored : Bool) (issued : List Nat) :
    Tally stored (some .missing) false [] issued := by
  refine ⟨?_, fun _ => rfl, ?_, ?_⟩
  · intro hno
    cases hno
  · intro id hno
    cases hno
  · intro id hno
    cases hno

end Tallies

/-! ## The census -/

namespace Request

variable (p : Deposit) (c : Cache)

/-- Whether a request saves one of some instances after its deletion. -/
def removes (handles : List Nat) : Request → Bool
  | .act (.save model id) | .act (.sync model id) =>
    decide (model = p.model ∧ id ∈ handles) && (c.save model id).1.toOption.isSome &&
      (c.instances[id]?).any (·.record.lifecycle.isGone)
  | _ => false

end Request

/-- A cache in use, with the keys that are present, the handles of each key that were handed
out since it became present, and all that were ever handed out. -/
structure Census where
  cache : Cache
  present : Key → Bool
  handles : Key → List Nat
  issued : Key → List Nat

namespace Census

/-- Before anything was asked for, the keys of the stored rows are present. -/
def start (p : Deposit) (c : Cache) : Census where
  cache := c
  present key := ((c.storage.rows p.table).get? key.text).isSome
  handles _ := []
  issued _ := []

/-- The census after a request. -/
def step (p : Deposit) (n : Census) (r : Request) : Census where
  cache := n.cache.serve r
  present key := !r.removes p n.cache (n.handles key) && (n.present key || r.creates p n.cache key)
  handles key :=
    if r.removes p n.cache (n.handles key) then [] else n.handles key ++ r.hands p n.cache key
  issued key := n.issued key ++ r.hands p n.cache key

end Census

/-- What may be asked for: creations with proper data and keys in use, edits that leave keys
as they are, and saves of instances that were handed out.  Nothing expires. -/
def Deposit.Admits (p : Deposit) (n : Census) : Request → Prop
  | .act (.create model data _) => model = p.model →
      p.type.Holds data ∧ p.inUse (p.type.keyOf data)
  | .act (.get model key) => model = p.model → p.inUse key
  | .getMulti model keys => model = p.model → ∀ key ∈ keys, p.inUse key
  | .act (.edit id e) => ∀ i, n.cache.instances[id]? = some i → i.record.type = p.type →
      p.type.Holds (i.record.edit e).data ∧ (i.record.edit e).key = i.record.key
  | .act (.save model id) | .act (.sync model id) =>
      ∀ i, n.cache.instances[id]? = some i → i.record.type = model.record ∧
        (model = p.model → id ∈ n.issued i.record.key)
  | .expire _ _ => False
  | .find _ _ | .act .syncAll | .act (.deliver _ _ _) | .act .stop => True

/-- The course of a cache since its start. -/
inductive Course (p : Deposit) (c : Cache) : Census → Prop where
  | start : Course p c (.start p c)
  | step {n : Census} {r : Request} (h : Course p c n) (hr : p.Admits n r) :
      Course p c (n.step p r)

/-! ## Sources and their census -/

namespace Scope

/-- The slots of a source go with the census. -/
structure Tallied (p : Deposit) (ht : p.table ≠ .none → p.type.Files p.inUse) (before : Storage)
    (n : Census) (s : Scope) : Prop where
  seated : s.Seated p ht before
  tallies : ∀ key, p.inUse key → Tally ((before.rows p.table).get? key.text).isSome
    (s.source.repo.get key) (n.present key) (n.handles key) (n.issued key)

section Tallied

variable {p : Deposit} {ht : p.table ≠ .none → p.type.Files p.inUse} {before : Storage}
  {n n' : Census} {s s' : Scope} {key : Key} {id : Nat} {ids : List Nat}

theorem Tallied.ignores : Ignores p (Tallied p ht before n) := by
  intro s instances storage h hcontent hsame
  exact ⟨Seated.ignores s instances storage h.seated hcontent hsame, h.tallies⟩

theorem Tallied.model (h : s.Tallied p ht before n) : s.source.info.model = p.model :=
  h.seated.model

/-- A key that a source shows is present. -/
theorem Tallied.shows (h : s.Tallied p ht before n) (hused : p.inUse key) :
    s.Shows p before key = n.present key := by
  have htally := h.tallies key hused
  cases hget : s.source.repo.get key with
  | none =>
      rw [Shows, hget]
      exact (htally.untouched hget).1.symm
  | some slot =>
      cases slot with
      | missing =>
          rw [Shows, hget]
          exact (htally.missing hget).symm
      | live id =>
          rw [Shows, hget]
          exact (htally.live id hget).1.symm

/-- A step that the census does not notice and that leaves the slots alone. -/
theorem Tallied.of_slots (h : s.Tallied p ht before n) (hseated : s'.Seated p ht before)
    (hrepo : s'.source.repo = s.source.repo) : s'.Tallied p ht before n :=
  ⟨hseated, fun key hused => by rw [hrepo]; exact h.tallies key hused⟩

/-- The census after a request that neither creates nor removes anything and hands out
nothing. -/
theorem Tallied.unnoticed {r : Request} (h : s.Tallied p ht before n)
    (hhands : ∀ key, r.hands p n.cache key = []) (hcreates : ∀ key, r.creates p n.cache key = false)
    (hremoves : ∀ key, r.removes p n.cache (n.handles key) = false) :
    s.Tallied p ht before (n.step p r) := by
  refine ⟨h.seated, fun key hused => ?_⟩
  simp only [Census.step, hhands, hcreates, hremoves, Bool.not_false, Bool.true_and,
    Bool.or_false, Bool.false_eq_true, if_false, List.append_nil]
  exact h.tallies key hused

/-- How a fetch fills the slot of a key, which may be handed out. -/
theorem Tallied.tally_fetch (h : s.Tallied p ht before n) (hfetched : Fetched p s s' ids)
    (hused : p.inUse key) {more : List Nat}
    (hmore : ∀ id ∈ more, s'.source.repo.get key = some (.live id)) :
    Tally ((before.rows p.table).get? key.text).isSome (s'.source.repo.get key) (n.present key)
      (n.handles key ++ more) (n.issued key ++ more) := by
  refine (h.tallies key hused).fetch (hfetched.kept key) (fun hget => ?_) hmore
  have hrow := h.seated.shelves.row_same ⟨hused, hget⟩
  rcases hfetched.fresh key hused hget with hnone | ⟨hmissing, habsent⟩ | ⟨id, hlive, hstored⟩
  · exact .inl hnone
  · rw [hrow] at habsent
    exact .inr (.inl ⟨hmissing, by rw [habsent]; rfl⟩)
  · rw [hrow] at hstored
    exact .inr (.inr ⟨id, hlive, hstored⟩)

/-- The census after a fetch, which hands out live instances. -/
theorem Tallied.fetch {r : Request} (h : s.Tallied p ht before n)
    (hseated : s'.Seated p ht before) (hfetched : Fetched p s s' ids)
    (hhands : ∀ key, p.inUse key → ∀ id ∈ r.hands p n.cache key,
      s'.source.repo.get key = some (.live id))
    (hcreates : ∀ key, r.creates p n.cache key = false)
    (hremoves : ∀ key, r.removes p n.cache (n.handles key) = false) :
    s'.Tallied p ht before (n.step p r) := by
  refine ⟨hseated, fun key hused => ?_⟩
  simp only [Census.step, hcreates, hremoves, Bool.not_false, Bool.true_and,
    Bool.or_false, Bool.false_eq_true, if_false]
  exact h.tally_fetch hfetched hused (hhands key hused)

/-- The census after a save: an instance that is gone is removed if it is the live one of
its key. -/
theorem Tallied.save {r : Request} {i : Instance} (h : s.Tallied p ht before n)
    (hi : s.instances[id]? = some i) (htype : i.record.type = p.type)
    (hissued : id ∈ n.issued i.record.key) (hseated : s'.Seated p ht before)
    (hrepo : s'.source.repo = (s.save id).2.source.repo)
    (hhands : ∀ key, r.hands p n.cache key = []) (hcreates : ∀ key, r.creates p n.cache key = false)
    (hremoves : ∀ key, r.removes p n.cache (n.handles key) =
      (decide (id ∈ n.handles key) && i.record.lifecycle.isGone)) :
    s'.Tallied p ht before (n.step p r) := by
  obtain ⟨-, -, hslot⟩ := h.seated.save hi htype
  refine ⟨hseated, fun key hused => ?_⟩
  have htally := h.tallies key hused
  have hiff : s.source.repo.get i.record.key = some (.live id) ∧ i.record.key = key ↔
      id ∈ n.handles key := by
    constructor
    · rintro ⟨hlive, rfl⟩
      exact (htally.live id hlive).2 hissued
    · intro hid
      have hlive := htally.single id hid
      obtain ⟨i', hi', -, hkey⟩ := h.seated.roster.live key id hused hlive
      rw [hi, Option.some.injEq] at hi'
      rw [hi', hkey]
      exact ⟨hlive, rfl⟩
  rw [hrepo, hslot]
  simp only [Census.step, hhands, hcreates, hremoves, hiff, Bool.or_false, List.append_nil]
  by_cases hremoved : i.record.lifecycle.isGone = true ∧ id ∈ n.handles key
  · rw [if_pos hremoved]
    simpa [hremoved.1, hremoved.2] using Tally.remove _ (n.issued key)
  · have hstays : (decide (id ∈ n.handles key) && i.record.lifecycle.isGone) = false := by
      rw [Bool.and_comm]
      simpa using hremoved
    rw [if_neg hremoved, hstays]
    simpa using htally

end Tallied

end Scope

/-! ## Requests -/

namespace Census

variable {p : Deposit} {ht : p.table ≠ .none → p.type.Files p.inUse} {before : Storage}
  {n : Census}

/-- The source of the records is there and its slots go with the census. -/
abbrev Fits (p : Deposit) (ht : p.table ≠ .none → p.type.Files p.inUse) (before : Storage)
    (n : Census) : Prop :=
  n.cache.Hosts p (Scope.Tallied p ht before n)

/-- A request for another model. -/
theorem Fits.within_other {α : Type} (h : n.Fits p ht before) {r : Request} {model : Model}
    (hne : model ≠ p.model) (op : Scope → Except Error α × Scope)
    (hserve : n.cache.serve r = (n.cache.within model model.record.ns op).2)
    (haside : ∀ s : Scope, s.source.table ≠ p.table ∨ p.table = .none →
      model.record ≠ p.type → s.type = model.record → s.instances = n.cache.instances →
        Scope.Aside p.type p.table s (op s).2)
    (hhands : ∀ key, r.hands p n.cache key = []) (hcreates : ∀ key, r.creates p n.cache key = false)
    (hremoves : ∀ key, r.removes p n.cache (n.handles key) = false) :
    (n.step p r).Fits p ht before := by
  have hother := Cache.Hosts.within_other h Scope.Tallied.ignores
    (fun _ hs => hs.model) hne op fun s hapart hne htype hinstances _ =>
      haside s hapart hne htype hinstances
  have hstep : (n.step p r).cache = (n.cache.within model model.record.ns op).2 := hserve
  rw [Fits, hstep]
  exact hother.mono fun s hs => hs.unnoticed hhands hcreates hremoves

/-- A request for the records goes to their source. -/
theorem Fits.within_own {α : Type} (h : n.Fits p ht before) {r : Request}
    (op : Scope → Except Error α × Scope)
    (hserve : n.cache.serve r = (n.cache.within p.model p.ns op).2)
    (hop : ∀ s : Scope, s.Tallied p ht before n → s.instances = n.cache.instances →
      (∀ {β : Type} (op' : Scope → Except Error β × Scope),
        (n.cache.within p.model p.ns op').1.toOption = (op' s).1.toOption) →
      (n.cache.within p.model p.ns op).2.instances = (op s).2.instances →
        (op s).2.Tallied p ht before (n.step p r)) :
    (n.step p r).Fits p ht before := by
  obtain ⟨own, -, hown, hwithin⟩ := Cache.Hosts.within_own h fun _ hs => hs.model
  have hstep : (n.step p r).cache = n.cache.adopt p.ns (op (n.cache.scope own)).2 :=
    hserve.trans (congrArg Prod.snd (hwithin op))
  rw [Fits, hstep]
  refine h.adopt_own (hop _ hown rfl (fun op' => ?_) ?_)
  · exact (congrArg (fun x => x.1.toOption) (hwithin op')).trans (toOption_mapError _ _)
  · exact congrArg (fun x => x.2.instances) (hwithin op)

theorem Fits.create (h : n.Fits p ht before) {model : Model} {data : Json} {tmp : Bool}
    (hr : p.Admits n (.act (.create model data tmp))) :
    (n.step p (.act (.create model data tmp))).Fits p ht before := by
  by_cases hmodel : model = p.model
  · subst hmodel
    obtain ⟨hdata, hused⟩ := hr rfl
    refine h.within_own (·.create data { tmp }) rfl fun s hs _ hresult _ => ?_
    have hhands : ∀ key, Request.hands p n.cache key (.act (.create p.model data tmp)) =
        if p.type.keyOf data = key then (s.create data { tmp }).1.toOption.toList else [] := by
      intro key
      simp only [Request.hands, true_and, Cache.create]
      rw [← hresult (·.create data { tmp })]
      rfl
    have hcreates : ∀ key, Request.creates p n.cache key (.act (.create p.model data tmp)) =
        (decide (p.type.keyOf data = key) && (s.create data { tmp }).1.toOption.isSome) := by
      intro key
      simp only [Request.creates, true_and, Cache.create]
      rw [← hresult (·.create data { tmp })]
      rfl
    obtain ⟨hseated, ⟨hfailed, hfetched⟩ | ⟨id, s', hok, hfetched, hfree, hslot⟩⟩ :=
      hs.seated.create hdata hused tmp
    · rw [hfailed] at hhands hcreates
      refine hs.fetch hseated hfetched ?_ ?_ fun _ => rfl
      · intro key _ id hid
        rw [hhands, Option.toList_none, ite_self] at hid
        cases hid
      · intro key
        rw [hcreates, Option.isSome_none, Bool.and_false]
    · rw [hok] at hhands hcreates
      refine ⟨hseated, fun key hkey => ?_⟩
      have htally := hs.tally_fetch hfetched hkey
        fun id (hno : id ∈ ([] : List Nat)) => by cases hno
      have hremoves : Request.removes p n.cache (n.handles key) (.act (.create p.model data tmp)) =
        false := rfl
      rw [List.append_nil, List.append_nil] at htally
      simp only [Census.step, hhands, hcreates, hslot, hremoves]
      by_cases hthis : p.type.keyOf data = key
      · subst hthis
        simpa [Except.toOption] using htally.create hfree id
      · simpa [hthis] using htally
  · refine h.within_other hmodel (·.create data { tmp }) rfl ?_ ?_ ?_ fun _ => rfl
    · intro s _ hne htype _
      exact Scope.aside_create p.table s (htype ▸ hne) data { tmp }
    · intro key
      simp [Request.hands, hmodel]
    · intro key
      simp [Request.creates, hmodel]

theorem Fits.get (h : n.Fits p ht before) {model : Model} {key : Key}
    (hr : p.Admits n (.act (.get model key))) :
    (n.step p (.act (.get model key))).Fits p ht before := by
  by_cases hmodel : model = p.model
  · subst hmodel
    refine h.within_own (·.get key) rfl fun s hs _ hresult _ => ?_
    obtain ⟨hseated, hfetched⟩ := hs.seated.get (hr rfl)
    refine hs.fetch hseated hfetched ?_ (fun _ => rfl) fun _ => rfl
    intro key' _ id hid
    simp only [Request.hands, true_and, Cache.get] at hid
    split at hid
    next hkey =>
      subst hkey
      replace hid : id ∈ (s.get key).1.toOption.join.toList := by
        rw [← hresult (·.get key)]
        exact hid
      refine Scope.live_of_get_some ?_
      cases hget : (s.get key).1 with
      | error e => simp [hget, Except.toOption] at hid
      | ok found =>
          obtain rfl : found = some id := by simpa [hget, Except.toOption] using hid
          rfl
    · cases hid
  · refine h.within_other hmodel (·.get key) rfl ?_ ?_ (fun _ => rfl) fun _ => rfl
    · intro s _ hne htype _
      exact Scope.aside_get p.table s (htype ▸ hne) key
    · intro key'
      simp [Request.hands, hmodel]

theorem Fits.getMulti (h : n.Fits p ht before) {model : Model} {keys : List Key}
    (hr : p.Admits n (.getMulti model keys)) :
    (n.step p (.getMulti model keys)).Fits p ht before := by
  by_cases hmodel : model = p.model
  · subst hmodel
    refine h.within_own (·.getMulti keys) rfl fun s hs _ hresult hinstances => ?_
    obtain ⟨hseated, hfetched⟩ := hs.seated.getMulti (hr rfl)
    refine hs.fetch hseated hfetched ?_ (fun _ => rfl) fun _ => rfl
    intro key _ id hid
    simp only [Request.hands, if_true, Cache.getMulti] at hid
    rw [← hresult (·.getMulti keys)] at hfetched
    exact hseated.roster.live_of_ofKey hinstances hfetched.handed hid
  · refine h.within_other hmodel (·.getMulti keys) rfl ?_ ?_ (fun _ => rfl) fun _ => rfl
    · intro s _ hne htype _
      exact Scope.aside_getMulti p.table s (htype ▸ hne) keys
    · intro key
      simp [Request.hands, hmodel]

theorem Fits.find (h : n.Fits p ht before) (model : Model) (filter : Document) :
    (n.step p (.find model filter)).Fits p ht before := by
  by_cases hmodel : model = p.model
  · subst hmodel
    refine h.within_own (·.find filter) rfl fun s hs _ hresult hinstances => ?_
    obtain ⟨hseated, hfetched⟩ := hs.seated.find filter
    refine hs.fetch hseated hfetched ?_ (fun _ => rfl) fun _ => rfl
    intro key _ id hid
    simp only [Request.hands, if_true, Cache.find] at hid
    rw [← hresult (·.find filter)] at hfetched
    exact hseated.roster.live_of_ofKey hinstances hfetched.handed hid
  · refine h.within_other hmodel (·.find filter) rfl ?_ ?_ (fun _ => rfl) fun _ => rfl
    · intro s _ hne htype _
      exact Scope.aside_find p.table s (htype ▸ hne) filter
    · intro key
      simp [Request.hands, hmodel]

theorem Fits.edit (h : n.Fits p ht before) {id : Nat} {e : Edit}
    (hr : p.Admits n (.act (.edit id e))) :
    (n.step p (.act (.edit id e))).Fits p ht before := by
  have hedit : (n.cache.edit id e).Hosts p (Scope.Tallied p ht before n) := by
    refine Cache.Hosts.edit h Scope.Tallied.ignores fun s i hs hinstances hi htype => ?_
    obtain ⟨hholds, hkey⟩ := hr i hi htype
    exact hs.of_slots (hs.seated.edit (hinstances ▸ hi) htype e hholds hkey) rfl
  exact hedit.mono fun s hs => hs.unnoticed (fun _ => rfl) (fun _ => rfl) fun _ => rfl

/-- The saver alone is at work. -/
theorem Fits.deliver (h : n.Fits p ht before) (ns : String) (k : Nat) (a : DeliveryStep) :
    (n.step p (.act (.deliver ns k a))).Fits p ht before := by
  have hdeliver := Cache.Hosts.deliver h Scope.Tallied.ignores
    (fun s k a hs => hs.of_slots (hs.seated.deliver k a) (Scope.repo_stepSaver s _)) ns k a
  exact hdeliver.mono fun s hs => hs.unnoticed (fun _ => rfl) (fun _ => rfl) fun _ => rfl

theorem Fits.syncAll (h : n.Fits p ht before) :
    (n.step p (.act .syncAll)).Fits p ht before := by
  have hsync := Cache.Hosts.syncNamespaces h Scope.Tallied.ignores
    (fun s hs => hs.of_slots hs.seated.syncAll (Scope.repo_syncAll s)) n.cache.namespaces
  exact hsync.mono fun s hs => hs.unnoticed (fun _ => rfl) (fun _ => rfl) fun _ => rfl

theorem Fits.stop (h : n.Fits p ht before) : (n.step p (.act .stop)).Fits p ht before := by
  have hstop := Cache.Hosts.stop h Scope.Tallied.ignores
    fun s hs => hs.of_slots hs.seated.close (Scope.repo_stepSaver s _)
  exact hstop.mono fun s hs => hs.unnoticed (fun _ => rfl) (fun _ => rfl) fun _ => rfl

theorem Fits.save (h : n.Fits p ht before) {model : Model} {id : Nat} {r : Request}
    (hr : r = .act (.save model id) ∨ r = .act (.sync model id)) (hadmits : p.Admits n r) :
    (n.step p r).Fits p ht before := by
  have hissued : ∀ i, n.cache.instances[id]? = some i → i.record.type = model.record ∧
      (model = p.model → id ∈ n.issued i.record.key) := by
    rcases hr with rfl | rfl
    · exact hadmits
    · exact hadmits
  have hhands : ∀ key, r.hands p n.cache key = [] := by
    rcases hr with rfl | rfl
    · exact fun _ => rfl
    · exact fun _ => rfl
  have hcreates : ∀ key, r.creates p n.cache key = false := by
    rcases hr with rfl | rfl
    · exact fun _ => rfl
    · exact fun _ => rfl
  have hremoves : ∀ handles, r.removes p n.cache handles =
      (decide (model = p.model ∧ id ∈ handles) && (n.cache.save model id).1.toOption.isSome &&
        (n.cache.instances[id]?).any (·.record.lifecycle.isGone)) := by
    rcases hr with rfl | rfl
    · exact fun _ => rfl
    · exact fun _ => rfl
  by_cases hmodel : model = p.model
  · subst hmodel
    -- An instance that is not there is neither saved nor removed.
    have hown : ∀ s : Scope, s.Tallied p ht before n → s.instances = n.cache.instances →
        (n.cache.save p.model id).1.toOption = (s.save id).1.toOption → ∀ s' : Scope,
        ((s.instances[id]? = none → s' = s) ∧
          ∀ i, s.instances[id]? = some i → i.record.type = p.type →
            s'.Seated p ht before ∧ s'.source.repo = (s.save id).2.source.repo) →
        s'.Tallied p ht before (n.step p r) := by
      intro s hs hinstances hresult s' hs'
      rw [← hinstances] at hissued hremoves
      cases hi : s.instances[id]? with
      | none =>
          rw [hs'.1 hi]
          refine hs.unnoticed hhands hcreates fun key => ?_
          rw [hremoves, hi, Option.any_none, Bool.and_false]
      | some i =>
          obtain ⟨htype, hmine⟩ := hissued i hi
          obtain ⟨hseated, hrepo⟩ := hs'.2 i hi htype
          refine hs.save hi htype (hmine rfl) hseated hrepo hhands hcreates fun key => ?_
          rw [hremoves, hresult, (hs.seated.save hi htype).2.1, hi]
          simp [Except.toOption]
    rcases hr with rfl | rfl
    · refine h.within_own (·.save id) rfl fun s hs hinstances hresult _ => ?_
      refine hown s hs hinstances (hresult (·.save id)) _ ⟨fun hi => by simp [Scope.save, hi], ?_⟩
      intro i hi htype
      exact ⟨(hs.seated.save hi htype).1, rfl⟩
    · refine h.within_own (·.sync id) rfl fun s hs hinstances hresult _ => ?_
      refine hown s hs hinstances (hresult (·.save id)) _ ⟨fun hi => ?_, ?_⟩
      · have hsave : s.save id = (.ok false, s) := by simp [Scope.save, hi]
        cases hsaver : s.source.saver <;> simp [Scope.sync, hsave, hsaver, hi]
      · intro i hi htype
        exact hs.seated.sync hi htype
  · have hidle : ∀ key, r.removes p n.cache (n.handles key) = false := by
      intro key
      rw [hremoves]
      simp [hmodel]
    have hother : ∀ s : Scope, s.instances = n.cache.instances → model.record ≠ p.type →
        ∀ i, s.instances[id]? = some i → i.record.type ≠ p.type := by
      intro s hinstances hne i hi
      rw [hinstances] at hi
      rw [(hissued i hi).1]
      exact hne
    rcases hr with rfl | rfl
    · refine h.within_other hmodel (·.save id) rfl ?_ hhands hcreates hidle
      intro s hapart hne _ hinstances
      exact .of_apart hapart fun _ htable => Scope.aside_save htable (hother s hinstances hne)
    · refine h.within_other hmodel (·.sync id) rfl ?_ hhands hcreates hidle
      intro s hapart hne _ hinstances
      exact .of_apart hapart fun _ htable => Scope.aside_sync htable (hother s hinstances hne)

theorem Fits.step (h : n.Fits p ht before) {r : Request} (hr : p.Admits n r) :
    (n.step p r).Fits p ht before := by
  cases r with
  | getMulti model keys => exact h.getMulti hr
  | find model filter => exact h.find model filter
  | expire model key => exact hr.elim
  | act a =>
      cases a with
      | create model data tmp => exact h.create hr
      | get model key => exact h.get hr
      | edit id e => exact h.edit hr
      | save model id => exact h.save (.inl rfl) hr
      | sync model id => exact h.save (.inr rfl) hr
      | syncAll => exact h.syncAll
      | deliver ns k a => exact h.deliver ns k a
      | stop => exact h.stop

end Census

/-! ## Courses -/

section Courses

variable {p : Deposit} {c : Cache} {n : Census}

theorem Start.fits (h : Start p c) (ht : p.table ≠ .none → p.type.Files p.inUse)
    (hkeeps : p.model.volatile = false) : (Census.start p c).Fits p ht c.storage := by
  obtain ⟨source, hfound, hvolatile, hempty, hshelves⟩ := h.source
  have hslots : ∀ key, ((Census.start p c).cache.scope source).source.repo.get key = none := hempty
  refine ⟨⟨source, hfound, ⟨.of_fresh h.fresh hempty, hvolatile.trans hkeeps, ?_, ?_⟩, ?_⟩, h.apart⟩
  · exact Scope.Shelves.mono (hshelves ht) fun key hkey => hkey.1
  · intro id i hi
    have hfresh : ((Census.start p c).cache.scope source).instances = [] := h.fresh
    rw [hfresh] at hi
    cases hi
  · intro key _
    rw [hslots key]
    exact Tally.start _

theorem Course.fits (ht : p.table ≠ .none → p.type.Files p.inUse)
    (hkeeps : p.model.volatile = false) (hstart : Start p c) (h : Course p c n) :
    n.Fits p ht c.storage := by
  induction h with
  | start => exact hstart.fits ht hkeeps
  | step _ hr ih => exact ih.step hr

/-- The cache answers as the census says.  A fetch finds exactly the keys that are present; a
creation succeeds exactly for the keys that are not, and is otherwise told that there is a
duplicate; and all handles of a key that were handed out since it became present are its one
instance. -/
theorem Course.refines (ht : p.table ≠ .none → p.type.Files p.inUse)
    (hkeeps : p.model.volatile = false) (hstart : Start p c) (h : Course p c n) {key : Key}
    (hused : p.inUse key) :
    (∀ found, (n.cache.get p.model key).1 = .ok found → found.isSome = n.present key) ∧
    (n.cache.storage.Answers p.table →
      (∃ found, (n.cache.get p.model key).1 = .ok found) ∧
      ∀ data tmp, p.type.Holds data → p.type.keyOf data = key →
        (n.present key = false → ∃ id,
          (n.cache.create p.model p.ns data { tmp }).1 = .ok id) ∧
        (n.present key = true →
          (n.cache.create p.model p.ns data { tmp }).1 =
            .error (.error (.duplicate p.ns key.text)))) ∧
    (∀ id ∈ n.handles key, n.present key = true ∧ (∀ id' ∈ n.handles key, id' = id) ∧
      ∃ i, n.cache.instances[id]? = some i ∧ i.record.type = p.type ∧ i.record.key = key) := by
  have hfits := h.fits ht hkeeps hstart
  have hreads : p.Reads c.storage key := hstart.reads key
  obtain ⟨own, -, hown, hwithin⟩ := Cache.Hosts.within_own hfits fun _ hs => hs.model
  have hget : (n.cache.get p.model key).1 = ((n.cache.scope own).get key).1.mapError .error :=
    congrArg Prod.fst (hwithin (·.get key))
  have hanswer := hown.seated.get_answer hused hreads
  rw [hown.shows hused] at hanswer
  refine ⟨?_, fun hanswers => ⟨?_, ?_⟩, ?_⟩
  · intro found hfound
    rw [hget] at hfound
    rcases hanswer with ⟨e, herror, -⟩ | ⟨found', hok, hshown⟩
    · rw [herror] at hfound
      cases hfound
    · rw [hok] at hfound
      obtain rfl : found' = found := by simpa [Except.mapError] using hfound
      exact hshown
  · rcases hanswer with ⟨e, -, hno⟩ | ⟨found, hok, -⟩
    · exact absurd hanswers hno
    · exact ⟨found, by rw [hget, hok]; rfl⟩
  · rintro data tmp hdata rfl
    have hcreate : (n.cache.create p.model p.ns data { tmp }).1 =
        ((n.cache.scope own).create data { tmp }).1.mapError .error :=
      congrArg Prod.fst (hwithin (·.create data { tmp }))
    have hcreated := hown.seated.create_answer tmp hused hreads
    rw [hown.shows hused] at hcreated
    rw [hcreate]
    rcases hcreated with ⟨e, -, hno⟩ | ⟨habsent, id, hok⟩ | ⟨hpresent, herror⟩
    · exact absurd hanswers hno
    · rw [habsent, hok]
      exact ⟨fun _ => ⟨id, rfl⟩, fun hno => by cases hno⟩
    · rw [hpresent, herror]
      exact ⟨(fun hno => by cases hno), fun _ => rfl⟩
  · intro id hid
    have htally := hown.tallies key hused
    have hlive := htally.single id hid
    obtain ⟨i, hi, hcounts, hkey⟩ := hown.seated.roster.live key id hused hlive
    refine ⟨(htally.live id hlive).1, fun id' hid' => ?_, i, hi, hcounts.type, hkey⟩
    have hlive' := htally.single id' hid'
    rw [hlive] at hlive'
    simpa using hlive'.symm

end Courses

namespace Sample

/-- A hero that was saved, deleted, saved again and replaced by another one before anything
was flushed. -/
def heroReplaced : Census :=
  [Request.act (.create hero (heroOf 7 3) false), .act (.save hero 0), .act (.edit 0 .delete),
    .act (.save hero 0), .act (.create hero (heroOf 7 1) false)].foldl (Census.step heroes)
      (.start heroes heroCache)

theorem start_heroCache : Start heroes heroCache := by
  have hopen := opening_heroCache
  obtain ⟨plan, tables, source, hstart, hmodel, -, htable, hfound⟩ := hopen.started
  refine ⟨⟨false, plan, tables, source, hstart, hmodel, htable, hfound⟩, ?_, rfl,
    fun _ => hopen.ready, ?_⟩
  · exact fun ns source hns hget => .inl (hopen.apart ns source hns hget)
  · intro text row hrow
    cases hrow

/-- Saves of heroes that were handed out are admitted. -/
theorem admits_save {n : Census} {id : Nat} (h : (n.cache.instances[id]?).all (fun i =>
    decide (i.record.type = hero.record) && decide (id ∈ n.issued i.record.key)) = true) :
    heroes.Admits n (.act (.save hero id)) := by
  intro i hi
  rw [hi, Option.all_some, Bool.and_eq_true, decide_eq_true_eq, decide_eq_true_eq] at h
  exact ⟨h.1, fun _ => h.2⟩

/-- A deletion leaves the data as they are. -/
theorem admits_delete {n : Census} (h : Course heroes heroCache n) (id : Nat) :
    heroes.Admits n (.act (.edit id .delete)) := by
  obtain ⟨own, -, hown⟩ := (h.fits (fun _ => stores_heroes.files) rfl start_heroCache).found
  intro i hi htype
  exact ⟨(hown.seated.roster.members id i hi (hown.seated.counts hi htype)).holds, rfl⟩

theorem course_heroReplaced : Course heroes heroCache heroReplaced := by
  have hcreate : ∀ (n : Census) (level : Int), 0 ≤ level → level ≤ 9 →
      heroes.Admits n (.act (.create hero (heroOf 7 level) false)) :=
    fun n level hlow hhigh _ =>
      ⟨holds_heroOf (by omega) (by omega), RecordType.single_keyOf rfl _⟩
  have hcreated := Course.step .start (hcreate (.start heroes heroCache) 3 (by omega) (by omega))
  have hsaved := hcreated.step (r := .act (.save hero 0)) (admits_save (by decide +kernel))
  have hdeleted := hsaved.step (admits_delete hsaved 0)
  have hremoved := hdeleted.step (r := .act (.save hero 0)) (admits_save (by decide +kernel))
  exact hremoved.step (hcreate _ 1 (by omega) (by omega))

/-- The new hero is found, and it is the one that was created last. -/
theorem refines_heroReplaced :
    heroReplaced.handles heroKey = [1] ∧
      ∀ found, (heroReplaced.cache.get hero heroKey).1 = .ok found → found.isSome = true := by
  have hused : heroes.inUse heroKey := ⟨rfl, rfl⟩
  have hrefines := Course.refines (fun _ => stores_heroes.files) rfl start_heroCache
    course_heroReplaced hused
  have hpresent : heroReplaced.present heroKey = true := by decide +kernel
  rw [hpresent] at hrefines
  exact ⟨by decide +kernel, hrefines.1⟩

end Sample

end WriteBehind
