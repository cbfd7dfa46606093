import WriteBehind.Cache
import WriteBehind.Proofs.OtherSources

/-!
# Upkeep of a source by the cache

The cache applies each operation to the one source that it is about.  If that is the
source of the records, the operation keeps it; if it is another one, it leaves the
records and their table alone.
-/

namespace WriteBehind

/-- The namespace of the records. -/
def Deposit.ns (p : Deposit) : String := p.model.record.ns

namespace Cache

/-- The cache keeps the records in their table, which no other source shares. -/
structure Keeps (p : Deposit) (stopped : Bool) (kept : Nat → Json) (c : Cache) : Prop where
  found : ∃ source, c.sources.get? p.ns = some source ∧ (c.scope source).Kept p stopped kept
  apart : ∀ ns source, ns ≠ p.ns → c.sources.get? ns = some source → source.table ≠ p.table

/-- Nothing is pending in the saver of a namespace. -/
def Quiet (c : Cache) (ns : String) : Prop :=
  ∀ source, c.sources.get? ns = some source → (c.scope source).Quiet

/-- No worker of a namespace has a batch in its hands while more is pending. -/
def Idle (c : Cache) (ns : String) : Prop :=
  ∀ source, c.sources.get? ns = some source →
    ∀ w ∈ (c.scope source).ledger.workers, w.consumer = .waiting ∨ w.pending = []

section Keeps

variable {p : Deposit} {stopped : Bool} {kept : Nat → Json} {c : Cache} {ns : String}
  {source : Source} {s : Scope}

/-! ## One source -/

theorem get?_adopt_self (c : Cache) (ns : String) (s : Scope) :
    (c.adopt ns s).sources.get? ns = some s.source := by
  rw [adopt, SortedMap.get?_insert, if_pos rfl]

theorem get?_adopt_of_ne (c : Cache) (s : Scope) {ns ns' : String} (h : ns ≠ ns') :
    (c.adopt ns s).sources.get? ns' = c.sources.get? ns' := by
  rw [adopt, SortedMap.get?_insert, if_neg h]

/-- An operation on a source: the source of the records, or another one. -/
theorem Keeps.adopt (h : c.Keeps p stopped kept) (hget : c.sources.get? ns = some source)
    (hown : ns = p.ns → (c.scope source).Kept p stopped kept →
      s.Kept p stopped (settle kept c.instances s.instances))
    (hother : ns ≠ p.ns → source.table ≠ p.table →
      Scope.Aside p.type p.table (c.scope source) s) :
    (c.adopt ns s).Keeps p stopped (settle kept c.instances s.instances) := by
  obtain ⟨own, hfound, hkept⟩ := h.found
  by_cases hns : ns = p.ns
  · subst hns
    rw [hfound, Option.some.injEq] at hget
    subst hget
    refine ⟨⟨s.source, get?_adopt_self c p.ns s, hown rfl hkept⟩, ?_⟩
    intro ns' source' hne hget'
    rw [get?_adopt_of_ne c s (Ne.symm hne)] at hget'
    exact h.apart ns' source' hne hget'
  -- Another source: the frame lemmas keep the table and the instances of the records.
  · have htable := h.apart ns source hns hget
    have haside := hother hns htable
    refine ⟨⟨own, ?_, ?_⟩, ?_⟩
    · rw [get?_adopt_of_ne c s hns]
      exact hfound
    · exact hkept.aside haside.content haside.instances
    · intro ns' source' hne hget'
      by_cases hns' : ns = ns'
      · subst hns'
        rw [get?_adopt_self, Option.some.injEq] at hget'
        rw [← hget', haside.source]
        exact htable
      · rw [get?_adopt_of_ne c s hns'] at hget'
        exact h.apart ns' source' hne hget'

theorem quiet_adopt {c : Cache} {ns : String} {source : Source} {s : Scope} (p : Deposit)
    (hget : c.sources.get? ns = some source)
    (hown : ns = p.ns → (c.scope source).Quiet → s.Quiet) (h : c.Quiet p.ns) :
    (c.adopt ns s).Quiet p.ns := by
  intro source' hget'
  by_cases hns : ns = p.ns
  · subst hns
    rw [get?_adopt_self, Option.some.injEq] at hget'
    subst hget'
    exact hown rfl (h source hget)
  · rw [get?_adopt_of_ne c s hns] at hget'
    exact h source' hget'

theorem quiet_adopt_self {c : Cache} {ns : String} {s : Scope} (hs : s.Quiet) :
    (c.adopt ns s).Quiet ns := by
  intro source hget
  rw [get?_adopt_self, Option.some.injEq] at hget
  subst hget
  exact hs

theorem source_eq_ok {model : Model} (h : c.source model ns = .ok source) :
    c.sources.get? ns = some source ∧ source.info.model = model := by
  rw [Cache.source] at h
  split at h
  · cases h
  next found hget =>
    split at h
    next hmodel =>
      cases h
      exact ⟨hget, hmodel⟩
    · cases h

/-- An operation that is asked for by model. -/
theorem Keeps.within {α : Type} (h : c.Keeps p stopped kept) (model : Model)
    (op : Scope → Except Error α × Scope)
    (hown : ∀ own, c.sources.get? p.ns = some own → model = p.model →
      (c.scope own).Kept p stopped kept →
        (op (c.scope own)).2.Kept p stopped
          (settle kept c.instances (op (c.scope own)).2.instances))
    (hother : ∀ other, other.table ≠ p.table → model.record ≠ p.type →
      (c.scope other).type = model.record →
        Scope.Aside p.type p.table (c.scope other) (op (c.scope other)).2) :
    (c.within model model.record.ns op).2.Keeps p stopped
      (settle kept c.instances (c.within model model.record.ns op).2.instances) := by
  cases hsource : c.source model model.record.ns with
  | error e =>
      simp only [Cache.within, hsource]
      rw [settle_self]
      exact h
  | ok source =>
      obtain ⟨hget, hmodel⟩ := source_eq_ok hsource
      simp only [Cache.within, hsource]
      refine h.adopt hget ?_ ?_
      · intro hns hkept
        have hget' : c.sources.get? p.ns = some source := by
          rw [← hns]
          exact hget
        exact hown source hget' (hmodel.symm.trans hkept.model) hkept
      · intro hns htable
        refine hother source htable ?_ (congrArg Model.record hmodel)
        intro heq
        exact hns (congrArg RecordType.ns heq)

theorem stopped_within {α : Type} (c : Cache) (model : Model) (ns : String)
    (op : Scope → Except Error α × Scope) : (c.within model ns op).2.stopped = c.stopped := by
  rw [Cache.within]
  split
  · rfl
  · rfl

/-! ## Records -/

theorem Keeps.create (h : c.Keeps p stopped kept) (hp : p.type.Stores p.inUse) {model : Model}
    {data : Json} (tmp : Bool)
    (hdata : model.record = p.type → p.type.Holds data ∧ p.inUse (p.type.keyOf data)) :
    (c.create model model.record.ns data { tmp }).2.Keeps p stopped
      (settle kept c.instances (c.create model model.record.ns data { tmp }).2.instances) := by
  refine h.within model (·.create data { tmp }) ?_ ?_
  · intro own _ hmodel hkept
    obtain ⟨hholds, hused⟩ := hdata (congrArg Model.record hmodel)
    exact hkept.create hp hholds hused tmp
  · intro other _ hne htype
    exact Scope.aside_create p.table _ (htype ▸ hne) data { tmp }

theorem Keeps.get (h : c.Keeps p stopped kept) (hp : p.type.Stores p.inUse) {model : Model}
    {key : Key} (hused : model.record = p.type → p.inUse key) :
    (c.get model key).2.Keeps p stopped
      (settle kept c.instances (c.get model key).2.instances) := by
  refine h.within model (·.get key) ?_ ?_
  · intro own _ hmodel hkept
    exact (hkept.get hp (hused (congrArg Model.record hmodel))).1
  · intro other _ hne htype
    exact Scope.aside_get p.table _ (htype ▸ hne) key

theorem Keeps.save (h : c.Keeps p false kept) (hp : p.type.Stores p.inUse) {model : Model}
    {id : Nat} (htype : ∀ i, c.instances[id]? = some i → i.record.type = model.record)
    (hmarked : ∀ i, c.instances[id]? = some i → i.record.type = p.type →
      i.record.lifecycle = .normal → i.record.Marked (kept id)) :
    (c.save model id).2.Keeps p false
      (settle kept c.instances (c.save model id).2.instances) := by
  refine h.within model (·.save id) ?_ ?_
  · intro own _ hmodel hkept
    have htype' : ∀ i, c.instances[id]? = some i → i.record.type = p.type :=
      fun i hi => (htype i hi).trans (congrArg Model.record hmodel)
    exact hkept.save hp htype' fun i hi => hmarked i hi (htype' i hi)
  · intro other htable hne _
    exact Scope.aside_save htable fun i hi => htype i hi ▸ hne

theorem Keeps.sync (h : c.Keeps p false kept) (hp : p.type.Stores p.inUse) {model : Model}
    {id : Nat} (htype : ∀ i, c.instances[id]? = some i → i.record.type = model.record)
    (hmarked : ∀ i, c.instances[id]? = some i → i.record.type = p.type →
      i.record.lifecycle = .normal → i.record.Marked (kept id)) :
    (c.sync model id).2.Keeps p false
      (settle kept c.instances (c.sync model id).2.instances) := by
  refine h.within model (·.sync id) ?_ ?_
  · intro own _ hmodel hkept
    have htype' : ∀ i, c.instances[id]? = some i → i.record.type = p.type :=
      fun i hi => (htype i hi).trans (congrArg Model.record hmodel)
    exact hkept.sync hp htype' fun i hi => hmarked i hi (htype' i hi)
  · intro other htable hne _
    exact Scope.aside_sync htable fun i hi => htype i hi ▸ hne

/-- The cache with an instance edited. -/
def edit (c : Cache) (id : Nat) (e : Edit) : Cache :=
  match c.instances[id]? with
  | none => c
  | some i => c.setRecord id (i.record.edit e)

theorem edit_of_some {id : Nat} {i : Instance} (hi : c.instances[id]? = some i) (e : Edit) :
    c.edit id e =
      { c with instances := c.instances.set id { i with record := i.record.edit e } } := by
  have hmodify : c.instances.modify id (fun i' => { i' with record := i.record.edit e }) =
      c.instances.set id { i with record := i.record.edit e } := by
    refine List.ext_getElem? fun id' => ?_
    rw [List.getElem?_modify, List.getElem?_set]
    by_cases hid : id = id'
    · subst hid
      have hlt := (List.getElem?_eq_some_iff.mp hi).1
      rw [if_pos rfl, if_pos hlt, hi]
      simp
    · simp [hid]
  simp only [edit, hi, setRecord, hmodify]

/-- An instance is edited; one of the records keeps its key. -/
theorem Keeps.edit (h : c.Keeps p stopped kept) {id : Nat} {e : Edit}
    (hedit : ∀ i, c.instances[id]? = some i → i.record.type = p.type →
      p.type.Holds (i.record.edit e).data ∧ (i.record.edit e).key = i.record.key) :
    (c.edit id e).Keeps p stopped (settle kept c.instances (c.edit id e).instances) := by
  obtain ⟨own, hfound, hkept⟩ := h.found
  cases hi : c.instances[id]? with
  | none =>
      have hresult : c.edit id e = c := by simp [Cache.edit, hi]
      rw [hresult, settle_self]
      exact h
  | some i =>
      rw [edit_of_some hi e]
      refine ⟨⟨own, hfound, ?_⟩, h.apart⟩
      by_cases htype : i.record.type = p.type
      · obtain ⟨hholds, hkey⟩ := hedit i hi htype
        exact hkept.edit hi htype e hholds hkey
      · have hne : (i.record.edit e).type ≠ p.type := by
          rw [(i.record.edit_editsTo e).1]
          exact htype
        have haside : Scope.Aside p.type p.table (c.scope own)
            ((c.scope own).setInstance id { i with record := i.record.edit e }) :=
          Scope.aside_setInstance p.table (c.scope own) hi htype hne
        exact hkept.aside haside.content haside.instances

/-! ## All sources -/

theorem Keeps.own (h : c.Keeps p stopped kept) (hget : c.sources.get? p.ns = some source) :
    (c.scope source).Kept p stopped kept := by
  obtain ⟨own, hfound, hkept⟩ := h.found
  rw [hfound, Option.some.injEq] at hget
  exact hget ▸ hkept

theorem instances_syncAll (s : Scope) : s.syncAll.2.instances = s.instances := by
  cases hsaver : s.source.saver with
  | none => simp [Scope.syncAll, hsaver]
  | some saver => simp [Scope.syncAll, hsaver]

theorem instances_stepSaver (s : Scope) (step : Saver → Storage → Saver × Storage) :
    (s.stepSaver step).instances = s.instances := by
  cases hsaver : s.source.saver with
  | none => simp [Scope.stepSaver, hsaver]
  | some saver => simp [Scope.stepSaver, hsaver]

/-- A step of the savers alone. -/
theorem Keeps.adopt_of_instances (h : c.Keeps p stopped kept)
    (hget : c.sources.get? ns = some source) (hinstances : s.instances = c.instances)
    (hown : (c.scope source).Kept p stopped kept → s.Kept p stopped kept)
    (hother : source.table ≠ p.table → Scope.Aside p.type p.table (c.scope source) s) :
    (c.adopt ns s).Keeps p stopped kept := by
  have hadopt := h.adopt hget (s := s)
  rw [hinstances, settle_self] at hadopt
  exact hadopt (fun _ => hown) fun _ => hother

theorem Keeps.deliver (h : c.Keeps p stopped kept) (hp : p.type.Stores p.inUse) (ns : String)
    (n : Nat) (a : DeliveryStep) :
    (c.onSource ns (·.deliver n a)).Keeps p stopped kept ∧
      (c.onSource ns (·.deliver n a)).instances = c.instances ∧
      (c.onSource ns (·.deliver n a)).stopped = c.stopped := by
  cases hget : c.sources.get? ns with
  | none =>
      have hresult : c.onSource ns (·.deliver n a) = c := by simp [onSource, hget]
      rw [hresult]
      exact ⟨h, rfl, rfl⟩
  | some source =>
      have hresult : c.onSource ns (·.deliver n a) =
          c.adopt ns ((c.scope source).deliver n a) := by simp [onSource, hget]
      have hinstances := instances_stepSaver (c.scope source)
        fun saver => saver.advance (Storage.save source.table) n a
      rw [hresult]
      refine ⟨?_, hinstances, rfl⟩
      exact h.adopt_of_instances hget hinstances (fun hkept => (hkept.deliver hp n a).1)
        fun hother => Scope.aside_deliver p.type hother n a

theorem Keeps.syncSource (h : c.Keeps p stopped kept) (hp : p.type.Stores p.inUse)
    (hget : c.sources.get? ns = some source) :
    (c.adopt ns (c.scope source).syncAll.2).Keeps p stopped kept ∧
      (c.Quiet p.ns → (c.adopt ns (c.scope source).syncAll.2).Quiet p.ns) ∧
      (ns = p.ns → stopped = false → (c.scope source).syncAll.1 = .ok () →
        (c.adopt ns (c.scope source).syncAll.2).Quiet p.ns) := by
  refine ⟨?_, ?_, ?_⟩
  · exact h.adopt_of_instances hget (instances_syncAll (c.scope source))
      (fun hkept => (hkept.syncAll hp).1) fun hother => Scope.aside_syncAll p.type hother
  · refine quiet_adopt p hget fun hns => ?_
    subst hns
    exact ((h.own hget).syncAll hp).2.2.1
  · intro hns hrunning hok
    subst hns
    exact quiet_adopt_self (((h.own hget).syncAll hp).2.2.2 hrunning hok)

/-- All sources are waited for.  If that succeeds, nothing of the records is pending. -/
theorem Keeps.syncNamespaces (h : c.Keeps p stopped kept) (hp : p.type.Stores p.inUse)
    (nss : List String) :
    (syncNamespaces nss c).2.Keeps p stopped kept ∧
      (syncNamespaces nss c).2.instances = c.instances ∧
      (syncNamespaces nss c).2.stopped = c.stopped ∧
      (c.Quiet p.ns ∨ p.ns ∈ nss → stopped = false → (syncNamespaces nss c).1 = .ok () →
        (syncNamespaces nss c).2.Quiet p.ns) := by
  induction nss generalizing c with
  | nil =>
      refine ⟨h, rfl, rfl, ?_⟩
      rintro (hquiet | hmem) _ _
      · exact hquiet
      · cases hmem
  -- Once the source is quiet it stays so while the others are waited for.
  | cons ns rest ih =>
      cases hget : c.sources.get? ns with
      | none =>
          have hresult : Cache.syncNamespaces (ns :: rest) c = Cache.syncNamespaces rest c := by
            simp only [Cache.syncNamespaces, hget]
          have hne : p.ns ≠ ns := by
            obtain ⟨own, hfound, -⟩ := h.found
            intro hns
            rw [hns, hget] at hfound
            cases hfound
          rw [hresult]
          obtain ⟨hkeeps, hinstances, hstopped, hquiet⟩ := ih h
          refine ⟨hkeeps, hinstances, hstopped, fun hbefore => hquiet ?_⟩
          rcases hbefore with hbefore | hmem
          · exact .inl hbefore
          · exact .inr ((List.mem_cons.mp hmem).resolve_left hne)
      | some source =>
          obtain ⟨hkeeps, hstill, hquiet⟩ := h.syncSource hp hget
          have hinstances := instances_syncAll (c.scope source)
          cases hsync : (c.scope source).syncAll with
          | mk result s =>
              rw [hsync] at hkeeps hstill hquiet hinstances
              cases result with
              | error e =>
                  have hresult : Cache.syncNamespaces (ns :: rest) c =
                      (.error e, c.adopt ns s) := by
                    simp only [Cache.syncNamespaces, hget, hsync]
                  rw [hresult]
                  exact ⟨hkeeps, hinstances, rfl, fun _ _ hok => by cases hok⟩
              | ok u =>
                  have hresult : Cache.syncNamespaces (ns :: rest) c =
                      Cache.syncNamespaces rest (c.adopt ns s) := by
                    simp only [Cache.syncNamespaces, hget, hsync]
                  rw [hresult]
                  obtain ⟨hkeeps', hinstances', hstopped', hquiet'⟩ := ih hkeeps
                  refine ⟨hkeeps', hinstances'.trans hinstances, hstopped', ?_⟩
                  intro hbefore hrunning hok
                  refine hquiet' ?_ hrunning hok
                  rcases hbefore with hbefore | hmem
                  · exact .inl (hstill hbefore)
                  · rcases List.mem_cons.mp hmem with hns | hmem
                    · exact .inl (hquiet hns.symm hrunning rfl)
                    · exact .inr hmem

theorem Keeps.mem_namespaces (h : c.Keeps p stopped kept) : p.ns ∈ c.namespaces := by
  obtain ⟨own, hfound, -⟩ := h.found
  have hmem := SortedMap.get?_eq_some_iff.mp hfound
  exact List.mem_map.mpr ⟨(p.ns, own), hmem, rfl⟩

/-! ## Closing -/

theorem Keeps.close (h : c.Keeps p true kept) (hp : p.type.Stores p.inUse) (ns : String) :
    (c.onSource ns Scope.close).Keeps p true kept ∧
      (c.onSource ns Scope.close).instances = c.instances ∧
      (c.Quiet p.ns ∨ c.Idle p.ns ∧ ns = p.ns → (c.onSource ns Scope.close).Quiet p.ns) ∧
      (c.Idle p.ns → ns ≠ p.ns → (c.onSource ns Scope.close).Idle p.ns) := by
  cases hget : c.sources.get? ns with
  | none =>
      have hresult : c.onSource ns Scope.close = c := by simp [onSource, hget]
      rw [hresult]
      refine ⟨h, rfl, ?_, fun hidle _ => hidle⟩
      rintro (hquiet | ⟨-, hns⟩)
      · exact hquiet
      · obtain ⟨own, hfound, -⟩ := h.found
        rw [← hns, hget] at hfound
        cases hfound
  | some source =>
      have hinstances : (c.scope source).close.instances = c.instances :=
        instances_stepSaver (c.scope source) _
      have hresult : c.onSource ns Scope.close = c.adopt ns (c.scope source).close := by
        simp [onSource, hget]
      rw [hresult]
      refine ⟨?_, hinstances, ?_, ?_⟩
      · exact h.adopt_of_instances hget hinstances (fun hkept => (hkept.close hp).1)
          fun hother => Scope.aside_close p.type hother
      · rintro (hquiet | ⟨hidle, hns⟩)
        · refine quiet_adopt p hget (fun hns hbefore => ?_) hquiet
          subst hns
          exact ((h.own hget).close hp).2.2 fun w hw => .inr (hbefore w hw)
        · subst hns
          exact quiet_adopt_self (((h.own hget).close hp).2.2 (hidle source hget))
      · intro hidle hns source' hget'
        rw [get?_adopt_of_ne c _ hns] at hget'
        exact hidle source' hget'

theorem Keeps.closeAll (h : c.Keeps p true kept) (hp : p.type.Stores p.inUse)
    (nss : List String) :
    (nss.foldl (fun c ns => c.onSource ns Scope.close) c).Keeps p true kept ∧
      (nss.foldl (fun c ns => c.onSource ns Scope.close) c).instances = c.instances ∧
      (c.Quiet p.ns ∨ c.Idle p.ns ∧ p.ns ∈ nss →
        (nss.foldl (fun c ns => c.onSource ns Scope.close) c).Quiet p.ns) := by
  induction nss generalizing c with
  | nil =>
      refine ⟨h, rfl, ?_⟩
      rintro (hquiet | ⟨-, hmem⟩)
      · exact hquiet
      · cases hmem
  | cons ns rest ih =>
      obtain ⟨hkeeps, hinstances, hquiet, hidle⟩ := h.close hp ns
      obtain ⟨hkeeps', hinstances', hquiet'⟩ := ih hkeeps
      refine ⟨hkeeps', hinstances'.trans hinstances, fun hbefore => hquiet' ?_⟩
      rcases hbefore with hbefore | ⟨hbefore, hmem⟩
      · exact .inl (hquiet (.inl hbefore))
      · by_cases hns : ns = p.ns
        · exact .inl (hquiet (.inr ⟨hbefore, hns⟩))
        · refine .inr ⟨hidle hbefore hns, ?_⟩
          exact (List.mem_cons.mp hmem).resolve_left (Ne.symm hns)

theorem Keeps.weaken (h : c.Keeps p stopped kept) : c.Keeps p true kept := by
  obtain ⟨own, hfound, hkept⟩ := h.found
  refine ⟨⟨own, hfound, hkept.model, hkept.table, ?_, hkept.ledger⟩, h.apart⟩
  intro hno
  cases hno

/-- The cache is stopped.  If no worker had a batch in its hands, nothing is pending. -/
theorem Keeps.stop (h : c.Keeps p c.stopped kept) (hp : p.type.Stores p.inUse) :
    c.stop.Keeps p c.stop.stopped kept ∧ c.stop.instances = c.instances ∧
      (c.stopped = false → c.Idle p.ns → c.stop.Quiet p.ns) := by
  obtain ⟨hkeeps, hinstances, hquiet⟩ := h.weaken.closeAll hp c.namespaces
  cases hstopped : c.stopped with
  | true =>
      have hresult : c.stop = c := by simp [Cache.stop, hstopped]
      rw [hresult]
      exact ⟨h, rfl, fun hno => by cases hno⟩
  | false =>
      have hresult : c.stop =
          { c.namespaces.foldl (fun c ns => c.onSource ns Scope.close) c with
            stopped := true } := by
        simp [Cache.stop, hstopped]
      rw [hresult]
      refine ⟨⟨hkeeps.found, hkeeps.apart⟩, hinstances, fun _ hidle => ?_⟩
      exact hquiet (.inr ⟨hidle, h.mem_namespaces⟩)

end Keeps

end Cache

end WriteBehind
