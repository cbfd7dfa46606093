import WriteBehind.Proofs.Guarding

/-!
# Requests to a cache with a guarded source

A cache whose source of the records is guarded stays so whatever is asked of it.  Creations,
saves and expirations of the records are dealt with one by one, since what is to hold of
their key may change with them; all other requests keep any condition on keys that is calm
(`Cache.Guards.serve`).
-/

namespace WriteBehind

/-- What may be asked for: creations with proper data, fetches of keys in use, edits that
leave keys as they are, and saves of instances to their source, which takes commits as long
as it runs.  What another source forgets is its own. -/
def Deposit.Serves (p : Deposit) (c : Cache) : Request → Prop
  | .act (.create model data _) => model = p.model →
      p.type.Holds data ∧ p.inUse (p.type.keyOf data)
  | .act (.get model key) => model = p.model → p.inUse key
  | .getMulti model keys => model = p.model → ∀ key ∈ keys, p.inUse key
  | .act (.edit id e) => ∀ i, c.instances[id]? = some i → i.record.type = p.type →
      p.type.Holds (i.record.edit e).data ∧ (i.record.edit e).key = i.record.key
  | .act (.save model id) | .act (.sync model id) => ∀ i, c.instances[id]? = some i →
      i.record.type = model.record ∧ (model = p.model → c.stopped = false)
  | .expire model key => (model = p.model → p.inUse key) ∧
      ∀ source id i, c.sources.get? model.record.ns = some source →
        source.repo.get key = some (.live id) → c.instances[id]? = some i →
          i.record.type = model.record
  | .find _ _ | .act .syncAll | .act (.deliver _ _ _) | .act .stop => True

/-- Records can be saved as long as the cache runs. -/
theorem Deposit.serves_save (p : Deposit) {c : Cache} {id : Nat} {r : Request}
    (hr : r = .act (.save p.model id) ∨ r = .act (.sync p.model id))
    (htype : (c.instances[id]?).all (fun i => decide (i.record.type = p.type)) = true)
    (hrunning : c.stopped = false) : p.Serves c r := by
  have hall : ∀ i, c.instances[id]? = some i → i.record.type = p.model.record ∧
      (p.model = p.model → c.stopped = false) := by
    intro i hi
    rw [hi, Option.all_some, decide_eq_true_eq] at htype
    exact ⟨htype, fun _ => hrunning⟩
  rcases hr with rfl | rfl
  · exact hall
  · exact hall

/-- An instance that is saved as one of the records is one, and the cache runs. -/
theorem Deposit.Serves.of_save {p : Deposit} {c : Cache} {id : Nat} {r : Request}
    (h : p.Serves c r) (hr : r = .act (.save p.model id) ∨ r = .act (.sync p.model id))
    {i : Instance} (hi : c.instances[id]? = some i) :
    i.record.type = p.type ∧ c.stopped = false := by
  rcases hr with rfl | rfl
  · exact ⟨(h i hi).1, (h i hi).2 rfl⟩
  · exact ⟨(h i hi).1, (h i hi).2 rfl⟩

/-- Requests that create, save or expire the records. -/
def Request.Touches (p : Deposit) : Request → Prop
  | .act (.create model _ _) | .act (.save model _) | .act (.sync model _) | .expire model _ =>
      model = p.model
  | _ => False

namespace Cache

/-- The source of the records is guarded, and no other source shares its table. -/
abbrev Guards (p : Deposit) (ht : p.table ≠ .none → p.type.Files p.inUse) (before : Storage)
    (I : KeyLaw) (c : Cache) : Prop :=
  c.Hosts p (Scope.Guarded p ht before c.stopped I)

section Guards

variable {p : Deposit} {ht : p.table ≠ .none → p.type.Files p.inUse} {before : Storage}
  {I : KeyLaw} {c c' : Cache} {model : Model} {key : Key} {id : Nat}

theorem stopped_syncNamespaces (nss : List String) (c : Cache) :
    (syncNamespaces nss c).2.stopped = c.stopped := by
  induction nss generalizing c with
  | nil => rfl
  | cons ns rest ih =>
      cases hget : c.sources.get? ns with
      | none =>
          simp only [syncNamespaces, hget]
          exact ih c
      | some source =>
          cases hsync : (c.scope source).syncAll with
          | mk result s =>
              cases result with
              | error e => simp only [syncNamespaces, hget, hsync]; rfl
              | ok u =>
                  simp only [syncNamespaces, hget, hsync]
                  exact ih _

theorem Guards.congr_stopped (h : c'.Hosts p (Scope.Guarded p ht before c.stopped I))
    (hstopped : c'.stopped = c.stopped) : c'.Guards p ht before I := by
  rw [Guards, hstopped]
  exact h

/-- A request for the records. -/
theorem Guards.within_own {α : Type} (h : c.Guards p ht before I)
    (op : Scope → Except Error α × Scope)
    (hop : ∀ s : Scope, s.Guarded p ht before c.stopped I →
      (op s).2.Guarded p ht before c.stopped I) :
    (c.within p.model p.ns op).2.Guards p ht before I := by
  obtain ⟨own, -, hown, hwithin⟩ := Hosts.within_own h fun _ hs => hs.model
  rw [hwithin op]
  exact h.adopt_own (hop _ hown)

/-- A request for another model. -/
theorem Guards.within_other {α : Type} (h : c.Guards p ht before I) (hI : I.Calm p)
    (hne : model ≠ p.model) (op : Scope → Except Error α × Scope)
    (haside : ∀ s : Scope, s.source.table ≠ p.table ∨ p.table = .none →
      model.record ≠ p.type → s.type = model.record → s.instances = c.instances →
      c.sources.get? model.record.ns = some s.source →
        Scope.Aside p.type p.table s (op s).2) :
    (c.within model model.record.ns op).2.Guards p ht before I :=
  .congr_stopped
    (Hosts.within_other h (Scope.Guarded.ignores hI) (fun _ hs => hs.model) hne op haside)
    (stopped_within c model model.record.ns op)

theorem Guards.edit (h : c.Guards p ht before I) (hI : I.Calm p) {e : Edit}
    (hr : p.Serves c (.act (.edit id e))) : (c.edit id e).Guards p ht before I := by
  refine .congr_stopped (Hosts.edit h (Scope.Guarded.ignores hI) fun _ i hs hinstances hi htype => ?_)
    ?_
  · obtain ⟨hholds, hkey⟩ := hr i hi htype
    exact hs.edit hI (hinstances ▸ hi) htype e hholds hkey
  · rw [Cache.edit]
    split <;> rfl

theorem Guards.syncAll (h : c.Guards p ht before I) (hI : I.Calm p) (hd : p.domain.Distinct) :
    c.syncAll.2.Guards p ht before I :=
  .congr_stopped (Hosts.syncNamespaces h (Scope.Guarded.ignores hI)
    (fun _ hs => hs.syncAll hI hd) c.namespaces) (stopped_syncNamespaces _ _)

theorem Guards.deliver (h : c.Guards p ht before I) (hI : I.Calm p) (hd : p.domain.Distinct)
    (ns : String) (n : Nat) (a : DeliveryStep) :
    (c.onSource ns (·.deliver n a)).Guards p ht before I := by
  refine .congr_stopped (Hosts.deliver h (Scope.Guarded.ignores hI)
    (fun _ n a hs => hs.deliver hI hd n a) ns n a) ?_
  rw [onSource]
  split <;> rfl

theorem Guards.stop (h : c.Guards p ht before I) (hI : I.Calm p) (hd : p.domain.Distinct) :
    c.stop.Guards p ht before I := by
  have hweak : c.Hosts p (Scope.Guarded p ht before true I) := h.mono fun s hs => hs.weaken
  have hstop := Hosts.stop hweak (Scope.Guarded.ignores hI) fun s hs => hs.close hI hd
  have hstopped : c.stop.stopped = true := by
    rw [Cache.stop]
    split
    next hno => exact hno
    · rfl
  rw [Guards, hstopped]
  exact hstop

/-- Requests that neither create, save nor expire the records keep what holds of their
keys. -/
theorem Guards.serve (h : c.Guards p ht before I) (hI : I.Calm p) (hd : p.domain.Distinct)
    {r : Request} (hr : p.Serves c r) (hquiet : ¬ r.Touches p) :
    (c.serve r).Guards p ht before I := by
  cases r with
  | getMulti model keys =>
      by_cases hmodel : model = p.model
      · subst hmodel
        exact h.within_own _ fun s hs => hs.getMulti hI (hr rfl)
      · exact h.within_other hI hmodel _ fun s _ hne htype _ _ =>
          Scope.aside_getMulti p.table s (htype ▸ hne) keys
  | find model filter =>
      by_cases hmodel : model = p.model
      · subst hmodel
        exact h.within_own _ fun s hs => hs.find hI filter
      · exact h.within_other hI hmodel _ fun s _ hne htype _ _ =>
          Scope.aside_find p.table s (htype ▸ hne) filter
  | expire model key =>
      refine h.within_other hI hquiet _ fun s _ hne _ hinstances hget => ?_
      refine Scope.aside_expire p.table s fun id i hlive hi => ?_
      rw [hr.2 s.source id i hget hlive (hinstances ▸ hi)]
      exact hne
  | act a =>
      cases a with
      | create model data tmp =>
          exact h.within_other hI hquiet _ fun s _ hne htype _ _ =>
            Scope.aside_create p.table s (htype ▸ hne) data { tmp }
      | get model key =>
          by_cases hmodel : model = p.model
          · subst hmodel
            exact h.within_own _ fun s hs => hs.get hI (hr rfl)
          · exact h.within_other hI hmodel _ fun s _ hne htype _ _ =>
              Scope.aside_get p.table s (htype ▸ hne) key
      | edit id e => exact h.edit hI hr
      | save model id =>
          refine h.within_other hI hquiet _ fun s hapart hne _ hinstances _ => ?_
          exact .of_apart hapart fun _ htable => Scope.aside_save htable fun i hi => by
            rw [(hr i (hinstances ▸ hi)).1]
            exact hne
      | sync model id =>
          refine h.within_other hI hquiet _ fun s hapart hne _ hinstances _ => ?_
          exact .of_apart hapart fun _ htable => Scope.aside_sync htable fun i hi => by
            rw [(hr i (hinstances ▸ hi)).1]
            exact hne
      | syncAll => exact h.syncAll hI hd
      | deliver ns n a => exact h.deliver hI hd ns n a
      | stop => exact h.stop hI hd

/-! ## Creations, saves and expirations of the records -/

/-- A creation fails after a fetch, or it gives an instance to a key that has no row. -/
theorem Guards.create (h : c.Guards p ht before I) (hI : I.Calm p) {data : Json}
    (hdata : p.type.Holds data) (hused : p.inUse (p.type.keyOf data)) (tmp : Bool) :
    ((c.create p.model p.ns data { tmp }).1.toOption = none ∧
      (c.create p.model p.ns data { tmp }).2.Guards p ht before I) ∨
    (∃ id, (c.create p.model p.ns data { tmp }).1 = .ok id) ∧
      ∀ I' : KeyLaw, (∀ l k x, k ≠ p.type.keyOf data → I l k x → I' l k x) →
        (∀ l x, (∀ i, x ≠ some (.live i)) →
          (x = none → (l.table.rows p.table).get? (p.type.keyOf data).text = none) →
          I l (p.type.keyOf data) x → I' l (p.type.keyOf data)
            (some (.live ⟨Scope.newRecord p.type data { tmp }, [.create]⟩))) →
        (c.create p.model p.ns data { tmp }).2.Guards p ht before I' := by
  obtain ⟨own, -, hown, hwithin⟩ := Hosts.within_own h fun _ hs => hs.model
  have hresult : c.create p.model p.ns data { tmp } =
      (((c.scope own).create data { tmp }).1.mapError .error,
        c.adopt p.ns ((c.scope own).create data { tmp }).2) := hwithin (·.create data { tmp })
  rw [hresult]
  rcases hown.create hI hdata hused tmp with ⟨hfailed, hs⟩ | ⟨⟨id, hok⟩, hs⟩
  · left
    refine ⟨?_, h.adopt_own hs⟩
    cases hcreated : ((c.scope own).create data { tmp }).1 with
    | error e => rfl
    | ok id =>
        rw [hcreated] at hfailed
        cases hfailed
  · right
    refine ⟨⟨id, by rw [hok]; rfl⟩, fun I' hmono hkey => h.adopt_own (hs I' hmono hkey)⟩

/-- A save of the records is one of their source, which may wait for its flush then. -/
theorem Guards.exists_saved (h : c.Guards p ht before I) {r : Request}
    (hr : r = .act (.save p.model id) ∨ r = .act (.sync p.model id)) :
    ∃ own, (c.scope own).Guarded p ht before c.stopped I ∧
      (c.save p.model id).1 = ((c.scope own).save id).1.mapError .error ∧
      ∃ s', c.serve r = c.adopt p.ns s' ∧
        (s' = ((c.scope own).save id).2 ∨ s' = ((c.scope own).sync id).2) := by
  obtain ⟨own, -, hown, hwithin⟩ := Hosts.within_own h fun _ hs => hs.model
  refine ⟨own, hown, congrArg Prod.fst (hwithin (·.save id)), ?_⟩
  rcases hr with rfl | rfl
  · exact ⟨_, congrArg Prod.snd (hwithin (·.save id)), .inl rfl⟩
  · exact ⟨_, congrArg Prod.snd (hwithin (·.sync id)), .inr rfl⟩

/-- What a save of an instance of the records does, whether its flush is waited for or not:
nothing to its key, or it puts its commit. -/
theorem Guards.save (h : c.Guards p ht before I) (hI : I.Calm p) (hd : p.domain.Distinct)
    {r : Request} (hr : r = .act (.save p.model id) ∨ r = .act (.sync p.model id))
    (hserves : p.Serves c r) :
    (c.save p.model id).1 = .ok false ∧ (c.serve r).Guards p ht before I ∨
    (c.save p.model id).1 = .ok true ∧
      ∃ i, c.instances[id]? = some i ∧ i.Member p ∧ i.record.header.dirty = true ∧
        ∃ l l' j events, I l i.record.key (some (.live i)) ∧ Ledger.Puts l i j l' ∧
          ∀ I' : KeyLaw, I'.Calm p → (∀ l k x, k ≠ i.record.key → I l k x → I' l k x) →
            I' l' i.record.key (if i.record.lifecycle.isGone then p.absence
              else some (.live (Ledger.committed i (some j) events))) →
            (c.serve r).Guards p ht before I' := by
  obtain ⟨own, hown, hresult, s', hserve, hs'⟩ := h.exists_saved hr
  -- Waiting for the flush keeps whatever the save has left.
  have hadopt : ∀ I' : KeyLaw, I'.Calm p →
      ((c.scope own).save id).2.Guarded p ht before c.stopped I' →
        (c.serve r).Guards p ht before I' := by
    intro I' hI' hs
    rw [hserve]
    rcases hs' with rfl | rfl
    · exact h.adopt_own hs
    · exact h.adopt_own (hs.sync hI' hd)
  rw [hresult]
  cases hi : c.instances[id]? with
  | none =>
      have hsave : (c.scope own).save id = (.ok false, c.scope own) := by
        have hi' : (c.scope own).instances[id]? = none := hi
        simp [Scope.save, hi']
      rw [hsave] at hadopt ⊢
      exact .inl ⟨rfl, hadopt I hI hown⟩
  | some i =>
      obtain ⟨htype, hrunning⟩ := hserves.of_save hr hi
      have hi' : (c.scope own).instances[id]? = some i := hi
      rw [hrunning] at hown hadopt
      cases hexpired : i.record.header.expired with
      | true =>
          have hsave : (c.scope own).save id = (.ok false, c.scope own) := by
            simp [Scope.save, hi', hexpired]
          rw [hsave] at hadopt ⊢
          exact .inl ⟨rfl, hadopt I hI hown⟩
      | false =>
          have hcounts : i.Counts p := ⟨htype, hexpired⟩
          have hok := (hown.roster.save hi' hcounts).2.1
          rw [hok]
          cases hdirty : i.record.header.dirty with
          | false => exact .inl ⟨rfl, hadopt I hI (hown.save_clean hI hi' hcounts hdirty)⟩
          | true =>
              obtain ⟨l, l', j, events, hlaw, hputs, hs⟩ :=
                hown.save_dirty hI hd hi' hcounts hdirty
              refine .inr ⟨rfl, i, rfl, hown.roster.members id i hi' hcounts, hdirty, l, l', j,
                events, hlaw, hputs, fun I' hI' hmono hkey => ?_⟩
              exact hadopt I' hI' (hs I' hI' hmono hkey)

theorem Guards.expire (h : c.Guards p ht before I) (hI : I.Calm p) (hused : p.inUse key)
    (hkey : ∀ own, c.sources.get? p.ns = some own →
      I (c.scope own).ledger key ((c.scope own).cached key) → I (c.scope own).ledger key none) :
    (c.expire p.model key).2.Guards p ht before I := by
  obtain ⟨own, hfound, hown, hwithin⟩ := Hosts.within_own h fun _ hs => hs.model
  have hresult : (c.expire p.model key).2 = c.adopt p.ns ((c.scope own).expire key).2 :=
    congrArg Prod.snd (hwithin fun s => (.ok (s.expire key).1, (s.expire key).2))
  rw [hresult]
  exact h.adopt_own (hown.expire hI hused (hkey own hfound))

/-! ## What is handed out -/

end Guards

end Cache

/-! ## What is pending and what is cached -/

/-- The instance of a key whose changes a request commits. -/
def Request.commits (p : Deposit) (c : Cache) (key : Key) : Request → Option Instance
  | .act (.save model id) | .act (.sync model id) =>
    if model = p.model ∧ (c.save model id).1.toOption = some true then
      (c.instances[id]?).filter fun i => decide (i.record.key = key)
    else none
  | _ => none

namespace Request

variable {p : Deposit} {c : Cache} {key : Key} {r : Request}

theorem creates_of_quiet (h : ¬ r.Touches p) : r.creates p c key = false := by
  cases r with
  | act a =>
      cases a with
      | create model data tmp =>
          have hmodel : model ≠ p.model := h
          simp [creates, hmodel]
      | _ => rfl
  | _ => rfl

theorem commits_of_quiet (h : ¬ r.Touches p) : r.commits p c key = none := by
  cases r with
  | act a =>
      cases a with
      | save model id => exact if_neg fun hno => h hno.1
      | sync model id => exact if_neg fun hno => h hno.1
      | _ => rfl
  | _ => rfl

/-- A save of the records commits the changes of its instance, if there are any. -/
theorem commits_save {id : Nat} (h : r = .act (.save p.model id) ∨ r = .act (.sync p.model id)) :
    r.commits p c key =
      if (c.save p.model id).1.toOption = some true then
        (c.instances[id]?).filter fun i => decide (i.record.key = key)
      else none := by
  rcases h with rfl | rfl
  · simp [commits]
  · simp [commits]

theorem commits_of_clean {id : Nat}
    (h : r = .act (.save p.model id) ∨ r = .act (.sync p.model id))
    (hok : (c.save p.model id).1 = .ok false) : r.commits p c key = none := by
  rw [commits_save h, hok]
  exact if_neg (by simp [Except.toOption])

theorem commits_of_dirty {id : Nat} {i : Instance}
    (h : r = .act (.save p.model id) ∨ r = .act (.sync p.model id))
    (hok : (c.save p.model id).1 = .ok true) (hi : c.instances[id]? = some i) :
    r.commits p c key = if i.record.key = key then some i else none := by
  have hyes : (c.save p.model id).1.toOption = some true := by
    rw [hok]
    rfl
  rw [commits_save h, if_pos hyes, hi]
  by_cases hkey : i.record.key = key
  · simp [hkey]
  · simp [hkey]

theorem creates_save {model : Model} {id : Nat}
    (h : r = .act (.save model id) ∨ r = .act (.sync model id)) : r.creates p c key = false := by
  rcases h with rfl | rfl
  · rfl
  · rfl

end Request

namespace Cache

variable (p : Deposit) (c : Cache) (key : Key)

/-- Whether anything is cached of a key, be it an instance or that it has no row. -/
def caches : Bool :=
  (c.sources.get? p.ns).any fun own => (own.repo.get key).isSome

/-- Whether anything of a key is pending. -/
def awaits : Bool :=
  (c.sources.get? p.ns).any fun own => (c.scope own).ledger.workers.any fun w =>
    w.pending.any fun e => e.keyText == key.text

variable {p c key} {own : Source}

theorem caches_eq_false_iff (hfound : c.sources.get? p.ns = some own) :
    c.caches p key = false ↔ own.repo.get key = none := by
  rw [caches, hfound, Option.any_some, Option.isSome_eq_false_iff, Option.isNone_iff_eq_none]

theorem cached_of_not_caches (hfound : c.sources.get? p.ns = some own)
    (h : c.caches p key = false) : (c.scope own).cached key = none := by
  exact Scope.cached_of_none ((caches_eq_false_iff hfound).mp h)

theorem idle_of_not_awaits (hfound : c.sources.get? p.ns = some own)
    (h : c.awaits p key = false) :
    (c.scope own).ledger.Idle key := by
  rw [awaits, hfound, Option.any_some] at h
  cases hw : (c.scope own).ledger.workers[(c.scope own).ledger.laneOf key]? with
  | none =>
      rw [Ledger.Idle, Ledger.worker, hw]
      intro e he
      cases he
  | some w =>
      rw [Ledger.Idle, Ledger.worker_of_lane hw rfl]
      intro e he htext
      have hany := List.any_eq_false.mp h w (List.mem_of_getElem? hw)
      exact hany (List.any_eq_true.mpr ⟨e, he, by simpa using htext⟩)

/-! ## Answers -/

section Answers

variable {ht : p.table ≠ .none → p.type.Files p.inUse} {before : Storage} {I : KeyLaw}

/-- A fetch of a key of which nothing is cached gives what its row says. -/
theorem Guards.get_of_not_caches (h : c.Guards p ht before I) (hused : p.inUse key)
    (hfree : c.caches p key = false) :
    (∀ found, (c.get p.model key).1 = .ok found →
      p.Brings c.storage key (c.get p.model key).2.instances found) ∧
    (c.storage.Answers p.table → p.Reads c.storage key →
      ∃ found, (c.get p.model key).1 = .ok found) := by
  obtain ⟨own, hfound, hown, hwithin⟩ := Hosts.within_own h fun _ hs => hs.model
  have hresult : c.get p.model key = (((c.scope own).get key).1.mapError .error,
    c.adopt p.ns ((c.scope own).get key).2) := hwithin (·.get key)
  have hslot : (c.scope own).source.repo.get key = none := (caches_eq_false_iff hfound).mp hfree
  rw [hresult]
  rcases Scope.get_answer_of_shelves hown.shelves hused hslot with
    ⟨e, herror, hno⟩ | ⟨found, hok, hbrings⟩
  · rw [herror]
    exact ⟨(fun _ hno => by cases hno), fun hanswers hreads => absurd ⟨hanswers, hreads⟩ hno⟩
  · rw [hok]
    refine ⟨fun found' hfound' => ?_, fun _ _ => ⟨found, rfl⟩⟩
    obtain rfl : found = found' := by simpa [mapError_eq_ok_iff] using hfound'
    exact hbrings

end Answers

end Cache

/-! ## The start -/

/-- A cache whose source of the records has just been started and saves them in a table. -/
structure Launch (p : Deposit) (c : Cache) : Prop extends Start p c where
  stored : p.table ≠ .none
  saving : ∀ own, c.sources.get? p.ns = some own → own.saver.isSome = true

theorem Launch.guards {p : Deposit} {c : Cache} (h : Launch p c)
    (ht : p.table ≠ .none → p.type.Files p.inUse) {I : KeyLaw}
    (hI : ∀ (l : Ledger Storage) (key : Key), p.inUse key → (l.worker key).pending = [] →
      l.eventual p.domain key = (c.storage.rows p.table).get? key.text →
      l.table = c.storage → I l key none) :
    c.Guards p ht c.storage I := by
  obtain ⟨source, hfound, hvolatile, hempty, hshelves⟩ := h.source
  obtain ⟨dryRun, plan, tables, own, hstart, -, -, hown⟩ := h.started
  obtain rfl : source = own := Option.some.inj (hfound.symm.trans hown)
  obtain ⟨saver, hsaver⟩ := Option.isSome_iff_exists.mp (h.saving source hfound)
  obtain ⟨-, -, -, hplanned⟩ := startSource_eq_ok hstart
  have hworkers : (c.scope source).ledger.workers = saver.workers := by
    simp [Scope.ledger, Cache.scope, hsaver]
  obtain ⟨hstaffed, hstarted⟩ : 0 < saver.workers.length ∧
      ∀ w ∈ saver.workers, w = ({} : Worker).start := by
    rw [hsaver] at hplanned
    split at hplanned
    · cases hplanned
    · obtain ⟨options, -, rfl⟩ := Option.map_eq_some_iff.mp hplanned.symm
      exact workers_run plan.source.ns options.concurrence
  rw [← hworkers] at hstaffed hstarted
  have hgood : p.domain.Good (c.scope source).ledger.table := h.ready h.stored
  obtain ⟨hmanned, hpending⟩ := Ledger.manned_of_started hstaffed hgood hstarted
  refine ⟨⟨source, hfound, .of_fresh h.fresh hempty, hvolatile, ⟨?_, ?_, ?_, hmanned⟩,
    Scope.Shelves.mono (hshelves ht) fun _ hno => hno.elim, fun key hused => ?_⟩, h.apart⟩
  · exact (hshelves ht).model
  · exact (hshelves ht).table
  · intro _ w hw
    rw [hstarted w hw]
    exact Worker.live_start
  · obtain ⟨hidle, heventual⟩ := Ledger.eventual_of_quiet (d := p.domain) hstaffed hpending key
    rw [Scope.cached_of_none (hempty key)]
    exact hI _ key hused hidle heventual rfl

end WriteBehind
