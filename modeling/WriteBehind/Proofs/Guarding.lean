import WriteBehind.Proofs.Roster

/-!
# What is cached of a key and what is pending of it

Whether a read may trust the cache, or the table, is a question about one key: what is cached
of it, and what is still on its way to its row.  A `KeyLaw` is a condition of that kind.  If
fetches, edits and the workers keep it (`KeyLaw.Calm`), the operations of a source keep it
for all keys (`Scope.Guarded`): a creation and a commit change it for one key, and nothing
else happens to any other.
-/

namespace WriteBehind

/-- What is cached of a key that is known to have no row: volatile sources do not remember
that. -/
def Deposit.absence (p : Deposit) : Option (Slot Instance) :=
  if p.model.volatile then none else some .missing

/-- Nothing of a key is pending. -/
def Ledger.Idle {σ : Type} (l : Ledger σ) (key : Key) : Prop :=
  ∀ e ∈ (l.worker key).pending, e.keyText ≠ key.text

theorem Ledger.Idle.eventual {σ : Type} {d : Domain σ} {l : Ledger σ} {key : Key}
    (h : l.Idle key) : l.eventual d key = (d.rowsOf l.table).get? key.text :=
  replay_eq_self h _

theorem Ledger.Carries.stays_idle {σ : Type} {d : Domain σ} {l l' : Ledger σ} {key : Key}
    (h : Ledger.Carries d l l' key) (hidle : l.Idle key) : l'.Idle key :=
  h.idle hidle

/-- A condition on what is pending of a key and what is cached of it. -/
abbrev KeyLaw := Ledger Storage → Key → Option (Slot Instance) → Prop

/-- A condition that the workers, fetches and edits keep, and the loss of an instance that is
gone. -/
structure KeyLaw.Calm (p : Deposit) (I : KeyLaw) : Prop where
  steady : ∀ {l l' : Ledger Storage} {key : Key} {x : Option (Slot Instance)}, p.inUse key →
    Ledger.Carries p.domain l l' key → I l key x → I l' key x
  absent : ∀ {l : Ledger Storage} {key : Key}, p.inUse key →
    (l.table.rows p.table).get? key.text = none → I l key none → I l key p.absence
  found : ∀ {l : Ledger Storage} {key : Key} {row : Document} {data : Json}
    (events : List Event), p.inUse key → (l.table.rows p.table).get? key.text = some row →
    p.type.read (.ofDocument row) = .ok data → p.type.Holds data → p.type.keyOf data = key →
    I l key none → I l key (some (.live ⟨.load p.type data, events⟩))
  edited : ∀ {l : Ledger Storage} {key : Key} {i i' : Instance}, i.Member p →
    i.record.header.EditsTo i'.record.header → I l key (some (.live i)) →
      I l key (some (.live i'))
  forgotten : ∀ {l : Ledger Storage} {key : Key} {i : Instance},
    i.record.lifecycle = .unavailable → I l key (some (.live i)) → I l key p.absence

namespace Scope

/-! ## What is cached -/

/-- What is cached of a key: nothing, that there is no row, or an instance. -/
def cached (s : Scope) (key : Key) : Option (Slot Instance) :=
  match s.source.repo.get key with
  | none => none
  | some .missing => some .missing
  | some (.live id) => (s.instances[id]?).map .live

section Cached

variable {s s' : Scope} {key : Key} {id : Nat} {i : Instance}

theorem cached_of_none (h : s.source.repo.get key = none) : s.cached key = none := by
  rw [cached, h]

theorem cached_of_missing (h : s.source.repo.get key = some .missing) :
    s.cached key = some .missing := by
  rw [cached, h]

theorem cached_of_live (h : s.source.repo.get key = some (.live id))
    (hi : s.instances[id]? = some i) : s.cached key = some (.live i) := by
  rw [cached, h]
  simp [hi]

/-- A slot that is emptied. -/
theorem cached_of_absence {p : Deposit}
    (h : s.source.repo.get key = if p.model.volatile then none else some .missing) :
    s.cached key = p.absence := by
  rw [Deposit.absence]
  cases hv : p.model.volatile with
  | true =>
      rw [hv] at h
      exact cached_of_none h
  | false =>
      rw [hv] at h
      exact cached_of_missing h

theorem cached_ne_live (h : ∀ id, s.source.repo.get key ≠ some (.live id)) (i : Instance) :
    s.cached key ≠ some (.live i) := by
  cases hget : s.source.repo.get key with
  | none => simp [cached_of_none hget]
  | some slot =>
      cases slot with
      | missing => simp [cached_of_missing hget]
      | live id => exact absurd hget (h id)

theorem cached_congr (hslot : s'.source.repo.get key = s.source.repo.get key)
    (hinstances : ∀ id, s.source.repo.get key = some (.live id) →
      s'.instances[id]? = s.instances[id]?) : s'.cached key = s.cached key := by
  rw [cached, cached, hslot]
  cases hget : s.source.repo.get key with
  | none => rfl
  | some slot =>
      cases slot with
      | missing => rfl
      | live id =>
          dsimp only
          rw [hinstances id hget]

end Cached

/-! ## Guarded sources -/

/-- A source at work in which a condition holds of every key. -/
structure Guarded (p : Deposit) (ht : p.table ≠ .none → p.type.Files p.inUse)
    (before : Storage) (stopped : Bool) (I : KeyLaw) (s : Scope) : Prop where
  roster : Roster p s.source.repo s.instances
  caching : s.source.repo.volatile = p.model.volatile
  works : s.Works p stopped
  shelves : s.Shelves p ht (fun _ => False) before
  keys : ∀ key, p.inUse key → I s.ledger key (s.cached key)

section Guarded

variable {p : Deposit} {ht : p.table ≠ .none → p.type.Files p.inUse} {before : Storage}
  {stopped later : Bool} {I I' : KeyLaw} {s s' : Scope} {key : Key} {id : Nat} {i : Instance}

theorem Guarded.model (h : s.Guarded p ht before stopped I) : s.source.info.model = p.model :=
  h.works.model

theorem Guarded.mono (h : s.Guarded p ht before stopped I)
    (hI : ∀ key, p.inUse key → I s.ledger key (s.cached key) → I' s.ledger key (s.cached key)) :
    s.Guarded p ht before stopped I' :=
  ⟨h.roster, h.caching, h.works, h.shelves, fun key hused => hI key hused (h.keys key hused)⟩

/-- Less may be known of the workers of a source that is closed. -/
theorem Guarded.weaken (h : s.Guarded p ht before stopped I) : s.Guarded p ht before true I :=
  ⟨h.roster, h.caching, ⟨h.works.model, h.works.table, (fun hno => by cases hno), h.works.manned⟩,
    h.shelves, h.keys⟩

theorem Guarded.cached_eq_none_iff (h : s.Guarded p ht before stopped I) (hused : p.inUse key) :
    s.cached key = none ↔ s.source.repo.get key = none := by
  refine ⟨fun hcached => ?_, cached_of_none⟩
  cases hget : s.source.repo.get key with
  | none => rfl
  | some slot =>
      cases slot with
      | missing =>
          rw [cached_of_missing hget] at hcached
          cases hcached
      | live id =>
          obtain ⟨i, hi, -⟩ := h.roster.live key id hused hget
          rw [cached_of_live hget hi] at hcached
          cases hcached

/-- Nothing happens to what is pending as long as saver and table are the same. -/
theorem carries_of_source (hsaver : s'.source.saver = s.source.saver)
    (hrows : s'.storage.rows p.table = s.storage.rows p.table) (key : Key) :
    Ledger.Carries p.domain s.ledger s'.ledger key := by
  refine .of_eq ?_ hrows key
  simp only [Scope.ledger, hsaver]

/-- A step that is about one key. -/
theorem Guarded.of_key (h : s.Guarded p ht before stopped I) (hI : I.Calm p) (key : Key)
    (hroster : Roster p s'.source.repo s'.instances)
    (hcaching : s'.source.repo.volatile = s.source.repo.volatile) (hworks : s'.Works p later)
    (hshelves : s'.Shelves p ht (fun _ => False) before)
    (hothers : ∀ k, p.inUse k → k ≠ key →
      Ledger.Carries p.domain s.ledger s'.ledger k ∧ s'.cached k = s.cached k)
    (hmono : ∀ l k x, k ≠ key → I l k x → I' l k x)
    (hkey : p.inUse key → I' s'.ledger key (s'.cached key)) :
    s'.Guarded p ht before later I' := by
  refine ⟨hroster, hcaching.trans h.caching, hworks, hshelves, fun k hused => ?_⟩
  by_cases hk : k = key
  · subst hk
    exact hkey hused
  · obtain ⟨hcarries, hcached⟩ := hothers k hused hk
    rw [hcached]
    exact hmono _ k _ hk (hI.steady hused hcarries (h.keys k hused))

/-- The workers move commitments on. -/
theorem Guarded.of_moves (h : s.Guarded p ht before stopped I) (hI : I.Calm p)
    (hworks : s'.Works p later) (hmoves : Ledger.Moves p.domain s.ledger s'.ledger)
    (hcaching : s'.source.repo = s.source.repo)
    (hshelves : s'.Shelves p ht (fun _ => False) before) :
    s'.Guarded p ht before later I := by
  have hinstances : s'.instances = s.instances := hmoves.instances
  refine ⟨?_, hcaching ▸ h.caching, hworks, hshelves, fun key hused => ?_⟩
  · rw [hcaching, hinstances]
    exact h.roster
  · have hcached : s'.cached key = s.cached key :=
      cached_congr (by rw [hcaching]) fun id _ => by rw [hinstances]
    rw [hcached]
    exact hI.steady hused (hmoves.carries key hused) (h.keys key hused)

theorem Guarded.ignores (hI : I.Calm p) : Ignores p (Guarded p ht before stopped I) := by
  intro s instances storage h hcontent hsame
  refine ⟨h.roster.congr (fun _ _ _ => .rfl) (fun id i hcounts => hsame id i hcounts.type),
    h.caching,
    h.works.of_source rfl rfl rfl hcontent, (h.shelves.setStorage hcontent).setInstances instances,
    fun key hused => ?_⟩
  have hcached : (⟨s.source, instances, storage⟩ : Scope).cached key = s.cached key := by
    refine cached_congr rfl fun id hlive => ?_
    obtain ⟨i, hi, hcounts, -⟩ := h.roster.live key id hused hlive
    rw [hi]
    exact (hsame id i hcounts.type).mpr hi
  rw [hcached]
  exact hI.steady hused (carries_of_source (by rfl) (Storage.rows_congr hcontent) key)
    (h.keys key hused)

theorem Guarded.setStorage (h : s.Guarded p ht before stopped I) (hI : I.Calm p)
    {storage : Storage} (hcontent : storage.content p.table = s.storage.content p.table) :
    ({ s with storage } : Scope).Guarded p ht before stopped I :=
  Guarded.ignores hI s s.instances storage h hcontent fun _ _ _ => .rfl

/-! ## Fetching -/

/-- A new instance takes the slot of a key that is free. -/
theorem Guarded.add (h : s.Guarded p ht before stopped I) (hI : I.Calm p) (hi : i.Member p)
    (hfree : ∀ id, s.source.repo.get i.record.key ≠ some (.live id)) {repo : Repo Key Nat}
    (hcaching : repo.volatile = s.source.repo.volatile)
    (hslot : ∀ k, repo.get k =
      if i.record.key = k then some (.live s.instances.length) else s.source.repo.get k)
    (hs' : s' = { s with
      source := { s.source with repo }
      instances := s.instances ++ [i] })
    (hmono : ∀ l k x, k ≠ i.record.key → I l k x → I' l k x)
    (hkey : I s'.ledger i.record.key (s.cached i.record.key) →
      I' s'.ledger i.record.key (some (.live i))) :
    s'.Guarded p ht before stopped I' := by
  subst hs'
  refine h.of_key hI i.record.key (h.roster.add hi hfree hslot) hcaching
    (h.works.of_source rfl rfl rfl rfl) ((h.shelves.setRepo repo).setInstances _) ?_ hmono ?_
  · intro k hused hk
    refine ⟨carries_of_source (by rfl) (by rfl) k,
      cached_congr ((hslot k).trans (if_neg (Ne.symm hk))) ?_⟩
    intro id hlive
    exact List.getElem?_append_left (h.roster.lt_of_live hused hlive)
  · intro hused
    rw [cached_of_live (i := i) ((hslot _).trans (if_pos rfl)) (by simp)]
    exact hkey (hI.steady hused (carries_of_source (by rfl) (by rfl) _) (h.keys _ hused))

/-- What is found of a key is published. -/
theorem Guarded.publish (h : s.Guarded p ht before stopped I) (hI : I.Calm p)
    {data : Option Json} (hfinds : p.Finds s.storage key data) :
    (s.publish key data).2.Guarded p ht before stopped I := by
  cases hget : s.source.repo.get key with
  | some slot =>
      rw [publish_of_cached hget]
      exact h
  | none =>
      have hroster := h.roster.publish h.works.type_eq hfinds
      have hcached := cached_of_none hget
      cases data with
      | none =>
          rw [publish_of_absent hget] at hroster ⊢
          have hslot := fun k => (Repo.get_setOnFetch_none hget k).2.2
          refine h.of_key hI key hroster (Repo.get_setOnFetch_none hget key).2.1
            (h.works.of_source rfl rfl rfl rfl) (h.shelves.setRepo _) ?_ (fun _ _ _ _ hx => hx) ?_
          · intro k _ hk
            refine ⟨carries_of_source (by rfl) (by rfl) k, cached_congr ?_ fun _ _ => rfl⟩
            exact (hslot k).trans (if_neg fun hno => hk hno.2.symm)
          · intro hused
            have hold : I s.ledger key none := hcached ▸ h.keys key hused
            rw [cached_of_absence (p := p)]
            · exact hI.absent hused hfinds.2
                (hI.steady hused (carries_of_source (by rfl) (by rfl) key) hold)
            · refine (hslot key).trans ?_
              rw [h.caching, hget]
              cases p.model.volatile <;> simp
      | some data =>
          obtain ⟨hused, hdata, hkey, row, hrow, hread⟩ := hfinds
          have htype := h.works.type_eq
          have hikey : (Record.load s.type data).key = key := by
            rw [htype]
            exact hkey
          have hmember := Instance.member_load hdata (hkey ▸ hused) [s.birth]
          rw [← htype] at hmember
          refine h.add (i := ⟨.load s.type data, [s.birth]⟩) hI hmember ?_
            (Repo.get_setOnFetch_some hget s.instances.length key).2.1 (fun k => ?_)
            (congrArg Prod.snd (publish_of_found hget data)) (fun _ _ _ _ hx => hx) ?_
          · intro id
            rw [hikey, hget]
            simp
          · rw [hikey]
            exact (Repo.get_setOnFetch_some hget s.instances.length k).2.2
          · rw [publish_of_found hget, hikey, hcached, htype]
            exact hI.found [s.birth] hused hrow hread hdata hkey

theorem Guarded.publishes {ids : List Nat} (h : s.Guarded p ht before stopped I) (hI : I.Calm p)
    (hpublishes : Publishes p s ids s') : s'.Guarded p ht before stopped I :=
  hpublishes.induct h fun _ _ _ hs hfinds => hs.publish hI hfinds

theorem Guarded.find (h : s.Guarded p ht before stopped I) (hI : I.Calm p) (filter : Document) :
    (s.find filter).2.Guarded p ht before stopped I := by
  have hread : (s.searched filter).Guarded p ht before stopped I :=
    h.setStorage hI (Storage.content_read _ _ _ _ _)
  rcases find_cases_of_shelves h.shelves filter with ⟨e, hresult⟩ | ⟨ids, s', hpublishes, hresult⟩
  · rw [hresult]
    exact hread
  · rw [hresult]
    exact hread.publishes hI hpublishes

theorem Guarded.getMulti (h : s.Guarded p ht before stopped I) (hI : I.Calm p) {keys : List Key}
    (hused : ∀ key ∈ keys, p.inUse key) :
    (s.getMulti keys).2.Guarded p ht before stopped I := by
  have hread : (s.fetchedMulti (s.source.repo.getMulti keys).2).Guarded p ht before stopped I :=
    h.setStorage hI (Storage.content_read _ _ _ _ _)
  rcases getMulti_cases_of_shelves h.shelves hused with
    hresult | ⟨e, hresult⟩ | ⟨ids, s', hpublishes, hresult⟩
  · rw [hresult]
    exact h
  · rw [hresult]
    exact hread
  · rw [hresult]
    exact hread.publishes hI hpublishes

theorem Guarded.get (h : s.Guarded p ht before stopped I) (hI : I.Calm p) (hused : p.inUse key) :
    (s.get key).2.Guarded p ht before stopped I := by
  cases hget : s.source.repo.get key with
  | some slot =>
      have hresult : s.get key = (.ok slot.live?, s) := by simp [Scope.get, hget]
      rw [hresult]
      exact h
  | none =>
      have hread : (s.fetched key).Guarded p ht before stopped I :=
        h.setStorage hI (Storage.content_read _ _ _ _ _)
      rcases get_cases_of_shelves h.shelves hused hget with ⟨e, hresult, -⟩ | ⟨data, hfinds, hresult⟩
      · rw [hresult]
        exact hread
      · rw [hresult]
        exact hread.publish hI hfinds

/-- A key that a fetch does not find has no row, if that is not remembered. -/
theorem row_of_get_none {untouched : Key → Prop} (h : s.Shelves p ht untouched before)
    (hused : p.inUse key) (hnone : (s.get key).1 = .ok none)
    (hfree : (s.get key).2.source.repo.get key = none) :
    ((s.get key).2.storage.rows p.table).get? key.text = none := by
  cases hget : s.source.repo.get key with
  | some slot =>
      have hresult : s.get key = (.ok slot.live?, s) := by simp [Scope.get, hget]
      rw [hresult] at hfree
      rw [hget] at hfree
      cases hfree
  | none =>
      have hget' : (s.fetched key).source.repo.get key = none := hget
      rcases get_cases_of_shelves h hused hget with ⟨e, hresult, -⟩ | ⟨data, hfinds, hresult⟩
      · rw [hresult] at hnone
        cases hnone
      · rw [hresult] at hnone ⊢
        cases data with
        | none =>
            rw [publish_of_absent hget']
            exact hfinds.2
        | some data =>
            rw [publish_of_found hget'] at hnone
            cases hnone

/-- A creation fails after a fetch, or its instance takes the slot of a key that has no
row. -/
theorem Guarded.create (h : s.Guarded p ht before stopped I) (hI : I.Calm p) {data : Json}
    (hdata : p.type.Holds data) (hused : p.inUse (p.type.keyOf data)) (tmp : Bool) :
    ((s.create data { tmp }).1.toOption = none ∧
      (s.create data { tmp }).2.Guarded p ht before stopped I) ∨
    (∃ id, (s.create data { tmp }).1 = .ok id) ∧
      ∀ I' : KeyLaw, (∀ l k x, k ≠ p.type.keyOf data → I l k x → I' l k x) →
        (∀ l x, (∀ i, x ≠ some (.live i)) →
          (x = none → (l.table.rows p.table).get? (p.type.keyOf data).text = none) →
          I l (p.type.keyOf data) x → I' l (p.type.keyOf data)
            (some (.live ⟨newRecord p.type data { tmp }, [.create]⟩))) →
        (s.create data { tmp }).2.Guarded p ht before stopped I' := by
  have hgot := h.get hI hused
  have hcases := create_cases s data tmp
  rw [h.works.type_eq] at hcases
  rcases hcases with ⟨e, -, hresult⟩ | ⟨id, -, hresult⟩ | ⟨hnone, hresult⟩
  · rw [hresult]
    exact .inl ⟨rfl, hgot⟩
  · rw [hresult]
    exact .inl ⟨rfl, hgot⟩
  · right
    have hfree := free_of_get_none hnone
    have hstore := fun k => Repo.get_setOnStore_of_free hfree
      (s.get (p.type.keyOf data)).2.instances.length k
    rw [hresult]
    refine ⟨⟨_, rfl⟩, fun I' hmono hkey => ?_⟩
    refine hgot.add hI (Instance.member_new hdata hused tmp [.create]) hfree
      (hstore (p.type.keyOf data)).2.1 (fun k => (hstore k).2.2) rfl hmono
      (hkey _ _ (cached_ne_live hfree) fun hcached => ?_)
    exact row_of_get_none h.shelves hused hnone ((hgot.cached_eq_none_iff hused).mp hcached)

/-! ## Editing and expiring -/

/-- An instance is changed; what is cached of its key is that, if it is the live one. -/
theorem Guarded.set (h : s.Guarded p ht before stopped I) (hI : I.Calm p)
    (hi : s.instances[id]? = some i) {i' : Instance}
    (hroster : Roster p s.source.repo (s.instances.set id i'))
    (hkey : ∀ l, i.Member p → I l i.record.key (some (.live i)) →
      I l i.record.key (some (.live i'))) :
    ({ s with instances := s.instances.set id i' } : Scope).Guarded p ht before stopped I := by
  refine ⟨hroster, h.caching, h.works.of_source rfl rfl rfl rfl, h.shelves.setInstances _, ?_⟩
  intro key hused
  have hlaw : I ({ s with instances := s.instances.set id i' } : Scope).ledger key (s.cached key) :=
    hI.steady hused (carries_of_source (by rfl) (by rfl) key) (h.keys key hused)
  by_cases hlive : s.source.repo.get key = some (.live id)
  · obtain ⟨i₀, hi₀, hcounts, rfl⟩ := h.roster.live key id hused hlive
    obtain rfl : i₀ = i := Option.some.inj (hi₀.symm.trans hi)
    have hnew : ({ s with instances := s.instances.set id i' } : Scope).cached i₀.record.key =
        some (.live i') :=
      cached_of_live hlive (List.getElem?_set_self (List.getElem?_eq_some_iff.mp hi).1)
    rw [cached_of_live hlive hi] at hlaw
    rw [hnew]
    exact hkey _ (h.roster.members id i₀ hi hcounts) hlaw
  · have hcached : ({ s with instances := s.instances.set id i' } : Scope).cached key =
        s.cached key := by
      refine cached_congr rfl fun id' hlive' => List.getElem?_set_ne fun heq => hlive ?_
      rw [heq]
      exact hlive'
    rw [hcached]
    exact hlaw

theorem Guarded.edit (h : s.Guarded p ht before stopped I) (hI : I.Calm p)
    (hi : s.instances[id]? = some i) (htype : i.record.type = p.type) (e : Edit)
    (hholds : p.type.Holds (i.record.edit e).data)
    (hkey : (i.record.edit e).key = i.record.key) :
    ({ s with instances := s.instances.set id { i with record := i.record.edit e } } :
      Scope).Guarded p ht before stopped I := by
  obtain ⟨hsame, hedit⟩ := i.record.edit_editsTo e
  refine h.set hI hi ?_ fun l hmember hlaw => hI.edited hmember hedit hlaw
  by_cases hknown : i.record.header.expired = false
  · exact h.roster.edit hi ⟨htype, hknown⟩ e hholds hkey
  · refine h.roster.set_of_not_counts hi (fun hcounts => hknown hcounts.known) fun hcounts => ?_
    exact hknown (hedit.expired.symm.trans hcounts.known)

/-- What becomes of the instances when a key expires. -/
theorem expire_cases (s : Scope) (key : Key) :
    ((∀ id i, s.source.repo.get key = some (.live id) → s.instances[id]? ≠ some i) ∧
      (s.expire key).2 = s.setRepo (s.source.repo.expire key).2) ∨
    ∃ id i, s.source.repo.get key = some (.live id) ∧ s.instances[id]? = some i ∧
      (s.expire key).2 = (s.setRepo (s.source.repo.expire key).2).setInstance id
        { i with record := { i.record with header := i.record.header.setExpired } } := by
  have hfirst : (s.source.repo.expire key).1 = (s.source.repo.get key).bind (·.live?) := rfl
  have hnone : (s.source.repo.expire key).1 = none →
      (s.expire key).2 = s.setRepo (s.source.repo.expire key).2 := by
    intro hcached
    simp only [expire, hcached]
  cases hget : s.source.repo.get key with
  | none =>
      rw [hget] at hfirst
      exact .inl ⟨(fun _ _ hno => by cases hno), hnone hfirst⟩
  | some slot =>
      rw [hget] at hfirst
      cases slot with
      | missing => exact .inl ⟨(fun _ _ hno => by cases hno), hnone hfirst⟩
      | live id =>
          have hcached : (s.source.repo.expire key).1 = some id := hfirst
          cases hi : s.instances[id]? with
          | none =>
              have hi' : (s.setRepo (s.source.repo.expire key).2).instances[id]? = none := hi
              left
              refine ⟨?_, by simp only [expire, hcached, hi']⟩
              rintro id' i ⟨⟩
              rw [hi]
              exact Option.some_ne_none i |>.symm
          | some i =>
              have hi' : (s.setRepo (s.source.repo.expire key).2).instances[id]? = some i := hi
              exact .inr ⟨id, i, rfl, hi, by simp only [expire, hcached, hi']⟩

/-- What is cached of a key is forgotten, and its instance is marked. -/
theorem Guarded.expire (h : s.Guarded p ht before stopped I) (hI : I.Calm p)
    (hused : p.inUse key) (hkey : I s.ledger key (s.cached key) → I s.ledger key none) :
    (s.expire key).2.Guarded p ht before stopped I := by
  have hcaching := (s.source.repo.get_expire key key).2.1
  have hslot := fun k => (s.source.repo.get_expire key k).2.2
  have hself : (s.source.repo.expire key).2.get key = none := (hslot key).trans (if_pos rfl)
  have hlaw := hkey (h.keys key hused)
  rcases expire_cases s key with ⟨hnot, hresult⟩ | ⟨id, i, hlive, hi, hresult⟩
  · rw [hresult]
    refine h.of_key hI key (h.roster.evict hused hslot fun id i hcounts => ?_) hcaching
      (h.works.of_source rfl rfl rfl rfl) (h.shelves.setRepo _) ?_ (fun _ _ _ _ hx => hx) ?_
    · exact ⟨fun hi => ⟨hi, fun hlive => hnot id i hlive hi⟩, fun hi => hi.1⟩
    · intro k _ hk
      refine ⟨carries_of_source (by rfl) (by rfl) k, cached_congr ?_ fun _ _ => rfl⟩
      exact (hslot k).trans (if_neg (Ne.symm hk))
    · intro _
      rw [cached_of_none hself]
      exact hI.steady hused (carries_of_source (by rfl) (by rfl) key) hlaw
  · have hlt := (List.getElem?_eq_some_iff.mp hi).1
    rw [hresult]
    refine h.of_key hI key (h.roster.evict hused hslot fun id' x hcounts => ?_) hcaching
      (h.works.of_source rfl rfl rfl rfl) ((h.shelves.setRepo _).setInstances _) ?_
      (fun _ _ _ _ hx => hx) ?_
    · by_cases hid : id = id'
      · subst hid
        constructor
        · intro hx
          obtain rfl := Option.some.inj ((List.getElem?_set_self hlt).symm.trans hx)
          exact absurd hcounts.known (by simp [Header.setExpired])
        · exact fun hx => absurd hlive hx.2
      · have hother : s.source.repo.get key ≠ some (.live id') := by
          rw [hlive]
          simpa using hid
        have hsame : ((s.setRepo (s.source.repo.expire key).2).setInstance id
            { i with record := { i.record with header := i.record.header.setExpired } }).instances[
              id']? = s.instances[id']? := List.getElem?_set_ne hid
        rw [hsame]
        exact ⟨fun hx => ⟨hx, hother⟩, fun hx => hx.1⟩
    · intro k hk hne
      refine ⟨carries_of_source (by rfl) (by rfl) k,
        cached_congr ((hslot k).trans (if_neg (Ne.symm hne))) fun id' hlive' => ?_⟩
      refine List.getElem?_set_ne fun hid => hne ?_
      exact h.roster.key_unique hk hused hlive' (hid ▸ hlive)
    · intro _
      rw [cached_of_none hself]
      exact hI.steady hused (carries_of_source (by rfl) (by rfl) key) hlaw

/-! ## Saving -/

/-- A save of an instance without changes is about its slot alone. -/
theorem Guarded.save_clean (h : s.Guarded p ht before stopped I) (hI : I.Calm p)
    (hi : s.instances[id]? = some i) (hcounts : i.Counts p)
    (hclean : i.record.header.dirty = false) : (s.save id).2.Guarded p ht before stopped I := by
  have hmember := h.roster.members id i hi hcounts
  have hroster := (h.roster.save hi hcounts).1
  rw [h.roster.save_eq_commit hi hcounts] at hroster ⊢
  rw [commit_of_clean hclean hmember.attached] at hroster ⊢
  by_cases hgone : i.record.lifecycle = .unavailable
  · rw [if_pos hgone] at hroster ⊢
    have hslot := fun k => (s.source.repo.get_setOnDelete_any i.record.key id k).2
    refine h.of_key hI i.record.key hroster
      (s.source.repo.get_setOnDelete_any i.record.key id i.record.key).1
      (h.works.of_source rfl rfl rfl rfl) (h.shelves.setRepo _) ?_ (fun _ _ _ _ hx => hx) ?_
    · intro k _ hk
      refine ⟨carries_of_source (by rfl) (by rfl) k, cached_congr ?_ fun _ _ => rfl⟩
      exact (hslot k).trans (if_neg fun hno => hk hno.2.symm)
    · intro hused
      have hlaw : I (s.setRepo (s.source.repo.setOnDelete i.record.key id).2).ledger i.record.key
          (s.cached i.record.key) :=
        hI.steady hused (carries_of_source (by rfl) (by rfl) _) (h.keys _ hused)
      by_cases hlive : s.source.repo.get i.record.key = some (.live id)
      · rw [cached_of_live hlive hi] at hlaw
        rw [cached_of_absence (p := p)]
        · exact hI.forgotten hgone hlaw
        · rw [← h.caching]
          exact (hslot _).trans (if_pos ⟨hlive, rfl⟩)
      · have hcached : (s.setRepo (s.source.repo.setOnDelete i.record.key id).2).cached
            i.record.key = s.cached i.record.key :=
          cached_congr ((hslot _).trans (if_neg fun hno => hlive hno.1)) fun _ _ => rfl
        rw [hcached]
        exact hlaw
  · rw [if_neg hgone]
    exact h

/-- A save of an instance with changes puts its commit into the lane of its key.  It is the
live one, and stays so unless it is gone by that. -/
theorem Guarded.save_dirty (h : s.Guarded p ht before false I) (hI : I.Calm p)
    (hd : p.domain.Distinct) (hi : s.instances[id]? = some i) (hcounts : i.Counts p)
    (hdirty : i.record.header.dirty = true) :
    ∃ l l' j events, I l i.record.key (some (.live i)) ∧ Ledger.Puts l i j l' ∧
      ∀ I' : KeyLaw, I'.Calm p → (∀ l k x, k ≠ i.record.key → I l k x → I' l k x) →
        I' l' i.record.key (if i.record.lifecycle.isGone then p.absence
          else some (.live (Ledger.committed i (some j) events))) →
        (s.save id).2.Guarded p ht before false I' := by
  have hmember := h.roster.members id i hi hcounts
  have hlt := (List.getElem?_eq_some_iff.mp hi).1
  have hlive := h.roster.live_of_dirty hi hcounts hdirty
  obtain ⟨hroster, -, hcaching, hslot⟩ := h.roster.save hi hcounts
  have hshelves := Shelves.save h.shelves h.roster hi hcounts fun _ hno => hno.elim
  obtain ⟨saver, w₁, t₁, place, j, v, hsaver, hmoves, hw₁, hlive₁, hplace, hput, hputSaver⟩ :=
    h.works.exists_put hd i
  obtain ⟨events, hledger, hinfo, htable⟩ :=
    ledger_commit id hdirty hmember.attached hsaver hputSaver
  have hn : (s.ledger.setWorker (s.ledger.laneOf i.record.key) w₁ t₁).laneOf i.record.key =
      s.ledger.laneOf i.record.key := Ledger.laneOf_setWorker _ _ _ _ _
  have hsound : i.record.capture.Sound := by
    have hholds := hmember.holds
    rw [← hmember.type] at hholds
    exact hholds
  have hmanned := hmoves.manned.put hw₁ hput hsound hmember.used hn
  -- What the save leaves of the saver and the table is what the put leaves.
  have hworkers : (s.save id).2.ledger.workers =
      ((s.ledger.setWorker (s.ledger.laneOf i.record.key) w₁ t₁).setWorker
        (s.ledger.laneOf i.record.key) v t₁).workers := by
    rw [h.roster.save_eq_commit hi hcounts, hledger]
    simp [Ledger.setWorker, Ledger.settleInstance, List.set_set]
  have hstored : (s.save id).2.ledger.table = t₁ := by
    rw [h.roster.save_eq_commit hi hcounts, hledger]
    rfl
  have hinstances : (s.save id).2.instances =
      s.instances.set id (Ledger.committed i (some j) events) := by
    rw [h.roster.save_eq_commit hi hcounts]
    exact congrArg Ledger.instances hledger
  refine ⟨_, _, j, events, ?_, .put hw₁ hn hplace hput, fun I' hI' hmono hkey => ?_⟩
  · have hlaw := hI.steady hmember.used (hmoves.carries _ hmember.used) (h.keys _ hmember.used)
    rwa [cached_of_live hlive hi] at hlaw
  refine h.of_key hI i.record.key hroster hcaching ⟨?_, ?_, fun _ x hx => ?_, ?_⟩ hshelves ?_
    hmono ?_
  · rw [h.roster.save_eq_commit hi hcounts, hinfo]
    exact h.works.model
  · rw [h.roster.save_eq_commit hi hcounts, htable]
    exact h.works.table
  · rw [hworkers] at hx
    rcases List.mem_or_eq_of_mem_set hx with hx | rfl
    · rcases List.mem_or_eq_of_mem_set hx with hx | rfl
      · exact h.works.live rfl x hx
      · exact hlive₁
    · exact hlive₁.put hput
  · have hgood : p.domain.Good (s.save id).2.ledger.table := by
      rw [hstored]
      exact hmanned.good
    refine ⟨?_, hgood, fun m x hx => ?_⟩
    · rw [hworkers]
      exact hmanned.staffed
    · rw [hworkers] at hx
      exact (hmanned.lanes m x hx).of_eq hworkers hgood
  · intro k hused hk
    refine ⟨((hmoves.carries k hused).trans
      (Ledger.carries_put hd hw₁ hput hmember.used hused hk)).trans (.of_eq hworkers ?_ k), ?_⟩
    · rw [hstored]
      rfl
    · refine cached_congr ((hslot k).trans (if_neg fun hno => hk hno.2.2.symm)) fun id' hlive' => ?_
      rw [hinstances]
      refine List.getElem?_set_ne fun hid => hk ?_
      exact h.roster.key_unique hused hmember.used hlive' (hid ▸ hlive)
  · intro hused
    have hcached : (s.save id).2.cached i.record.key =
        if i.record.lifecycle.isGone then p.absence
        else some (.live (Ledger.committed i (some j) events)) := by
      cases hgone : i.record.lifecycle.isGone with
      | true =>
          refine cached_of_absence ((hslot _).trans ?_)
          rw [if_pos ⟨hgone, hlive, rfl⟩, h.caching]
      | false =>
          have hstays : (s.save id).2.source.repo.get i.record.key = some (.live id) := by
            rw [hslot, if_neg fun hno => Bool.false_ne_true (hgone.symm.trans hno.1)]
            exact hlive
          refine cached_of_live hstays ?_
          rw [hinstances]
          exact List.getElem?_set_self hlt
    rw [hcached]
    refine hI'.steady hused (.of_eq hworkers ?_ _) hkey
    rw [hstored]
    rfl

theorem Guarded.sync (h : (s.save id).2.Guarded p ht before stopped I) (hI : I.Calm p)
    (hd : p.domain.Distinct) : (s.sync id).2.Guarded p ht before stopped I := by
  obtain ⟨hworks, hmoves⟩ := h.works.sync hd
  exact h.of_moves hI hworks hmoves hmoves.repo (Hauls.sync h.shelves).1

theorem Guarded.deliver (h : s.Guarded p ht before stopped I) (hI : I.Calm p)
    (hd : p.domain.Distinct) (n : Nat) (a : DeliveryStep) :
    (s.deliver n a).Guarded p ht before stopped I := by
  obtain ⟨hworks, hmoves⟩ := h.works.deliver hd n a
  exact h.of_moves hI hworks hmoves hmoves.repo (h.shelves.deliver n a)

theorem Guarded.syncAll (h : s.Guarded p ht before stopped I) (hI : I.Calm p)
    (hd : p.domain.Distinct) : s.syncAll.2.Guarded p ht before stopped I := by
  obtain ⟨hworks, hmoves, -⟩ := h.works.syncAll hd
  exact h.of_moves hI hworks hmoves hmoves.repo h.shelves.syncAll

theorem Guarded.close (h : s.Guarded p ht before stopped I) (hI : I.Calm p)
    (hd : p.domain.Distinct) : s.close.Guarded p ht before true I := by
  obtain ⟨hworks, hmoves, -⟩ := h.works.close hd
  exact h.of_moves hI hworks hmoves hmoves.repo h.shelves.close

end Guarded

end Scope

end WriteBehind
