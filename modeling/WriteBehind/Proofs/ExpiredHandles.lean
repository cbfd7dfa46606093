import WriteBehind.Proofs.DrySetups
import WriteBehind.Proofs.SlotHistory

/-!
# Saves that are refused, and handles that have expired

Whether a save is refused depends on what is cached under the key of its record alone, and a
save that is refused or not made leaves everything as it is (`Cache.save_decided`).

An instance that was evicted when its key expired is gone for good: no save of it does
anything any more, and no slot comes to lead to it again.  It may still be in a slot other
than the one that it was taken from.  For that it must have been cached under a key that is
not its own, so if keys have stayed with their records, it is in no slot at all
(`Cache.Continues.saves_and_evictions`).
-/

namespace WriteBehind

namespace Scope

/-! ## What a save decides -/

/-- Whether another instance is live under the key that an instance would be cached under
before it is saved. -/
def Shadows (s : Scope) (id : Nat) (i : Instance) : Prop :=
  i.record.header.expired = false ∧ i.record.header.detached = false ∧
    i.record.lifecycle = .normal ∧
    ∃ other, other ≠ id ∧ s.source.repo.get i.record.key = some (.live other)

section Saves

variable {s : Scope} {id : Nat} {i : Instance}

/-- A save of an expired instance is not made. -/
theorem save_of_expired (hi : s.instances[id]? = some i) (h : i.record.header.expired = true) :
    s.save id = (.ok false, s) := by
  simp [save, hi, h]

/-- A save of an instance whose key another one has taken is refused. -/
theorem save_of_shadowed (hi : s.instances[id]? = some i) (h : s.Shadows id i) :
    s.save id = (.error (s.duplicate i.record.key), s) := by
  obtain ⟨hfresh, hattached, hnormal, other, hne, hlive⟩ := h
  have hstore : s.source.repo.setOnStore i.record.key id = (false, s.source.repo) := by
    simp [Repo.setOnStore, hlive, hne]
  have hlifecycle : i.record.header.lifecycle = .normal := hnormal
  simp [save, hi, hfresh, hattached, hlifecycle, hstore]

theorem commit_fst (s : Scope) (id : Nat) (i : Instance) :
    (s.commit id i).1 = i.record.header.dirty := by
  cases hdirty : i.record.header.dirty with
  | false =>
      simp only [commit, Record.commit_of_clean hdirty]
      split <;> rfl
  | true =>
      simp only [commit, Record.commit_of_dirty hdirty]
      split <;> rfl

/-- Any other save tells whether there was something to commit. -/
theorem save_of_unshadowed (hi : s.instances[id]? = some i)
    (hfresh : i.record.header.expired = false) (h : ¬ s.Shadows id i) :
    (s.save id).1 = .ok i.record.header.dirty := by
  simp only [save, hi, hfresh, Bool.false_eq_true, if_false]
  split
  next hstored =>
    obtain ⟨hattached, hnormal⟩ : i.record.header.detached = false ∧
        i.record.header.lifecycle = .normal := by simpa using hstored
    have hkept : (s.source.repo.setOnStore i.record.key id).1 = true := by
      by_cases hfree : ∀ other, s.source.repo.get i.record.key ≠ some (.live other)
      · exact (Repo.get_setOnStore_of_free hfree id i.record.key).1
      · simp only [ne_eq, not_forall, not_not] at hfree
        obtain ⟨other, hlive⟩ := hfree
        have hsame : other = id := by
          by_contra hne
          exact h ⟨hfresh, hattached, hnormal, other, hne, hlive⟩
        rw [Repo.setOnStore_of_live (hsame ▸ hlive)]
    simp only [hkept, if_true, commit_fst]
  · simp only [commit_fst]

end Saves

end Scope

namespace Cache

variable {c : Cache} {model : Model} {ns : String} {source : Source}

/-- What a save of an instance decides.  It is refused exactly if the instance has not
expired, is not detached, is stored, and another one is live under its key.  A refused save
changes nothing, and neither does that of an expired instance.  Any other one tells whether
the record was dirty. -/
structure SaveDecided (c : Cache) (model : Model) (source : Source) (id : Nat) (i : Instance) :
    Prop where
  refused_iff : (∃ e, (c.save model id).1 = .error e) ↔ (c.scope source).Shadows id i
  refused : (c.scope source).Shadows id i → c.save model id =
    (.error (.error (.duplicate source.info.ns i.record.key.text)), c)
  skipped : i.record.header.expired = true → c.save model id = (.ok false, c)
  made : i.record.header.expired = false → ¬ (c.scope source).Shadows id i →
    (c.save model id).1 = .ok i.record.header.dirty

theorem save_decided (hsource : c.source model model.record.ns = .ok source) {id : Nat}
    {i : Instance} (hi : c.instances[id]? = some i) : c.SaveDecided model source id i := by
  obtain ⟨hget, -⟩ := source_eq_ok hsource
  have hsave : c.save model id = (((c.scope source).save id).1.mapError .error,
      c.adopt model.record.ns ((c.scope source).save id).2) := by
    simp only [save, within, hsource]
  have hskipped : i.record.header.expired = true → c.save model id = (.ok false, c) := by
    intro hexpired
    rw [hsave, Scope.save_of_expired hi hexpired, adopt_scope hget]
    rfl
  have hrefused : (c.scope source).Shadows id i → c.save model id =
      (.error (.error (.duplicate source.info.ns i.record.key.text)), c) := by
    intro hshadows
    rw [hsave, Scope.save_of_shadowed hi hshadows, adopt_scope hget]
    rfl
  have hmade : i.record.header.expired = false → ¬ (c.scope source).Shadows id i →
      (c.save model id).1 = .ok i.record.header.dirty := by
    intro hfresh hno
    rw [hsave, Scope.save_of_unshadowed hi hfresh hno]
    rfl
  refine ⟨⟨?_, fun h => ⟨_, by rw [hrefused h]⟩⟩, hrefused, hskipped, hmade⟩
  rintro ⟨e, he⟩
  by_contra hno
  cases hexpired : i.record.header.expired with
  | true =>
      rw [hskipped hexpired] at he
      cases he
  | false =>
      rw [hmade hexpired hno] at he
      cases he

/-! ## Evictions -/

section Evictions

variable {r : Registry} {config : Configurator} {journal : Journal} {storage : Storage}
  {start : Cache} {orderly : Prop}

/-- The slots of a cache in which a key has expired. -/
theorem slot_of_expire (hsource : c.source model model.record.ns = .ok source) {key key' : Key}
    {id : Nat} {ns' : String} {source' : Source}
    (hget : (c.expire model key).2.sources.get? ns' = some source')
    (hlive : source'.repo.get key' = some (.live id)) :
    ∃ before, c.sources.get? ns' = some before ∧ before.repo.get key' = some (.live id) ∧
      (ns' = model.record.ns → key' ≠ key) := by
  obtain ⟨hown, -⟩ := source_eq_ok hsource
  simp only [expire, within, hsource] at hget
  by_cases hns : model.record.ns = ns'
  · subst hns
    rw [get?_adopt_self, Option.some.injEq] at hget
    have hslot : (source.repo.expire key).2.get key' = some (.live id) := by
      have hrepo : ((c.scope source).expire key).2.source.repo = (source.repo.expire key).2 := by
        simp only [Scope.expire]
        split
        · rfl
        · split <;> rfl
      rw [← hlive, ← hget, hrepo]
    rw [(source.repo.get_expire key key').2.2] at hslot
    split at hslot
    · cases hslot
    next hne => exact ⟨source, hown, hslot, fun _ heq => hne heq.symm⟩
  · rw [get?_adopt_of_ne c _ hns] at hget
    exact ⟨source', hget, hlive, fun heq => absurd heq.symm hns⟩

/-- In every state of a cache after a setup each save is decided by what is cached under the
key of its record.  An instance that is evicted when its key expires is never cached again:
whatever is asked of the cache from then on, its saves do nothing, and a slot that leads to it
is another one, which has led to it since before it was evicted.  There is no such slot if
keys have stayed with their records until then. -/
theorem Continues.saves_and_evictions (hsetup : setup r config journal storage = .ok start)
    (h : start.Continues orderly c) :
    (∀ (model : Model) (source : Source) (id : Nat) (i : Instance),
      c.source model model.record.ns = .ok source → c.instances[id]? = some i →
        c.SaveDecided model source id i) ∧
    ∀ (model : Model) (source : Source) (key : Key) (id : Nat) (after : Cache),
      c.source model model.record.ns = .ok source → source.repo.get key = some (.live id) →
      (c.expire model key).2.Continues False after →
        (∀ model', (after.save model' id).2 = after ∧
          ∀ source', after.source model' model'.record.ns = .ok source' →
            (after.save model' id).1 = .ok false) ∧
        ∀ ns source' key', after.sources.get? ns = some source' →
          source'.repo.get key' = some (.live id) →
            ¬ orderly ∧ (ns = model.record.ns → key' ≠ key) ∧
              ∃ before, c.sources.get? ns = some before ∧
                before.repo.get key' = some (.live id) := by
  refine ⟨fun model source id i hsource hi => save_decided hsource hi, ?_⟩
  intro model source key id after hsource hlive hafter
  obtain ⟨hget, hmodel⟩ := source_eq_ok hsource
  obtain ⟨hns, i, hi, hown⟩ := h.own_key hsetup hget hlive
  have hevicted : ∃ i', (c.expire model key).2.instances[id]? = some i' ∧
      i'.record.header.expired = true := by
    obtain ⟨-, i', hi', hexpired, -⟩ := Scope.expired_of_expire (s := c.scope source) hlive hi
    simp only [expire, within, hsource]
    exact ⟨i', hi', hexpired⟩
  obtain ⟨i₁, hi₁, hexpired₁⟩ := hevicted
  obtain ⟨⟨i₂, hi₂, hexpired₂⟩, hslots⟩ := hafter.expired hi₁ hexpired₁
  refine ⟨fun model' => ?_, fun ns source' key' hget' hlive' => ?_⟩
  · cases hsource' : after.source model' model'.record.ns with
    | error e =>
        simp only [save, within, hsource']
        exact ⟨trivial, fun _ heq => by cases heq⟩
    | ok source' =>
        have hskipped := (save_decided hsource' hi₂).skipped hexpired₂
        rw [hskipped]
        exact ⟨rfl, fun _ _ => rfl⟩
  · obtain ⟨mid, hmid, hlivemid⟩ := hslots ns source' key' hget' hlive'
    obtain ⟨before, hbefore, hlivebefore, hne⟩ := slot_of_expire hsource hmid hlivemid
    refine ⟨fun ho => ?_, hne, before, hbefore, hlivebefore⟩
    -- Both slots would be those of the key of the instance, in the source of its type.
    obtain ⟨hns', i', hi', hown'⟩ := h.own_key hsetup hbefore hlivebefore
    obtain rfl := Option.some.inj (hi.symm.trans hi')
    have htype : source.info.model.record = before.info.model.record :=
      (hown ho).1.symm.trans (hown' ho).1
    have hsame : ns = model.record.ns := by
      rw [← hns', ← hns]
      exact congrArg RecordType.ns htype.symm
    exact hne hsame ((hown' ho).2.symm.trans (hown ho).2)

end Evictions

end Cache

namespace Sample

/-- The first hero is fetched and saved. -/
def heroFetched (rows : Rows) : Cache :=
  ((soleCache hero rows).request hero (.get (heroNumber 1))).request hero (.save 0)

/-- Its key has expired. -/
def heroEvicted (rows : Rows) : Cache := ((heroFetched rows).expire hero (heroNumber 1)).2

/-- What is cached of a hero, in a cache of heroes. -/
def heroSlot (c : Cache) (key : Key) : Option (Option (Slot Nat)) :=
  (c.sources.get? "hero").map (·.repo.get key)

theorem exists_source_of_heroSlot {c : Cache} {key : Key} {slot : Option (Slot Nat)}
    (hslot : heroSlot c key = some slot) (hserves : (c.source hero "hero").toOption.isSome = true) :
    ∃ source, c.source hero "hero" = .ok source ∧ source.repo.get key = slot := by
  cases hsource : c.source hero "hero" with
  | error e =>
      rw [hsource] at hserves
      cases hserves
  | ok source =>
      rw [heroSlot, (Cache.source_eq_ok hsource).1] at hslot
      exact ⟨source, rfl, Option.some.inj hslot⟩

/-- The hero is in no slot after it was evicted, although it is fetched again. -/
theorem evicted_heroRows :
    Cache.setup (soleRegistry hero) inMemoryOnly noJournal (shelf "hero" heroRows) =
        .ok (soleCache hero heroRows) ∧
      heroSlot (heroFetched heroRows) (heroNumber 1) = some (some (.live 0)) ∧
      ((heroEvicted heroRows).request hero (.get (heroNumber 1))).save hero 0 =
        (.ok false, (heroEvicted heroRows).request hero (.get (heroNumber 1))) ∧
      ∀ ns source key,
        ((heroEvicted heroRows).request hero (.get (heroNumber 1))).sources.get? ns = some source →
          source.repo.get key ≠ some (.live 0) := by
  have hsetup := (@comparable_sole hero rfl heroRows).setup
  have hown : (soleCache hero heroRows).FindsOwn hero (heroNumber 1) := by
    intro source hget _ row data hrow hread
    obtain ⟨hmodel, htable⟩ := sources_soleCache hget
    have hkey : (hero.record.read (.ofDocument (heroDocument 1 3))).toOption.map
        hero.record.keyOf = some (heroNumber 1) := by
      decide +kernel
    have htype : ((soleCache hero heroRows).scope source).type = hero.record := by
      rw [Scope.type, Cache.scope, hmodel]
    rw [Cache.scope, htable] at hrow
    rw [htype] at hread ⊢
    rw [← Option.some.inj hrow] at hread
    rw [hread] at hkey
    exact Option.some.inj hkey
  have hgot : (soleCache hero heroRows).Continues True
      ((soleCache hero heroRows).request hero (.get (heroNumber 1))) :=
    .request .start hero fun _ => hown
  have hfetched : (soleCache hero heroRows).Continues True (heroFetched heroRows) := by
    refine hgot.request hero fun _ i hi => ?_
    have htypes : (((soleCache hero heroRows).request hero (.get (heroNumber 1))).instances.map
        (·.record.type)) = [hero.record] := by
      decide +kernel
    have htype := congrArg (·[0]?) htypes
    rw [List.getElem?_map, hi] at htype
    exact Option.some.inj htype
  have hslot : heroSlot (heroFetched heroRows) (heroNumber 1) = some (some (.live 0)) := by
    decide +kernel
  obtain ⟨source, hsource, hlive⟩ := exists_source_of_heroSlot hslot (by decide +kernel)
  have hafter : (heroEvicted heroRows).Continues False
      ((heroEvicted heroRows).request hero (.get (heroNumber 1))) :=
    .request .start hero False.elim
  obtain ⟨-, hevicted⟩ := Cache.Continues.saves_and_evictions hsetup hfetched
  obtain ⟨hsaves, hslots⟩ := hevicted hero source (heroNumber 1) 0 _ hsource hlive hafter
  refine ⟨hsetup, hslot, ?_, fun ns source key hget hlive' => ?_⟩
  · have hserves : (((heroEvicted heroRows).request hero (.get (heroNumber 1))).source hero
        "hero").toOption.isSome = true := by
      decide +kernel
    obtain ⟨hsame, hno⟩ := hsaves hero
    cases hsource' : ((heroEvicted heroRows).request hero (.get (heroNumber 1))).source hero
        "hero" with
    | error e =>
        rw [hsource'] at hserves
        cases hserves
    | ok source' => exact Prod.ext (hno source' hsource') hsame
  · exact (hslots ns source key hget hlive').1 trivial

/-- The second hero stands where the first one should. -/
def wrongRows : Rows := SortedMap.empty.insert "1" (heroDocument 2 3)

/-- The second hero is fetched as the first one, and cached as the second one too when it is
saved.  So it is found under its own key after it was evicted, though no key was ever
modified. -/
theorem exists_evicted_cached :
    Cache.setup (soleRegistry hero) inMemoryOnly noJournal (shelf "hero" wrongRows) =
        .ok (soleCache hero wrongRows) ∧
      (soleCache hero wrongRows).Continues False (heroFetched wrongRows) ∧
      heroSlot (heroFetched wrongRows) (heroNumber 1) = some (some (.live 0)) ∧
      ((heroEvicted wrongRows).instances[0]?).map (·.record.header.expired) = some true ∧
      heroSlot (heroEvicted wrongRows) (heroNumber 2) = some (some (.live 0)) ∧
      ((heroEvicted wrongRows).get hero (heroNumber 2)).1.toOption = some (some 0) := by
  refine ⟨(@comparable_sole hero rfl wrongRows).setup, ?_, by decide +kernel,
    by decide +kernel, by decide +kernel, by decide +kernel⟩
  exact (Cache.Continues.start.request hero False.elim).request hero False.elim

end Sample

end WriteBehind
