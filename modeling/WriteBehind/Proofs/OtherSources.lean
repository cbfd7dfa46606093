import WriteBehind.Proofs.ScopeWorkers

/-!
# Operations on other sources

An operation on a source reads and writes the table of the source, and makes and changes
instances of the source's type.  Nothing else is in its reach: the table of any other
source has the same content afterwards, and the instances of any other type are the same.
-/

namespace WriteBehind

variable {σ γ : Type}

/-! ## Savers -/

/-- Handing over commitments does not change what is seen of the storage. -/
def Save.Hides (save : Save σ) (view : σ → γ) : Prop :=
  ∀ cs running t, view (save cs running t).2 = view t

section Savers

variable {save : Save σ} {view : σ → γ}

namespace Worker

theorem view_flush (h : Save.Hides save view) (w : Worker) (t : σ) :
    view (w.flush save t).2 = view t := by
  cases hc : w.consumer with
  | saving b final =>
      have hflush : (w.flush save t).2 = (save b.entries w.running t).2 := by simp [flush, hc]
      rw [hflush]
      exact h b.entries w.running t
  | resting | waiting | recycling b aborted final | closing | ended => simp [flush, hc]

theorem view_advance (h : Save.Hides save view) (w : Worker) (t : σ) (a : DeliveryStep) :
    view (w.advance save t a).2 = view t := by
  cases a with
  | deliver =>
      cases hc : w.consumer with
      | saving b final =>
          have hdeliver : (w.advance save t .deliver).2 = (save b.entries w.running t).2 := by
            simp [advance, deliver, hc]
          rw [hdeliver]
          exact h b.entries w.running t
      | resting | waiting | recycling b aborted final | closing | ended =>
          simp [advance, deliver, hc]
  | _ => rfl

end Worker

namespace Saver

theorem view_mapWorkers {f : Worker → σ → Worker × σ} (hf : ∀ w t, view (f w t).2 = view t)
    (ws : List Worker) (t : σ) : view (mapWorkers f ws t).2 = view t := by
  induction ws generalizing t with
  | nil => rfl
  | cons w ws ih => exact (ih (f w t).2).trans (hf w t)

theorem view_put (h : Save.Hides save view) (s : Saver) (c : Commitment) (index : Option Nat)
    (t : σ) : view (s.put save c index t).2.2 = view t := by
  cases hw : s.workers[s.workerOf c.hash]? with
  | none => simp [put, hw]
  | some w =>
      simp only [put, hw, putWorker]
      cases hput : w.put c index with
      | placed i w' => rfl
      | refused => rfl
      | full =>
          have hroom : view (w.makeRoom save t).2 = view t :=
            (Worker.view_flush h (w.flush save t).1.poll _).trans (Worker.view_flush h w t)
          dsimp only
          cases hput' : (w.makeRoom save t).1.put c none with
          | placed i w' => exact hroom
          | refused => exact hroom
          | full => exact hroom

theorem view_syncAmong (h : Save.Hides save view) (ns : String) (ws : List Worker) (t : σ) :
    view (syncAmong save ns ws t).2.2 = view t := by
  rcases syncAmong_cases save ns ws t with ⟨e, hrefused⟩ | hturns
  · rw [hrefused]
  · rw [hturns]
    exact view_mapWorkers (fun w t => Worker.view_flush h w.request.poll t) ws t

theorem view_sync (h : Save.Hides save view) (s : Saver) (hash : Option UInt64) (t : σ) :
    view (s.sync save hash t).2.2 = view t := by
  cases hash with
  | none => exact view_syncAmong h s.ns s.workers t
  | some hash =>
      have hamong := view_syncAmong h s.ns (s.workers[s.workerOf hash]?.toList) t
      simp only [sync]
      split
      · exact hamong
      · exact hamong

theorem view_advance (h : Save.Hides save view) (s : Saver) (n : Nat) (a : DeliveryStep)
    (t : σ) : view (s.advance save n a t).2 = view t := by
  cases hw : s.workers[n]? with
  | none => simp [advance, hw]
  | some w =>
      simp only [advance, hw]
      exact Worker.view_advance h w t a

theorem view_close (h : Save.Hides save view) (s : Saver) (t : σ) :
    view (s.close save t).2 = view t :=
  view_mapWorkers (fun w t => Worker.view_flush h w.poll t) _ t

end Saver

end Savers

/-! ## Operations -/

theorem Storage.save_hides {other table : TableRef} (h : other ≠ table) :
    Save.Hides (Storage.save other) fun s => s.content table :=
  fun cs running s => content_save h cs running s

namespace Scope

/-- What a step leaves alone: a table and the instances of a type. -/
structure Aside (t : RecordType) (table : TableRef) (s s' : Scope) : Prop where
  source : s'.source.table = s.source.table
  content : s'.storage.content table = s.storage.content table
  instances : ∀ (id : Nat) (i : Instance), i.record.type = t →
    (s'.instances[id]? = some i ↔ s.instances[id]? = some i)

section Aside

variable {t : RecordType} {table : TableRef} {s s' s'' : Scope} {id : Nat} {i : Instance}

theorem Aside.refl (t : RecordType) (table : TableRef) (s : Scope) : Aside t table s s :=
  ⟨rfl, rfl, fun _ _ _ => .rfl⟩

theorem Aside.trans (h : Aside t table s s') (h' : Aside t table s' s'') :
    Aside t table s s'' := by
  refine ⟨h'.source.trans h.source, h'.content.trans h.content, ?_⟩
  intro id i htype
  exact (h'.instances id i htype).trans (h.instances id i htype)

theorem aside_source (t : RecordType) (s : Scope) {source : Source} {storage : Storage}
    (hsource : source.table = s.source.table)
    (hcontent : storage.content table = s.storage.content table) :
    Aside t table s ⟨source, s.instances, storage⟩ :=
  ⟨hsource, hcontent, fun _ _ _ => .rfl⟩

theorem aside_setRepo (t : RecordType) (table : TableRef) (s : Scope) (repo : Repo Key Nat) :
    Aside t table s (s.setRepo repo) :=
  aside_source t s rfl rfl

theorem aside_addInstance (table : TableRef) (s : Scope) (htype : i.record.type ≠ t) :
    Aside t table s (s.addInstance i).2 := by
  refine ⟨rfl, rfl, ?_⟩
  intro id x hx
  have hne : x ≠ i := fun heq => htype (heq ▸ hx)
  by_cases hlt : id < s.instances.length
  · simp [addInstance, List.getElem?_append_left hlt]
  · have hle := Nat.le_of_not_lt hlt
    rw [addInstance, List.getElem?_append_right hle, List.getElem?_eq_none hle]
    constructor
    · intro hget
      have hmem := List.mem_of_getElem? hget
      exact absurd (List.mem_singleton.mp hmem) hne
    · intro hget
      cases hget

theorem aside_setInstance (table : TableRef) (s : Scope) {i' : Instance}
    (hi : s.instances[id]? = some i) (htype : i.record.type ≠ t)
    (htype' : i'.record.type ≠ t) : Aside t table s (s.setInstance id i') := by
  refine ⟨rfl, rfl, ?_⟩
  intro id' x hx
  have hlt : id < s.instances.length := (List.getElem?_eq_some_iff.mp hi).1
  by_cases hid : id = id'
  · subst hid
    rw [setInstance, List.getElem?_set_self hlt, hi]
    constructor
    · intro heq
      exact absurd (Option.some.inj heq ▸ hx) htype'
    · intro heq
      exact absurd (Option.some.inj heq ▸ hx) htype
  · rw [setInstance, List.getElem?_set_ne hid]

theorem aside_publish (table : TableRef) (s : Scope) (htype : s.type ≠ t) (key : Key)
    (data : Option Json) : Aside t table s (s.publish key data).2 := by
  simp only [publish]
  split
  · exact (aside_setRepo t table s _).trans (aside_addInstance table _ htype)
  · exact aside_setRepo t table s _

theorem aside_get (table : TableRef) (s : Scope) (htype : s.type ≠ t) (key : Key) :
    Aside t table s (s.get key).2 := by
  have hfetched : Aside t table s (s.fetched key) :=
    aside_source t s rfl (Storage.content_read s.source.table table (.fetch true key.text)
      (·.select [key.text]) s.storage)
  simp only [get]
  split
  · exact .refl t table s
  · split
    · exact hfetched
    · exact hfetched.trans (aside_publish table (s.fetched key) htype key _)

theorem aside_create (table : TableRef) (s : Scope) (htype : s.type ≠ t) (data : Json)
    (flags : CreateFlags) : Aside t table s (s.create data flags).2 := by
  have hadd : ∀ s' : Scope, Aside t table s'
      (s'.addInstance ⟨newRecord s.type data flags, [.create]⟩).2 :=
    fun s' => aside_addInstance table s' htype
  have hget := aside_get table s htype (newRecord s.type data flags).key
  simp only [create]
  split
  · exact hadd s
  · split
    next hresult =>
      rw [hresult] at hget
      exact hget
    next hresult =>
      rw [hresult] at hget
      exact hget
    next hresult =>
      rw [hresult] at hget
      split
      · exact (hget.trans (hadd _)).trans (aside_setRepo t table _ _)
      · exact hget.trans (hadd _)

theorem aside_submit (hother : s.source.table ≠ table) (hi : s.instances[id]? = some i)
    (htype : i.record.type ≠ t) {i' : Instance} (htype' : i'.record.type ≠ t)
    (c : Snapshot) : Aside t table s (s.submit id i' c) := by
  cases hsaver : s.source.saver with
  | none =>
      simp only [submit, hsaver]
      exact aside_setInstance table s hi htype htype'
  | some saver =>
      have hput := Saver.view_put (Storage.save_hides hother) saver (.snapshot c)
        i'.record.header.savingIndex s.storage
      simp only [submit, hsaver]
      refine Aside.trans (aside_source t s ?_ hput) (aside_setInstance table _ hi htype ?_)
      · rfl
      · exact htype'

theorem aside_commit (hother : s.source.table ≠ table) (hi : s.instances[id]? = some i)
    (htype : i.record.type ≠ t) : Aside t table s (s.commit id i).2 := by
  have hsubmitted : ∀ (c : Snapshot) (r : Record), i.record.commit = some (c, r) →
      Aside t table s (s.submit id ⟨r, i.events ++ committedEvent c⟩ c) := by
    intro c r hcommit
    refine aside_submit hother hi htype ?_ c
    have hsame : r.type = i.record.type := by
      simp only [Record.commit] at hcommit
      split at hcommit
      · obtain ⟨-, rfl⟩ := Prod.mk.inj (Option.some.inj hcommit)
        rfl
      · cases hcommit
    exact hsame ▸ htype
  cases hcommit : i.record.commit with
  | none =>
      simp only [commit, hcommit]
      split
      · exact aside_setRepo t table s _
      · exact .refl t table s
  | some r =>
      have hstep := hsubmitted r.1 r.2 hcommit
      simp only [commit, hcommit]
      split
      · exact hstep.trans (aside_setRepo t table _ _)
      · exact hstep

theorem aside_save (hother : s.source.table ≠ table)
    (htype : ∀ i, s.instances[id]? = some i → i.record.type ≠ t) :
    Aside t table s (s.save id).2 := by
  cases hi : s.instances[id]? with
  | none =>
      simp only [save, hi]
      exact .refl t table s
  | some i =>
      simp only [save, hi]
      split
      · exact .refl t table s
      · split
        · split
          · have hstored :=
              aside_setRepo t table s (s.source.repo.setOnStore i.record.key id).2
            refine hstored.trans ?_
            exact aside_commit (s := s.setRepo _) hother hi (htype i hi)
          · exact .refl t table s
        · exact aside_commit hother hi (htype i hi)

theorem aside_sync (hother : s.source.table ≠ table)
    (htype : ∀ i, s.instances[id]? = some i → i.record.type ≠ t) :
    Aside t table s (s.sync id).2 := by
  have hsave := aside_save hother htype
  simp only [sync]
  split
  next hresult =>
    rw [hresult] at hsave
    exact hsave
  next s' hresult =>
    rw [hresult] at hsave
    split
    · have hother' : s'.source.table ≠ table := hsave.source ▸ hother
      exact hsave.trans (aside_source t s' rfl
        (Saver.view_sync (Storage.save_hides hother') _ _ s'.storage))
    · exact hsave

theorem aside_syncAll (t : RecordType) (hother : s.source.table ≠ table) :
    Aside t table s s.syncAll.2 := by
  cases hsaver : s.source.saver with
  | none =>
      simp only [syncAll, hsaver]
      exact .refl t table s
  | some saver =>
      simp only [syncAll, hsaver]
      exact aside_source t s rfl (Saver.view_sync (Storage.save_hides hother) saver none s.storage)

theorem aside_stepSaver (t : RecordType) (s : Scope) {step : Saver → Storage → Saver × Storage}
    (hstep : ∀ saver, (step saver s.storage).2.content table = s.storage.content table) :
    Aside t table s (s.stepSaver step) := by
  cases hsaver : s.source.saver with
  | none =>
      simp only [stepSaver, hsaver]
      exact .refl t table s
  | some saver =>
      simp only [stepSaver, hsaver]
      exact aside_source t s rfl (hstep saver)

theorem aside_close (t : RecordType) (hother : s.source.table ≠ table) :
    Aside t table s s.close :=
  aside_stepSaver t s fun saver => Saver.view_close (Storage.save_hides hother) saver s.storage

theorem aside_deliver (t : RecordType) (hother : s.source.table ≠ table) (n : Nat)
    (a : DeliveryStep) : Aside t table s (s.deliver n a) :=
  aside_stepSaver t s fun saver =>
    Saver.view_advance (Storage.save_hides hother) saver n a s.storage

end Aside

end Scope

end WriteBehind
