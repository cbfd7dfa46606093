import WriteBehind.Proofs.ScopeWorkers

/-!
# What is on its way to a table

Some facts about a source depend only on which commitments may be pending and on which
states its table may be in.  Such a pair of conditions is a `Freight` if merging keeps the
one and delivering keeps the other.  Then no step of a worker can break it, whatever the
order of the steps, and neither can a commitment that is put in and may be carried
(`Scope.Hauls`).  Nothing is asked of the workers: they may be stopped, and a source may
have none.
-/

namespace WriteBehind

/-- Conditions on pending commitments and on the storage that merging and delivering
keep. -/
structure Freight (table : TableRef) where
  carried : Commitment → Prop
  allowed : Storage → Prop
  merged : ∀ {e c m : Commitment}, carried e → carried c → e.merge c = some m → carried m
  delivered : ∀ {cs : List Commitment} {running : Bool} {s : Storage}, allowed s →
    (∀ c ∈ cs, carried c) → allowed (Storage.save table cs running s).2
  read : ∀ {s s' : Storage}, s'.content table = s.content table → allowed s → allowed s'

variable {table : TableRef} {g g' : Freight table}

/-! ## Workers -/

namespace Worker

variable {w w' : Worker} {s : Storage}

/-- A worker that carries nothing else. -/
structure Hauls (g : Freight table) (w : Worker) : Prop where
  orderly : w.Orderly
  carried : ∀ c ∈ w.pending, g.carried c

theorem Hauls.mono (h : w.Hauls g) (hcarried : ∀ c, g.carried c → g'.carried c) : w.Hauls g' :=
  ⟨h.orderly, fun c hc => hcarried c (h.carried c hc)⟩

theorem Hauls.of_subset (h : w.Hauls g) (hw' : w'.Orderly)
    (hsubset : ∀ c ∈ w'.pending, c ∈ w.pending) : w'.Hauls g :=
  ⟨hw', fun c hc => h.carried c (hsubset c hc)⟩

theorem hauls_start (g : Freight table) : ({} : Worker).start.Hauls g := by
  refine ⟨orderly_empty.setWaiting (.inl rfl) true, ?_⟩
  intro c hc
  cases hc

theorem Hauls.expire (h : w.Hauls g) : w.expire.Hauls g :=
  h.of_subset h.orderly.expire fun _ hc => hc

theorem Hauls.poll (h : w.Hauls g) : w.poll.Hauls g :=
  h.of_subset h.orderly.poll (advance_poll (fun _ : Unit => .empty) h.orderly ()).subset

theorem Hauls.recycle (h : w.Hauls g) : w.recycle.Hauls g :=
  h.of_subset h.orderly.recycle (advance_recycle (fun _ : Unit => .empty) w ()).subset

theorem Hauls.request (h : w.Hauls g) : w.request.Hauls g :=
  h.of_subset h.orderly.request (advance_request (fun _ : Unit => .empty) w ()).subset

theorem Hauls.close (h : w.Hauls g) : w.close.Hauls g :=
  h.of_subset h.orderly.close (advance_close (fun _ : Unit => .empty) w ()).subset

/-- Whether or not the table takes the batch, what is left is what was there. -/
theorem Hauls.deliver (h : w.Hauls g) (hs : g.allowed s) :
    (w.deliver (Storage.save table) s).1.Hauls g ∧
      g.allowed (w.deliver (Storage.save table) s).2 := by
  by_cases hsaving : ∃ b final, w.consumer = .saving b final
  · obtain ⟨b, final, hc⟩ := hsaving
    have hleaving : w.leaving = b.entries := by simp [leaving, hc]
    rw [deliver_of_saving hc]
    refine ⟨h.of_subset (h.orderly.saved hc _) ?_, ?_⟩
    · rw [saved_of_saving hc]
      intro c hc'
      exact List.mem_append_right _ hc'
    · refine g.delivered hs fun c hc' => h.carried c (List.mem_append_left _ ?_)
      rwa [hleaving]
  · rw [deliver_of_not_saving fun b final hc => hsaving ⟨b, final, hc⟩]
    exact ⟨h, hs⟩

theorem Hauls.flush (h : w.Hauls g) (hs : g.allowed s) :
    (w.flush (Storage.save table) s).1.Hauls g ∧
      g.allowed (w.flush (Storage.save table) s).2 := by
  rw [flush_eq]
  obtain ⟨hw, hs'⟩ := h.deliver hs
  exact ⟨hw.recycle, hs'⟩

theorem Hauls.turn (h : w.Hauls g) (hs : g.allowed s) :
    (w.turn (Storage.save table) s).1.Hauls g ∧ g.allowed (w.turn (Storage.save table) s).2 :=
  h.poll.flush hs

theorem Hauls.makeRoom (h : w.Hauls g) (hs : g.allowed s) :
    (w.makeRoom (Storage.save table) s).1.Hauls g ∧
      g.allowed (w.makeRoom (Storage.save table) s).2 := by
  obtain ⟨hw, hs'⟩ := h.flush hs
  exact hw.turn hs'

theorem Hauls.advance (h : w.Hauls g) (hs : g.allowed s) (a : DeliveryStep) :
    (w.advance (Storage.save table) s a).1.Hauls g ∧
      g.allowed (w.advance (Storage.save table) s a).2 := by
  cases a with
  | expire => exact ⟨h.expire, hs⟩
  | poll => exact ⟨h.poll, hs⟩
  | deliver => exact h.deliver hs
  | recycle => exact ⟨h.recycle, hs⟩
  | request => exact ⟨h.request, hs⟩

theorem Hauls.put {c : Commitment} {index : Option Nat} {i : Nat} (h : w.Hauls g)
    (hput : w.put c index = .placed i w') (hc : g.carried c) : w'.Hauls g := by
  refine ⟨h.orderly.put hput, ?_⟩
  obtain ⟨b, b', hb, hok, rfl⟩ := put_eq_placed hput
  have hold : ∀ e ∈ b.entries, g.carried e := by
    intro e he
    refine h.carried e (List.mem_append_right _ ?_)
    rwa [incoming_of_receiving hb]
  intro d hd
  rcases List.mem_append.mp hd with hd | hd
  · exact h.carried d (List.mem_append_left _ hd)
  · rw [incoming_of_receiving rfl] at hd
    rcases Batch.put_eq_ok hok with ⟨-, -, rfl⟩ | ⟨-, entry, merged, hentry, hmerge, rfl⟩
    · rcases List.mem_append.mp hd with hd | hd
      · exact hold d hd
      · rw [List.mem_singleton.mp hd]
        exact hc
    · rcases List.mem_or_eq_of_mem_set hd with hd | rfl
      · exact hold d hd
      · exact g.merged (hold entry (List.mem_of_getElem? hentry)) hc hmerge

/-- A commitment finds a place or is refused, perhaps after a rotation. -/
theorem Hauls.putWorker {c : Commitment} (h : w.Hauls g) (hs : g.allowed s) (hc : g.carried c)
    (index : Option Nat) :
    (Saver.putWorker (Storage.save table) w c index s).2.1.Hauls g ∧
      g.allowed (Saver.putWorker (Storage.save table) w c index s).2.2 := by
  cases hput : w.put c index with
  | placed i w' =>
      simp only [Saver.putWorker, hput]
      exact ⟨h.put hput hc, hs⟩
  | refused =>
      simp only [Saver.putWorker, hput]
      exact ⟨h, hs⟩
  | full =>
      obtain ⟨hw, hs'⟩ := h.makeRoom hs
      cases hput' : (w.makeRoom (Storage.save table) s).1.put c none with
      | placed i w' =>
          simp only [Saver.putWorker, hput, hput']
          exact ⟨hw.put hput' hc, hs'⟩
      | refused | full =>
          simp only [Saver.putWorker, hput, hput']
          exact ⟨hw, hs'⟩

end Worker

/-! ## Savers -/

namespace Saver

variable {s : Storage}

/-- Workers that carry nothing else, and a table in such a state. -/
def Hauls (g : Freight table) (workers : List Worker) (s : Storage) : Prop :=
  (∀ w ∈ workers, w.Hauls g) ∧ g.allowed s

variable {workers : List Worker}

theorem Hauls.set (h : Hauls g workers s) {w : Worker} {s' : Storage} (hw : w.Hauls g)
    (hs' : g.allowed s') (n : Nat) : Hauls g (workers.set n w) s' := by
  refine ⟨fun v hv => ?_, hs'⟩
  rcases List.mem_or_eq_of_mem_set hv with hv | rfl
  · exact h.1 v hv
  · exact hw

theorem Hauls.mapWorkers (h : Hauls g workers s) {f : Worker → Storage → Worker × Storage}
    (hf : ∀ w s, w.Hauls g → g.allowed s → (f w s).1.Hauls g ∧ g.allowed (f w s).2) :
    Hauls g (Saver.mapWorkers f workers s).1 (Saver.mapWorkers f workers s).2 := by
  refine (mapWorkers_spec (P := Hauls g) (R := fun _ => True) (Q := fun _ _ => True) ?_
    workers h fun _ _ => trivial).1
  intro ws n w t hP hw _
  obtain ⟨hw', ht'⟩ := hf w t (hP.1 w (List.mem_of_getElem? hw)) hP.2
  exact ⟨hP.set hw' ht' n, trivial⟩

theorem Hauls.syncAmong (h : Hauls g workers s) (ns : String) :
    Hauls g (Saver.syncAmong (Storage.save table) ns workers s).2.1
      (Saver.syncAmong (Storage.save table) ns workers s).2.2 := by
  rcases syncAmong_cases (Storage.save table) ns workers s with ⟨e, hrefused⟩ | hturns
  · rw [hrefused]
    exact h
  · rw [hturns]
    exact h.mapWorkers fun w s hw hs => hw.request.turn hs

variable {saver : Saver}

theorem Hauls.advance (h : Hauls g saver.workers s) (n : Nat) (a : DeliveryStep) :
    Hauls g (saver.advance (Storage.save table) n a s).1.workers
      (saver.advance (Storage.save table) n a s).2 := by
  cases hw : saver.workers[n]? with
  | none =>
      simp only [Saver.advance, hw]
      exact h
  | some w =>
      simp only [Saver.advance, hw]
      obtain ⟨hw', hs'⟩ := (h.1 w (List.mem_of_getElem? hw)).advance h.2 a
      exact h.set hw' hs' n

theorem Hauls.put {c : Commitment} (h : Hauls g saver.workers s) (hc : g.carried c)
    (index : Option Nat) :
    Hauls g (saver.put (Storage.save table) c index s).2.1.workers
      (saver.put (Storage.save table) c index s).2.2 := by
  cases hw : saver.workers[saver.workerOf c.hash]? with
  | none =>
      simp only [Saver.put, hw]
      exact h
  | some w =>
      simp only [Saver.put, hw]
      obtain ⟨hw', hs'⟩ := (h.1 w (List.mem_of_getElem? hw)).putWorker h.2 hc index
      exact h.set hw' hs' _

theorem Hauls.sync (h : Hauls g saver.workers s) (hash : Option UInt64) :
    Hauls g (saver.sync (Storage.save table) hash s).2.1.workers
      (saver.sync (Storage.save table) hash s).2.2 := by
  cases hash with
  | none => exact h.syncAmong saver.ns
  | some hash =>
      have hasked : Hauls g (saver.workers[saver.workerOf hash]?.toList) s := by
        refine ⟨fun w hw => h.1 w ?_, h.2⟩
        exact List.mem_of_getElem? (Option.mem_toList.mp hw)
      have hsynced := hasked.syncAmong saver.ns
      simp only [Saver.sync]
      split
      next w hflushed =>
        rw [hflushed] at hsynced
        exact h.set (hsynced.1 w List.mem_cons_self) hsynced.2 _
      · exact ⟨h.1, hsynced.2⟩

theorem Hauls.close (h : Hauls g saver.workers s) :
    Hauls g (saver.close (Storage.save table) s).1.workers
      (saver.close (Storage.save table) s).2 := by
  have hclosed := h.mapWorkers (f := fun w t => w.close.turn (Storage.save table) t)
    fun w t hw ht => hw.close.turn ht
  simpa only [Saver.close, Saver.step, Saver.mapWorkers_map] using hclosed

end Saver

/-! ## Sources -/

namespace Scope

/-- A source of the records that carries nothing else. -/
structure Hauls (p : Deposit) (g : Freight p.table) (s : Scope) : Prop where
  model : s.source.info.model = p.model
  table : s.source.table = p.table
  carries : Saver.Hauls g s.ledger.workers s.storage

section Hauls

variable {p : Deposit} {g g' : Freight p.table} {s : Scope}

theorem Hauls.type_eq (h : s.Hauls p g) : s.type = p.type := congrArg Model.record h.model

theorem Hauls.save_eq (h : s.Hauls p g) :
    Storage.save s.source.table = Storage.save p.table := congrArg Storage.save h.table

theorem Hauls.mono (h : s.Hauls p g) (hcarried : ∀ c, g.carried c → g'.carried c)
    (hallowed : g.allowed s.storage → g'.allowed s.storage) : s.Hauls p g' :=
  ⟨h.model, h.table, fun w hw => (h.carries.1 w hw).mono hcarried, hallowed h.carries.2⟩

theorem Hauls.setRepo (h : s.Hauls p g) (repo : Repo Key Nat) : (s.setRepo repo).Hauls p g :=
  ⟨h.model, h.table, h.carries⟩

theorem Hauls.setInstances (h : s.Hauls p g) (instances : List Instance) :
    ({ s with instances } : Scope).Hauls p g :=
  ⟨h.model, h.table, h.carries⟩

/-- Reads leave everything as it is, and so does whatever happens to other tables. -/
theorem Hauls.setStorage (h : s.Hauls p g) {storage : Storage}
    (hcontent : storage.content p.table = s.storage.content p.table) :
    ({ s with storage } : Scope).Hauls p g :=
  ⟨h.model, h.table, h.carries.1, g.read hcontent h.carries.2⟩

theorem Hauls.saver (h : s.Hauls p g) {saver : Saver} (hsaver : s.source.saver = some saver) :
    Saver.Hauls g saver.workers s.storage := by
  have hcarries := h.carries
  rw [ledger, hsaver] at hcarries
  exact hcarries

theorem Hauls.setSaver (h : s.Hauls p g) {saver : Saver} {storage : Storage}
    (hcarries : Saver.Hauls g saver.workers storage) :
    ({ s with source := { s.source with saver := some saver }, storage } : Scope).Hauls p g :=
  ⟨h.model, h.table, hcarries⟩

theorem Hauls.stepSaver (h : s.Hauls p g) {step : Saver → Storage → Saver × Storage}
    (hstep : ∀ saver, Saver.Hauls g saver.workers s.storage →
      Saver.Hauls g (step saver s.storage).1.workers (step saver s.storage).2) :
    (s.stepSaver step).Hauls p g := by
  cases hsaver : s.source.saver with
  | none =>
      simp only [Scope.stepSaver, hsaver]
      exact h
  | some saver =>
      simp only [Scope.stepSaver, hsaver]
      exact h.setSaver (hstep saver (h.saver hsaver))

theorem Hauls.deliver (h : s.Hauls p g) (n : Nat) (a : DeliveryStep) :
    (s.deliver n a).Hauls p g := by
  rw [Scope.deliver, h.save_eq]
  exact h.stepSaver fun _ hsaver => hsaver.advance n a

theorem Hauls.close (h : s.Hauls p g) : s.close.Hauls p g := by
  rw [Scope.close, h.save_eq]
  exact h.stepSaver fun _ hsaver => hsaver.close

theorem Hauls.syncAll (h : s.Hauls p g) : s.syncAll.2.Hauls p g := by
  cases hsaver : s.source.saver with
  | none =>
      simp only [Scope.syncAll, hsaver]
      exact h
  | some saver =>
      simp only [Scope.syncAll, hsaver, h.save_eq]
      exact h.setSaver ((h.saver hsaver).sync none)

/-- A commitment of an instance is handed to the saver. -/
theorem Hauls.submit (h : s.Hauls p g) {c : Snapshot} (hc : g.carried (.snapshot c)) (id : Nat)
    (i : Instance) : (s.submit id i c).Hauls p g := by
  cases hsaver : s.source.saver with
  | none =>
      simp only [Scope.submit, hsaver]
      exact h.setInstances _
  | some saver =>
      simp only [Scope.submit, hsaver, h.save_eq]
      have hput := (h.saver hsaver).put hc i.record.header.savingIndex
      exact (h.setSaver hput).setInstances _

/-- Waiting for the flush of a saved instance touches saver and table only. -/
theorem Hauls.sync {id : Nat} (h : (s.save id).2.Hauls p g) :
    (s.sync id).2.Hauls p g ∧ (s.sync id).2.source.repo = (s.save id).2.source.repo ∧
      (s.sync id).2.instances = (s.save id).2.instances := by
  cases hsave : s.save id with
  | mk result s' =>
      rw [hsave] at h
      cases result with
      | error e =>
          simp only [Scope.sync, hsave]
          exact ⟨h, trivial, trivial⟩
      | ok committed =>
          cases hsaver : s'.source.saver with
          | none =>
              simp only [Scope.sync, hsave, hsaver]
              exact ⟨h, trivial, trivial⟩
          | some saver =>
              cases hi : s'.instances[id]? with
              | none =>
                  simp only [Scope.sync, hsave, hsaver, hi]
                  exact ⟨h, trivial, trivial⟩
              | some i =>
                  have hsync := (h.saver hsaver).sync (some i.record.key.hash)
                  simp only [Scope.sync, hsave, hsaver, hi, h.save_eq]
                  exact ⟨h.setSaver hsync, trivial, trivial⟩

end Hauls

end Scope

end WriteBehind
