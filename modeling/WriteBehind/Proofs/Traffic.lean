import WriteBehind.Proofs.LedgerCommits
import WriteBehind.Proofs.SaverSteps
import WriteBehind.Proofs.TableWrites

/-!
# Traffic of a source

Whatever the workers of a source do moves commitments on to the table and leaves the cache
and the instances alone.  `Ledger.Moves` says what becomes of the rows by that: of no key in
use anything is lost that is on its way.  Single steps of a worker are such moves, and so
are a turn of one worker or of all that somebody waits for, and the last turn of each when
the source is closed.  After a successful flush of all workers nothing is pending.
-/

namespace WriteBehind

/-- The records of a model in a table, under the keys in use. -/
structure Deposit where
  model : Model
  table : TableRef
  inUse : Key → Prop

namespace Deposit

/-- The type of the records. -/
def type (p : Deposit) : RecordType := p.model.record

/-- The records in their table. -/
def domain (p : Deposit) : Domain Storage where
  type := p.type
  inUse := p.inUse
  rowsOf s := s.rows p.table
  Good := Storage.Ready p.table

end Deposit

variable {σ : Type}

namespace Ledger

variable {d : Domain σ} {l l' l'' : Ledger σ} {key : Key} {n : Nat} {w w' : Worker} {t' : σ}

theorem Carries.refl (d : Domain σ) (l : Ledger σ) (key : Key) : Carries d l l key :=
  ⟨rfl, fun hidle => hidle, fun _ _ _ htracks => htracks⟩

theorem Carries.trans (h : Carries d l l' key) (h' : Carries d l' l'' key) :
    Carries d l l'' key :=
  ⟨h'.eventual.trans h.eventual, fun hidle => h'.idle (h.idle hidle),
    fun p place hp htracks => h'.place p place hp (h.place p place hp htracks)⟩

/-- Workers have moved pending commitments on. -/
structure Moves (d : Domain σ) (l l' : Ledger σ) : Prop where
  manned : l'.Manned d
  repo : l'.repo = l.repo
  instances : l'.instances = l.instances
  carries : ∀ key, d.inUse key → Carries d l l' key
  quiet : (∀ w ∈ l.workers, w.pending = []) → ∀ w ∈ l'.workers, w.pending = []

theorem Moves.refl (h : l.Manned d) : Moves d l l :=
  ⟨h, rfl, rfl, fun key _ => .refl d l key, fun hquiet => hquiet⟩

theorem Moves.trans (h : Moves d l l') (h' : Moves d l' l'') : Moves d l l'' :=
  ⟨h'.manned, h'.repo.trans h.repo, h'.instances.trans h.instances,
    fun key hused => (h.carries key hused).trans (h'.carries key hused),
    fun hquiet => h'.quiet (h.quiet hquiet)⟩

/-- A worker moves its pending commitments on. -/
theorem Manned.advance (h : l.Manned d) (hd : d.Distinct) (hw : l.workers[n]? = some w)
    (hadvance : Worker.Advance d.rowsOf w l.table w' t') (hfit : Worker.Fit d.Good w' t') :
    Moves d l (l.setWorker n w' t') := by
  have hlane := (h.lanes n w hw).advance hadvance hfit
  refine ⟨⟨?_, hfit.good, lanes_setWorker h hlane⟩, rfl, rfl, ?_, ?_⟩
  · rw [setWorker, List.length_set]
    exact h.staffed
  · intro key hused
    exact carries_advance h hd hw hadvance hused
  · intro hquiet x hx
    rcases List.mem_or_eq_of_mem_set hx with hx | rfl
    · exact hquiet x hx
    · exact hadvance.pending_eq_nil (hquiet w (List.mem_of_getElem? hw))

theorem Kept.of_moves {kept : Nat → Json} (h : l.Kept d kept) (hmoves : Moves d l l') :
    l'.Kept d kept := by
  refine h.of_key (P := fun _ => False) ?_ hmoves.manned.staffed hmoves.manned.good
    hmoves.manned.lanes ?_ ?_ fun _ _ hno => hno.elim
  · rw [hmoves.repo]
    exact h.keeps
  · rw [hmoves.instances]
    exact h.instances
  · intro key hused _
    refine ⟨⟨by rw [hmoves.repo], fun id i => ?_, fun _ _ _ => rfl⟩, hmoves.carries key hused⟩
    rw [Owns, Owns, hmoves.instances]

end Ledger

namespace Scope

/-- The ledger of a source. -/
def ledger (s : Scope) : Ledger Storage where
  repo := s.source.repo
  instances := s.instances
  workers := (s.source.saver.map (·.workers)).getD []
  table := s.storage

/-- A source of the records whose workers are there, and run unless it is closed. -/
structure Works (p : Deposit) (stopped : Bool) (s : Scope) : Prop where
  model : s.source.info.model = p.model
  table : s.source.table = p.table
  live : stopped = false → ∀ w ∈ s.ledger.workers, w.Live
  manned : s.ledger.Manned p.domain

/-- The scope with other workers and another storage. -/
def withWorkers (s : Scope) (saver : Saver) (workers : List Worker) (storage : Storage) : Scope :=
  { s with source := { s.source with saver := some { saver with workers } }, storage }

/-- Nothing is pending. -/
def Quiet (s : Scope) : Prop := ∀ w ∈ s.ledger.workers, w.pending = []

/-- A worker of the source takes a step. -/
def deliver (s : Scope) (n : Nat) (a : DeliveryStep) : Scope :=
  s.stepSaver fun saver => saver.advance (Storage.save s.source.table) n a

section Works

variable {p : Deposit} {stopped : Bool} {s s' : Scope} {saver : Saver}

theorem Works.type_eq (h : s.Works p stopped) : s.type = p.type := congrArg Model.record h.model

theorem Works.exists_saver (h : s.Works p stopped) :
    ∃ saver, s.source.saver = some saver ∧ s.ledger.workers = saver.workers := by
  cases hsaver : s.source.saver with
  | none =>
      have hstaffed := h.manned.staffed
      simp [Scope.ledger, hsaver] at hstaffed
  | some saver => exact ⟨saver, rfl, by simp [Scope.ledger, hsaver]⟩

theorem Works.exists_worker (h : s.Works p stopped) (hsaver : s.source.saver = some saver)
    (key : Key) :
    ∃ w, saver.workers[saver.workerOf key.hash]? = some w ∧
      s.ledger.workers[s.ledger.laneOf key]? = some w ∧
      s.ledger.laneOf key = saver.workerOf key.hash := by
  have hworkers : s.ledger.workers = saver.workers := by simp [Scope.ledger, hsaver]
  have hlane : s.ledger.laneOf key = saver.workerOf key.hash := by
    rw [Ledger.laneOf, hworkers]
    rfl
  have hlt : s.ledger.laneOf key < s.ledger.workers.length := Nat.mod_lt _ h.manned.staffed
  refine ⟨s.ledger.workers[s.ledger.laneOf key], ?_, List.getElem?_eq_getElem hlt, hlane⟩
  rw [← hlane, ← hworkers]
  exact List.getElem?_eq_getElem hlt

/-- Nothing else is asked of the saver. -/
theorem Works.of_source (h : s.Works p stopped) (hmodel : s'.source.info = s.source.info)
    (htable : s'.source.table = s.source.table) (hsaver : s'.source.saver = s.source.saver)
    (hcontent : s'.storage.content p.table = s.storage.content p.table) :
    s'.Works p stopped := by
  have hworkers : s'.ledger.workers = s.ledger.workers := by
    simp only [Scope.ledger, hsaver]
  have hgood : p.domain.Good s'.ledger.table := h.manned.good.congr hcontent
  refine ⟨hmodel ▸ h.model, htable ▸ h.table, ?_, ?_, hgood, ?_⟩
  · rw [hworkers]
    exact h.live
  · rw [hworkers]
    exact h.manned.staffed
  · intro n w hw
    rw [hworkers] at hw
    exact (h.manned.lanes n w hw).of_eq hworkers hgood

/-! ## Steps of workers -/

theorem Works.stepWorker (h : s.Works p stopped) (hp : p.domain.Distinct)
    (hsaver : s.source.saver = some saver) {n : Nat} {w w' : Worker} {t' : Storage}
    (hw : saver.workers[n]? = some w)
    (hadvance : Worker.Advance (fun t => Storage.rows t p.table) w s.storage w' t')
    (hfit : Worker.Fit (Storage.Ready p.table) w' t') (hlive : stopped = false → w'.Live) :
    (s.withWorkers saver (saver.workers.set n w') t').Works p stopped ∧
      Ledger.Moves p.domain s.ledger
        (s.withWorkers saver (saver.workers.set n w') t').ledger := by
  have hworkers : s.ledger.workers = saver.workers := by simp [Scope.ledger, hsaver]
  have hledger : (s.withWorkers saver (saver.workers.set n w') t').ledger =
      s.ledger.setWorker n w' t' := by
    rw [Ledger.setWorker, hworkers]
    rfl
  have hw' : s.ledger.workers[n]? = some w := by rw [hworkers]; exact hw
  have hmoves := h.manned.advance hp hw' hadvance hfit
  rw [← hledger] at hmoves
  refine ⟨⟨h.model, h.table, ?_, hmoves.manned⟩, hmoves⟩
  intro hrunning x hx
  rw [hledger] at hx
  rcases List.mem_or_eq_of_mem_set hx with hx | rfl
  · exact h.live hrunning x hx
  · exact hlive hrunning

theorem Works.mapWorkers (h : s.Works p stopped) (hp : p.domain.Distinct)
    (hsaver : s.source.saver = some saver) (later : Bool)
    {f : Worker → Storage → Worker × Storage} {Q : Worker → Worker → Prop}
    (hstep : ∀ w t, Worker.Fit (Storage.Ready p.table) w t → (stopped = false → w.Live) →
      (Worker.Advance (fun t => Storage.rows t p.table) w t (f w t).1 (f w t).2 ∧
        Worker.Fit (Storage.Ready p.table) (f w t).1 (f w t).2) ∧
      (later = false → (f w t).1.Live) ∧ Q w (f w t).1) :
    (s.withWorkers saver (Saver.mapWorkers f saver.workers s.storage).1
        (Saver.mapWorkers f saver.workers s.storage).2).Works p later ∧
      Ledger.Moves p.domain s.ledger
        (s.withWorkers saver (Saver.mapWorkers f saver.workers s.storage).1
          (Saver.mapWorkers f saver.workers s.storage).2).ledger ∧
      List.Forall₂ Q saver.workers (Saver.mapWorkers f saver.workers s.storage).1 := by
  have hworkers : s.ledger.workers = saver.workers := by simp [Scope.ledger, hsaver]
  obtain ⟨hmoves, hall⟩ := Saver.mapWorkers_spec (f := f) (t := s.storage)
    (P := fun ws t => Ledger.Moves p.domain s.ledger (s.withWorkers saver ws t).ledger)
    (R := fun w => stopped = false → w.Live)
    (Q := fun w v => (later = false → v.Live) ∧ Q w v)
    (fun ws n w t hP hw hR => by
      have hfit := (hP.manned.lanes n w hw).fit
      obtain ⟨⟨hadvance, hfit'⟩, hrest⟩ := hstep w t hfit hR
      exact ⟨hP.trans (hP.manned.advance hp hw hadvance hfit'), hrest⟩)
    saver.workers
    (by
      have hsame : (s.withWorkers saver saver.workers s.storage).ledger = s.ledger := by
        simp [Scope.ledger, withWorkers, hsaver]
      rw [hsame]
      exact .refl h.manned)
    (fun w hw hrunning => h.live hrunning w (by rw [hworkers]; exact hw))
  refine ⟨⟨h.model, h.table, ?_, hmoves.manned⟩, hmoves, hall.imp fun _ _ hQ => hQ.2⟩
  intro hrunning v hv
  exact ((List.forall₂_and_left _ _).mp hall.flip).1 v hv hrunning

theorem quiet_of_forall₂ {P : Worker → Prop} {ws vs : List Worker} (hws : ∀ w ∈ ws, P w)
    (h : List.Forall₂ (fun w v => P w → v.pending = []) ws vs) :
    ∀ v ∈ vs, v.pending = [] := by
  induction h with
  | nil =>
      intro v hv
      cases hv
  | cons hhead _ ih =>
      obtain ⟨hw, hrest⟩ := List.forall_mem_cons.mp hws
      exact List.forall_mem_cons.mpr ⟨hhead hw, ih hrest⟩

theorem Works.deliver (h : s.Works p stopped) (hp : p.domain.Distinct) (n : Nat)
    (a : DeliveryStep) :
    (s.deliver n a).Works p stopped ∧ Ledger.Moves p.domain s.ledger (s.deliver n a).ledger := by
  obtain ⟨saver, hsaver, hworkers⟩ := h.exists_saver
  cases hw : saver.workers[n]? with
  | none =>
      have hresult : s.deliver n a =
          { s with source := { s.source with saver := some saver } } := by
        simp [Scope.deliver, stepSaver, hsaver, Saver.advance, hw]
      rw [hresult, ← hsaver]
      exact ⟨h, .refl h.manned⟩
  | some w =>
      have hw' : s.ledger.workers[n]? = some w := by rw [hworkers]; exact hw
      have hfit := (h.manned.lanes n w hw').fit
      obtain ⟨hadvance, hfit'⟩ := Worker.advance_spec (Storage.takes_save p.table) hfit a
      have hresult : s.deliver n a = s.withWorkers saver
          (saver.workers.set n (w.advance (Storage.save p.table) s.storage a).1)
          (w.advance (Storage.save p.table) s.storage a).2 := by
        simp [Scope.deliver, stepSaver, hsaver, Saver.advance, hw, withWorkers, h.table]
      rw [hresult]
      refine h.stepWorker hp hsaver hw hadvance hfit' fun hrunning => ?_
      exact (h.live hrunning w (List.mem_of_getElem? hw')).advance (Storage.takes_save p.table)
        hfit a

/-! ## Waiting for a flush -/

/-- A worker is asked for a flush and takes its turn. -/
theorem Works.syncWorker (h : s.Works p stopped) (hp : p.domain.Distinct)
    (hsaver : s.source.saver = some saver) (key : Key)
    (hs' : s' = { s with
      source := { s.source with
        saver := some (saver.sync (Storage.save s.source.table) (some key.hash) s.storage).2.1 }
      storage := (saver.sync (Storage.save s.source.table) (some key.hash) s.storage).2.2 }) :
    s'.Works p stopped ∧ Ledger.Moves p.domain s.ledger s'.ledger := by
  subst hs'
  obtain ⟨w, hw, hw', hlane⟩ := h.exists_worker hsaver key
  have hfit := (h.manned.lanes _ w hw').fit
  rcases Saver.syncAmong_cases (Storage.save s.source.table) saver.ns [w] s.storage with
    ⟨e, hrefused⟩ | hturn
  · have hset : saver.workers.set (saver.workerOf key.hash) w = saver.workers := by
      refine List.ext_getElem? fun m => ?_
      rw [List.getElem?_set]
      split
      next hm =>
        subst hm
        rw [if_pos (List.getElem?_eq_some_iff.mp hw).1, hw]
      · rfl
    simp only [Saver.sync, hw, Option.toList_some, hrefused, hset]
    rw [show (⟨saver.ns, saver.workers⟩ : Saver) = saver from rfl, ← hsaver]
    exact ⟨h, .refl h.manned⟩
  · have hrequest := Worker.advance_request (fun t => Storage.rows t p.table) w s.storage
    obtain ⟨hadvance, hfit'⟩ := Worker.advance_then_turn (Storage.takes_save p.table) hfit
      hrequest hfit.orderly.request
    rw [h.table] at hturn ⊢
    simp only [Saver.sync, hw, Option.toList_some, hturn, Saver.mapWorkers]
    refine h.stepWorker hp hsaver hw hadvance hfit' fun hrunning => ?_
    have hlive := h.live hrunning w (List.mem_of_getElem? hw')
    exact hlive.request.turn (Storage.takes_save p.table)
      (hfit.of_advance hfit.orderly.request hrequest hfit.good)

/-- Waiting for the flush of an instance that was saved. -/
theorem Works.sync {id : Nat} (h : (s.save id).2.Works p stopped) (hp : p.domain.Distinct) :
    (s.sync id).2.Works p stopped ∧
      Ledger.Moves p.domain (s.save id).2.ledger (s.sync id).2.ledger := by
  cases hsave : s.save id with
  | mk result s' =>
      rw [hsave] at h
      cases result with
      | error e =>
          have hresult : s.sync id = (.error e, s') := by simp [Scope.sync, hsave]
          rw [hresult]
          exact ⟨h, .refl h.manned⟩
      | ok committed =>
          obtain ⟨saver, hsaver, -⟩ := h.exists_saver
          dsimp only at hsaver
          cases hi : s'.instances[id]? with
          | none =>
              have hresult : s.sync id = (.ok (), s') := by
                simp [Scope.sync, hsave, hsaver, hi]
              rw [hresult]
              exact ⟨h, .refl h.manned⟩
          | some i =>
              refine h.syncWorker hp hsaver i.record.key ?_
              simp [Scope.sync, hsave, hsaver, hi]

/-- All workers are waited for.  If that succeeds, nothing is pending. -/
theorem Works.syncAll (h : s.Works p stopped) (hp : p.domain.Distinct) :
    s.syncAll.2.Works p stopped ∧ Ledger.Moves p.domain s.ledger s.syncAll.2.ledger ∧
      (stopped = false → s.syncAll.1 = .ok () → s.syncAll.2.Quiet) := by
  obtain ⟨saver, hsaver, -⟩ := h.exists_saver
  rcases Saver.syncAmong_cases (Storage.save s.source.table) saver.ns saver.workers s.storage with
    ⟨e, hrefused⟩ | hturns
  · have hresult : s.syncAll = (.error e, s) := by
      simp only [Scope.syncAll, hsaver, Saver.sync, hrefused]
      rw [show (⟨saver.ns, saver.workers⟩ : Saver) = saver from rfl, ← hsaver]
    rw [hresult]
    exact ⟨h, .refl h.manned, fun _ hok => by cases hok⟩
  · have hresult : s.syncAll =
        (Saver.outcome saver.ns ((saver.workers.map fun w => (⟨w.opened⟩ : Waiter)).zip
            (Saver.mapWorkers (fun w t => w.request.turn (Storage.save p.table) t)
              saver.workers s.storage).1),
          s.withWorkers saver
            (Saver.mapWorkers (fun w t => w.request.turn (Storage.save p.table) t)
              saver.workers s.storage).1
            (Saver.mapWorkers (fun w t => w.request.turn (Storage.save p.table) t)
              saver.workers s.storage).2) := by
      rw [h.table] at hturns
      simp only [Scope.syncAll, hsaver, Saver.sync, h.table, hturns, withWorkers]
    rw [hresult]
    obtain ⟨hworks, hmoves, hall⟩ := h.mapWorkers hp hsaver stopped
      (f := fun w t => w.request.turn (Storage.save p.table) t)
      (Q := fun w v => stopped = false → v.fate? ⟨w.opened⟩ = some true → v.pending = [])
      (fun w t hfit hlive => by
        have hrequest := Worker.advance_request (fun t => Storage.rows t p.table) w t
        obtain ⟨hadvance, hfit'⟩ := Worker.advance_then_turn (Storage.takes_save p.table) hfit
          hrequest hfit.orderly.request
        refine ⟨⟨hadvance, hfit'⟩, fun hrunning => ?_, ?_⟩
        · exact (hlive hrunning).request.turn (Storage.takes_save p.table)
            (hfit.of_advance hfit.orderly.request hrequest hfit.good)
        · intro hrunning htold
          exact Worker.pending_of_told (hlive hrunning) hfit.orderly htold)
    refine ⟨hworks, hmoves, fun hrunning hok => ?_⟩
    exact Saver.told_of_outcome hok (hall.imp fun _ _ hQ => hQ hrunning)

/-! ## Closing -/

/-- The source is closed.  If no worker had anything in its hands, nothing is pending. -/
theorem Works.close (h : s.Works p stopped) (hp : p.domain.Distinct) :
    s.close.Works p true ∧ Ledger.Moves p.domain s.ledger s.close.ledger ∧
      ((∀ w ∈ s.ledger.workers, w.consumer = .waiting ∨ w.pending = []) → s.close.Quiet) := by
  obtain ⟨saver, hsaver, hworkers⟩ := h.exists_saver
  have hresult : s.close = s.withWorkers saver
      (Saver.mapWorkers (fun w t => w.close.turn (Storage.save p.table) t)
        saver.workers s.storage).1
      (Saver.mapWorkers (fun w t => w.close.turn (Storage.save p.table) t)
        saver.workers s.storage).2 := by
    simp only [Scope.close, stepSaver, hsaver, Saver.close, Saver.step, Saver.mapWorkers_map,
      h.table, withWorkers]
  rw [hresult]
  obtain ⟨hworks, hmoves, hall⟩ := h.mapWorkers hp hsaver true
    (f := fun w t => w.close.turn (Storage.save p.table) t)
    (Q := fun w v => w.consumer = .waiting ∨ w.pending = [] → v.pending = [])
    (fun w t hfit _ => by
      have hclose := Worker.advance_close (fun t => Storage.rows t p.table) w t
      obtain ⟨hadvance, hfit'⟩ := Worker.advance_then_turn (Storage.takes_save p.table) hfit
        hclose hfit.orderly.close
      refine ⟨⟨hadvance, hfit'⟩, (fun hno => by cases hno), ?_⟩
      rintro (hwaiting | hnone)
      · exact Worker.pending_close_turn hwaiting
      · exact hadvance.pending_eq_nil hnone)
  refine ⟨hworks, hmoves, fun hfree => ?_⟩
  exact quiet_of_forall₂ (by rw [← hworkers]; exact hfree) hall

/-! ## Putting -/

/-- The commit of a record gets a place in its worker, perhaps after a rotation. -/
theorem Works.exists_put (h : s.Works p false) (hp : p.domain.Distinct) (i : Instance) :
    ∃ saver w₁ t₁ place j v, s.source.saver = some saver ∧
      Ledger.Moves p.domain s.ledger
        (s.ledger.setWorker (s.ledger.laneOf i.record.key) w₁ t₁) ∧
      (s.ledger.setWorker (s.ledger.laneOf i.record.key) w₁ t₁).workers[
        s.ledger.laneOf i.record.key]? = some w₁ ∧
      w₁.Live ∧ (place = none ∨ place = i.record.header.savingIndex) ∧
      w₁.put (.snapshot i.record.capture) place = .placed j v ∧
      saver.put (Storage.save s.source.table) (.snapshot i.record.capture)
          i.record.header.savingIndex s.storage =
        (some j, { saver with
          workers := saver.workers.set (s.ledger.laneOf i.record.key) v }, t₁) := by
  obtain ⟨saver, hsaver, -⟩ := h.exists_saver
  obtain ⟨w, hw, hw', hlane⟩ := h.exists_worker hsaver i.record.key
  have hfit := (h.manned.lanes _ w hw').fit
  have hlive : w.Live := h.live rfl w (List.mem_of_getElem? hw')
  obtain ⟨w₁, t₁, place, j, v, hadvance, hfit₁, hlive₁, hplace, hput, hputWorker⟩ :=
    Worker.putWorker_spec (Storage.takes_save p.table) hfit hlive (.snapshot i.record.capture)
      i.record.header.savingIndex
  have hlt : s.ledger.laneOf i.record.key < s.ledger.workers.length :=
    (List.getElem?_eq_some_iff.mp hw').1
  refine ⟨saver, w₁, t₁, place, j, v, hsaver, h.manned.advance hp hw' hadvance hfit₁, ?_, hlive₁,
    hplace, hput, ?_⟩
  · simp [Ledger.setWorker, hlt]
  · have hhash : (Commitment.snapshot i.record.capture).hash = i.record.key.hash := rfl
    have htable : s.ledger.table = s.storage := rfl
    rw [Saver.put, hhash]
    simp only [hw, h.table, ← htable, hputWorker, hlane]

end Works

end Scope

end WriteBehind
