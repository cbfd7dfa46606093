import Mathlib.Data.List.Forall2
import WriteBehind.Proofs.Delivery

/-!
# Steps of a saver

A saver acts on its workers one after the other.  `mapWorkers_spec` takes such an action
apart into steps of single workers, so what every step of a worker keeps is kept by the
saver.  A commitment that finds its batch full gets a fresh one, after the consumer has
finished what it holds and flushed the full one; and whoever was told that a batch was saved
knows that nothing that came before is pending any more.
-/

namespace WriteBehind

variable {σ : Type}

namespace Worker

variable {save : Save σ} {rowsOf : σ → Rows} {Good : σ → Prop} {w w' : Worker} {t : σ}

/-! ## Closing -/

theorem Orderly.close (hw : w.Orderly) : w.close.Orderly := by
  rcases close_cases w with hclose | ⟨hc, hclose⟩
  · rw [hclose]
    exact hw.setRunning false
  · rw [hclose]
    exact hw.setWaiting (.inr hc) false

theorem advance_close (rowsOf : σ → Rows) (w : Worker) (t : σ) :
    Advance rowsOf w t w.close t := by
  rcases close_cases w with hclose | ⟨hc, hclose⟩
  · rw [hclose]
    exact .of_same rfl rfl rfl
  · rw [hclose]
    refine .of_same ?_ rfl rfl
    simp [leaving, hc]

theorem Advance.pending_eq_nil {t' : σ} (h : Advance rowsOf w t w' t') (hnone : w.pending = []) :
    w'.pending = [] := by
  refine List.eq_nil_iff_forall_not_mem.mpr fun c hc => ?_
  have hmem := h.subset c hc
  rw [hnone] at hmem
  cases hmem

/-- Whatever a worker does before its turn, the turn goes on from there. -/
theorem advance_then_turn (hsave : Takes save rowsOf Good) (h : Fit Good w t)
    (hbefore : Advance rowsOf w t w' t) (hw' : w'.Orderly) :
    Advance rowsOf w t (w'.turn save t).1 (w'.turn save t).2 ∧
      Fit Good (w'.turn save t).1 (w'.turn save t).2 := by
  obtain ⟨hturn, hfit⟩ := advance_turn hsave (h.of_advance hw' hbefore h.good)
  exact ⟨hbefore.trans hturn, hfit⟩

/-- The last turn of a worker whose consumer is free leaves nothing behind. -/
theorem pending_close_turn (hc : w.consumer = .waiting) :
    (w.close.turn save t).1.pending = [] := by
  rw [pending_turn]
  simp [poll, close, hc, incoming]

/-! ## Waiting for a flush -/

theorem flushed_flush_of_inFlight (save : Save σ) {b : Batch} (hb : w.inFlight? = some b)
    (t : σ) : (w.flush save t).1.flushed.length = w.flushed.length + 1 := by
  rw [flush_eq]
  cases hc : w.consumer with
  | saving batch final => simp [deliver_of_saving hc, saved_of_saving hc, recycle]
  | recycling batch aborted final =>
      rw [deliver_of_not_saving (by simp [hc])]
      simp [recycle, hc]
  | resting | waiting | closing | ended => simp [inFlight?, hc] at hb

/-- Whoever asked for a flush and was told that it took place: nothing is pending. -/
theorem pending_of_told (h : w.Live) (hw : w.Orderly)
    (htold : (w.request.turn save t).1.fate? ⟨w.opened⟩ = some true) :
    (w.request.turn save t).1.pending = [] := by
  obtain ⟨b, hb⟩ := Option.isSome_iff_exists.mp h.receiving
  have hrequest : w.request = { w with receiving := some b.waiter.2 } := by
    simp [request, sync, h.running, hb]
  rw [pending_turn]
  cases hf : w.inFlight? with
  | none =>
      have hawaited : (w.request.due b.waiter.2).consumable = true :=
        consumable_due _ (by simp [Batch.waiter, Batch.consumable])
      have hwaiting := waiting_of_live h hf
      have hc : w.request.consumer = .waiting := by
        rw [hrequest]
        exact hwaiting
      exact incoming_poll_of_consumable hw.request hc (by rw [hrequest]) hawaited
  | some c =>
      exfalso
      have hf' : w.request.inFlight? = some c := by
        rw [hrequest]
        exact hf
      have hpoll : w.request.poll = w.request := by
        have hne : w.request.consumer ≠ .waiting := by
          intro hc
          simp [inFlight?, hc] at hf'
        rw [poll]
        split
        next hc => exact absurd hc hne
        · rfl
      have hlength := flushed_flush_of_inFlight save hf' t
      have hopened : w.opened = w.request.flushed.length + 1 := by
        rw [hrequest, opened, hf]
        rfl
      rw [turn, hpoll, fate?, hopened] at htold
      rw [List.getElem?_eq_none (Nat.le_of_eq hlength)] at htold
      cases htold

/-! ## Putting -/

theorem length_of_put_error {b : Batch} {c e : Commitment} {index : Option Nat}
    (h : b.put c index = .error e) : batchSize ≤ b.entries.length := by
  have hpush : b.push c = .error e → batchSize ≤ b.entries.length := by
    intro hp
    rw [Batch.push] at hp
    split at hp
    · cases hp
    next hge => exact Nat.le_of_not_lt hge
  cases index with
  | none => exact hpush h
  | some i =>
      rw [Batch.put] at h
      cases hm : b.mergeAt c i with
      | none =>
          rw [hm] at h
          exact hpush h
      | some b' =>
          rw [hm] at h
          cases h

/-- A running worker with an empty batch takes everything. -/
theorem exists_put_of_empty (h : w.Live) (hempty : w.incoming = []) (c : Commitment) :
    ∃ i w', w.put c none = .placed i w' := by
  obtain ⟨b, hb⟩ := Option.isSome_iff_exists.mp h.receiving
  have hentries : b.entries = [] := by
    rw [← incoming_of_receiving hb]
    exact hempty
  have hput : b.put c none = .ok (b.entries.length,
      { b with entries := b.entries ++ [c], journal := b.journal.log c }) := by
    rw [Batch.put, Batch.push, if_pos]
    rw [hentries]
    decide
  refine ⟨b.entries.length, { w with
    receiving := some { b with entries := b.entries ++ [c], journal := b.journal.log c }
    deadline := if w.deadline = .none then .armed else w.deadline }, ?_⟩
  simp [put, h.running, hb, hput]

theorem put_ne_refused (h : w.Live) (c : Commitment) (index : Option Nat) :
    w.put c index ≠ .refused := by
  obtain ⟨b, hb⟩ := Option.isSome_iff_exists.mp h.receiving
  intro hrefused
  rw [put, h.running, hb] at hrefused
  cases hput : b.put c index <;> simp [hput] at hrefused

/-- A running worker that has taken a full batch receives into an empty one, whatever its
consumer held before. -/
theorem makeRoom_spec (hsave : Takes save rowsOf Good) (hfit : Fit Good w t) (h : w.Live)
    (hfull : batchSize ≤ w.incoming.length) :
    Advance rowsOf w t (w.makeRoom save t).1 (w.makeRoom save t).2 ∧
      Fit Good (w.makeRoom save t).1 (w.makeRoom save t).2 ∧ (w.makeRoom save t).1.Live ∧
      (w.makeRoom save t).1.incoming = [] := by
  obtain ⟨hflush, hfit₁⟩ := advance_flush hsave hfit
  obtain ⟨hturn, hfit₂⟩ := advance_turn hsave hfit₁
  have hlive := h.flush hsave hfit
  refine ⟨hflush.trans hturn, hfit₂, hlive.turn hsave hfit₁, ?_⟩
  have hfree : (w.flush save t).1.consumer = .waiting :=
    waiting_of_live hlive (not_busy_flush save w t)
  obtain ⟨b, hb⟩ := Option.isSome_iff_exists.mp hlive.receiving
  have hentries : b.entries = w.incoming := by
    rw [← incoming_of_receiving hb, incoming_flush]
  have hdue : ((w.flush save t).1.due b).consumable = true :=
    consumable_due _ (by simp [Batch.consumable, Batch.size, hentries, hfull])
  have hpending := pending_turn save (w.flush save t).1 (w.flush save t).2
  rw [incoming_poll_of_consumable hfit₁.orderly hfree hb hdue] at hpending
  exact (List.append_eq_nil_iff.mp hpending).2

/-- A commitment gets a place in a running worker, perhaps after a rotation, and then
without the place that it came with. -/
theorem putWorker_spec (hsave : Takes save rowsOf Good) (hfit : Fit Good w t) (h : w.Live)
    (c : Commitment) (index : Option Nat) :
    ∃ w₁ t₁ place i w', Advance rowsOf w t w₁ t₁ ∧ Fit Good w₁ t₁ ∧ w₁.Live ∧
      (place = none ∨ place = index) ∧ w₁.put c place = .placed i w' ∧
      Saver.putWorker save w c index t = (some i, w', t₁) := by
  cases hput : w.put c index with
  | refused => exact absurd hput (put_ne_refused h c index)
  | placed i w' =>
      exact ⟨w, t, index, i, w', .refl rowsOf w t, hfit, h, .inr rfl, hput,
        by simp [Saver.putWorker, hput]⟩
  | full =>
      obtain ⟨b, hb⟩ := Option.isSome_iff_exists.mp h.receiving
      have hfull : batchSize ≤ w.incoming.length := by
        rw [incoming_of_receiving hb]
        cases hbput : b.put c index with
        | ok r =>
            obtain ⟨i, b'⟩ := r
            simp [put, h.running, hb, hbput] at hput
        | error e => exact length_of_put_error hbput
      obtain ⟨hadvance, hfit', hlive, hempty⟩ := makeRoom_spec hsave hfit h hfull
      obtain ⟨i, w', hput'⟩ := exists_put_of_empty hlive hempty c
      exact ⟨_, _, none, i, w', hadvance, hfit', hlive, .inl rfl, hput',
        by simp [Saver.putWorker, hput, hput']⟩

end Worker

namespace Saver

/-! ## All workers -/

/-- An action on all workers, taken apart into steps of single ones. -/
theorem mapWorkers_spec {f : Worker → σ → Worker × σ} {P : List Worker → σ → Prop}
    {R : Worker → Prop} {Q : Worker → Worker → Prop}
    (hstep : ∀ ws n w t, P ws t → ws[n]? = some w → R w →
      P (ws.set n (f w t).1) (f w t).2 ∧ Q w (f w t).1)
    (ws : List Worker) {t : σ} (hP : P ws t) (hR : ∀ w ∈ ws, R w) :
    P (mapWorkers f ws t).1 (mapWorkers f ws t).2 ∧
      List.Forall₂ Q ws (mapWorkers f ws t).1 := by
  -- The induction is on the workers still to act, behind those that have acted.
  have hprefix : ∀ (ws done : List Worker) (t : σ), P (done ++ ws) t → (∀ w ∈ ws, R w) →
      P (done ++ (mapWorkers f ws t).1) (mapWorkers f ws t).2 ∧
        List.Forall₂ Q ws (mapWorkers f ws t).1 := by
    intro ws
    induction ws with
    | nil =>
        intro done t hP _
        exact ⟨hP, .nil⟩
    | cons w ws ih =>
        intro done t hP hR
        have hget : (done ++ w :: ws)[done.length]? = some w := by simp
        obtain ⟨hP', hQ⟩ := hstep _ _ w t hP hget (hR w List.mem_cons_self)
        have hset : (done ++ w :: ws).set done.length (f w t).1 =
            (done ++ [(f w t).1]) ++ ws := by simp
        rw [hset] at hP'
        obtain ⟨hrest, hall⟩ := ih _ _ hP' fun v hv => hR v (List.mem_cons_of_mem w hv)
        refine ⟨?_, .cons hQ hall⟩
        simpa [mapWorkers] using hrest
  exact hprefix ws [] t hP hR

theorem mapWorkers_map (f : Worker → σ → Worker × σ) (g : Worker → Worker) (ws : List Worker)
    (t : σ) : mapWorkers f (ws.map g) t = mapWorkers (fun w t => f (g w) t) ws t := by
  induction ws generalizing t with
  | nil => rfl
  | cons w ws ih => simp only [List.map_cons, mapWorkers, ih]

/-- A step of one worker. -/
def advance (save : Save σ) (s : Saver) (n : Nat) (a : DeliveryStep) (table : σ) : Saver × σ :=
  match s.workers[n]? with
  | none => (s, table)
  | some w =>
    let (w, table) := w.advance save table a
    ({ s with workers := s.workers.set n w }, table)

/-- Workers that all run are asked for a flush. -/
theorem syncWorkers_eq_some {ws : List Worker} {asked : List (Waiter × Worker)}
    (h : syncWorkers ws = some asked) :
    asked = ws.map fun w => (⟨w.opened⟩, w.request) := by
  induction ws generalizing asked with
  | nil =>
      obtain rfl : [] = asked := by simpa [syncWorkers] using h
      rfl
  | cons w ws ih =>
      cases hs : w.sync with
      | none => simp [syncWorkers, hs] at h
      | some r =>
          cases hrest : syncWorkers ws with
          | none => simp [syncWorkers, hs, hrest] at h
          | some rs =>
              obtain rfl : r :: rs = asked := by simpa [syncWorkers, hs, hrest] using h
              obtain ⟨waiter, w'⟩ := r
              obtain ⟨b, -, rfl, -⟩ := Worker.sync_eq_some hs
              rw [ih hrest, List.map_cons, Worker.request, hs]

/-- Workers that were all asked take a turn each. -/
theorem syncAmong_of_asked {ws : List Worker} {asked : List (Waiter × Worker)}
    (hs : syncWorkers ws = some asked) (save : Save σ) (ns : String) (t : σ) :
    syncAmong save ns ws t =
      (outcome ns ((ws.map fun w => (⟨w.opened⟩ : Waiter)).zip
          (mapWorkers (fun w t => w.request.turn save t) ws t).1),
        mapWorkers (fun w t => w.request.turn save t) ws t) := by
  have hturns := mapWorkers_map (Worker.turn save) Worker.request ws t
  simp only [syncAmong, hs, syncWorkers_eq_some hs, List.map_map, Function.comp_def]
  rw [hturns]

/-- A sync is refused, or it lets every worker take a turn. -/
theorem syncAmong_cases (save : Save σ) (ns : String) (ws : List Worker) (t : σ) :
    (∃ e, syncAmong save ns ws t = (.error e, ws, t)) ∨
      syncAmong save ns ws t =
        (outcome ns ((ws.map fun w => (⟨w.opened⟩ : Waiter)).zip
            (mapWorkers (fun w t => w.request.turn save t) ws t).1),
          mapWorkers (fun w t => w.request.turn save t) ws t) := by
  cases hs : syncWorkers ws with
  | none =>
      left
      exact ⟨.saverClosed ns, by simp [syncAmong, hs]⟩
  | some asked =>
      right
      exact syncAmong_of_asked hs save ns t

/-- A sync succeeds only if every worker that was asked tells so. -/
theorem told_of_outcome {ns : String} {ws vs : List Worker}
    (h : outcome ns ((ws.map fun w => (⟨w.opened⟩ : Waiter)).zip vs) = .ok ())
    (hQ : List.Forall₂ (fun w v => v.fate? ⟨w.opened⟩ = some true → v.pending = []) ws vs) :
    ∀ v ∈ vs, v.pending = [] := by
  have hall : ((ws.map fun w => (⟨w.opened⟩ : Waiter)).zip vs).all
      (fun told => told.2.fate? told.1 = some true) = true := by
    rw [outcome] at h
    split at h
    next hall => exact hall
    · cases h
  clear h
  induction hQ with
  | nil =>
      intro v hv
      cases hv
  | cons hQ _ ih =>
      simp only [List.map_cons, List.zip_cons_cons, List.all_cons, Bool.and_eq_true,
        decide_eq_true_eq] at hall
      intro v hv
      rcases List.mem_cons.mp hv with rfl | hv
      · exact hQ hall.1
      · exact ih hall.2 v hv

end Saver

end WriteBehind
