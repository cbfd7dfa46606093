import WriteBehind.Proofs.Coalescing
import WriteBehind.Proofs.Delivery
import WriteBehind.Proofs.Overtaking

/-!
# Submission order among several instances of a key

Instances of records save through one worker, each with the place of its last
snapshot, while the worker delivers to its table at any time.  Several instances may
have the same key.  Then a snapshot that is merged into the entry of its instance can
be overtaken by the entries of others, and a place that is out of date can lead to the
entry of another instance.  `flushed_iff_inStep` says exactly when the rows are still
those of the snapshots applied one by one, whenever the worker is flushed: if and only
if every merged snapshot is in step.  `exists_overtaken` shows that this may fail.
-/

namespace WriteBehind

variable {σ : Type}

/-- A worker, its table, the places of the instances that save through it, and what
they have saved so far. -/
structure Line (σ : Type) where
  worker : Worker := ({} : Worker).start
  table : σ
  places : Nat → Option Nat := fun _ => none
  saves : List Submission := []

/-- An instance saves, perhaps after it had to wait, or the worker goes on. -/
inductive LineStep where
  | save (s : Submission) (again : Bool)
  | deliver (step : DeliveryStep)

namespace Line

/-- The place that a save comes with.  One that had to wait comes without. -/
def placeOf (l : Line σ) (owner : Nat) (again : Bool) : Option Nat :=
  if again then none else l.places owner

/-- The line after a step.  While a batch is full nothing is saved. -/
def step (save : Save σ) (l : Line σ) : LineStep → Line σ
  | .save s again =>
    match l.worker.put s.commitment (l.placeOf s.owner again) with
    | .placed i worker =>
      { l with
        worker
        places := Function.update l.places s.owner (some i)
        saves := l.saves ++ [s] }
    | _ => l
  | .deliver a =>
    let (worker, table) := l.worker.advance save l.table a
    { l with worker, table }

/-- The line after some steps. -/
def run (save : Save σ) (l : Line σ) (steps : List LineStep) : Line σ :=
  steps.foldl (step save) l

/-- Flushes what is pending: the batch on its way, then the receiving one. -/
def flush (save : Save σ) (l : Line σ) : Line σ :=
  let (worker, table) := l.worker.flush save l.table
  let (worker, table) := worker.request.turn save table
  { l with worker, table }

/-- The rows that come out when everything pending is applied. -/
def eventual (rowsOf : σ → Rows) (l : Line σ) : Rows :=
  (rowsOf l.table).applyAll (prepareAll l.worker.pending)

/-- Whether a save that is merged into an entry acts as if it came last. -/
def InStep (rowsOf : σ → Rows) (l : Line σ) (s : Submission) (again : Bool) : Prop :=
  ∀ i entry, l.placeOf s.owner again = some i →
    l.worker.incoming[i]? = some (.snapshot entry) → entry.absorbs s.snapshot = true →
    WriteBehind.InStep entry s.snapshot
      (effectOf s.snapshot.key.text (l.worker.incoming.drop (i + 1)))
      (replay s.snapshot.key.text (l.worker.leaving ++ l.worker.incoming.take i)
        ((rowsOf l.table).get? s.snapshot.key.text))

end Line

/-- The steps of a line on which each instance saves as records commit: what has
changed since its last save is marked, and nothing comes after a removal.  Several
instances may have one key. -/
inductive LineSteps (save : Save σ) (l : Line σ) : List LineStep → Prop
  | nil : LineSteps save l []
  | deliver {steps : List LineStep} (before : LineSteps save l steps) (a : DeliveryStep) :
      LineSteps save l (steps ++ [.deliver a])
  | first {steps : List LineStep} (before : LineSteps save l steps) (owner : Nat)
      {c : Snapshot} (sound : c.Sound) (again : Bool)
      (first : lastOf (l.run save steps).saves owner = none) :
      LineSteps save l (steps ++ [.save ⟨owner, c⟩ again])
  | next {steps : List LineStep} (before : LineSteps save l steps) (owner : Nat)
      {p c : Snapshot} (sound : c.Sound) (again : Bool)
      (previous : lastOf (l.run save steps).saves owner = some p) (follows : p.Follows c) :
      LineSteps save l (steps ++ [.save ⟨owner, c⟩ again])

/-! ## Putting into a running worker -/

/-- An entry takes what it absorbs. -/
theorem Batch.put_of_absorbs {b : Batch} {c e : Snapshot} {i : Nat}
    (hentry : b.entries[i]? = some (.snapshot e)) (habsorbs : e.absorbs c = true) :
    ∃ m b', e.merge c = some m ∧ b.put (.snapshot c) (some i) = .ok (i, b') ∧
      b'.entries = b.entries.set i (.snapshot m) := by
  obtain ⟨m, hm⟩ := Option.isSome_iff_exists.mp ((e.isSome_merge c).trans habsorbs)
  have hmerge : b.mergeAt (.snapshot c) i = some { b with
      entries := b.entries.set i (.snapshot m), journal := b.journal.log (.snapshot c) } := by
    simp [mergeAt, hentry, Commitment.merge, hm]
  exact ⟨m, { b with
      entries := b.entries.set i (.snapshot m), journal := b.journal.log (.snapshot c) },
    hm, by simp only [put, hmerge], rfl⟩

namespace Line

variable {save : Save σ} {rowsOf : σ → Rows} {Good : σ → Prop} {l l' : Line σ}

/-- What a line keeps to. -/
structure Kept (Good : σ → Prop) (l : Line σ) : Prop where
  fit : Worker.Fit Good l.worker l.table
  live : l.worker.Live
  unplaced : ∀ o, lastOf l.saves o = none → l.places o = none

theorem kept_start {t : σ} (ht : Good t) : Kept Good ({ table := t } : Line σ) := by
  refine ⟨⟨Worker.orderly_empty.setWaiting (.inl rfl) true, ?_, ht⟩, Worker.live_start,
    fun _ _ => rfl⟩
  intro c hc
  cases hc

theorem Kept.deliver (hsave : Takes save rowsOf Good) (h : l.Kept Good) (a : DeliveryStep) :
    (l.step save (.deliver a)).Kept Good ∧
      (l.step save (.deliver a)).eventual rowsOf = l.eventual rowsOf := by
  obtain ⟨hadvance, hfit⟩ := Worker.advance_spec hsave h.fit a
  exact ⟨⟨hfit, h.live.advance hsave h.fit a, h.unplaced⟩, hadvance.settled⟩

/-- Whether the entry at the place of a save takes it. -/
def Absorbed (l : Line σ) (s : Submission) (again : Bool) (i : Nat) (e : Snapshot) : Prop :=
  l.placeOf s.owner again = some i ∧ l.worker.incoming[i]? = some (.snapshot e) ∧
    e.absorbs s.snapshot = true

theorem step_save_placed (save : Save σ) {s : Submission} {again : Bool} {i : Nat} {w : Worker}
    (h : l.worker.put s.commitment (l.placeOf s.owner again) = .placed i w) :
    l.step save (.save s again) = { l with
      worker := w
      places := Function.update l.places s.owner (some i)
      saves := l.saves ++ [s] } := by
  simp only [step, h]

/-- What a save does to the receiving batch: it is merged into the entry at its place, it
goes to the end, or it has to wait. -/
theorem step_save_cases (save : Save σ) (hlive : l.worker.Live) (s : Submission)
    (again : Bool) :
    (∃ i e m, l.Absorbed s again i e ∧ e.merge s.snapshot = some m ∧
      (l.step save (.save s again)).worker.incoming =
        l.worker.incoming.set i (.snapshot m) ∧
      (l.step save (.save s again)).saves = l.saves ++ [s]) ∨
    (∀ i e, ¬ l.Absorbed s again i e) ∧
      ((l.step save (.save s again)).worker.incoming = l.worker.incoming ++ [s.commitment] ∧
          (l.step save (.save s again)).saves = l.saves ++ [s] ∨
        l.step save (.save s again) = l) := by
  obtain ⟨b, hb⟩ := Option.isSome_iff_exists.mp hlive.receiving
  have hincoming : l.worker.incoming = b.entries := Worker.incoming_of_receiving hb
  have hplaced : ∀ i b', b.put s.commitment (l.placeOf s.owner again) = .ok (i, b') →
      (l.step save (.save s again)).worker.incoming = b'.entries ∧
        (l.step save (.save s again)).saves = l.saves ++ [s] := by
    intro i b' hput
    have hw : l.worker.put s.commitment (l.placeOf s.owner again) = .placed i { l.worker with
        receiving := some b'
        deadline := if l.worker.deadline = .none then .armed else l.worker.deadline } := by
      simp [Worker.put, hlive.running, hb, hput]
    rw [step_save_placed save hw]
    exact ⟨rfl, rfl⟩
  by_cases habsorbed : ∃ i e, l.Absorbed s again i e
  · left
    obtain ⟨i, e, hplace, hentry, habsorbs⟩ := habsorbed
    have hentry' := hentry
    rw [hincoming] at hentry'
    obtain ⟨m, b', hm, hput, hentries⟩ := Batch.put_of_absorbs hentry' habsorbs
    rw [← hplace] at hput
    obtain ⟨hnew, hsaves⟩ := hplaced i b' hput
    refine ⟨i, e, m, ⟨hplace, hentry, habsorbs⟩, hm, ?_, hsaves⟩
    rw [hnew, hentries, hincoming]
  · right
    refine ⟨fun i e h => habsorbed ⟨i, e, h⟩, ?_⟩
    cases hput : b.put s.commitment (l.placeOf s.owner again) with
    | ok r =>
        left
        obtain ⟨i, b'⟩ := r
        obtain ⟨hnew, hsaves⟩ := hplaced i b' hput
        rcases Batch.put_eq_ok hput with
          ⟨-, -, rfl⟩ | ⟨hplace, entry, merged, hentry, hmerge, rfl⟩
        · rw [hincoming]
          exact ⟨hnew, hsaves⟩
        · exfalso
          cases entry with
          | foreign f => simp [Commitment.merge] at hmerge
          | snapshot e =>
              have habsorbs : e.absorbs s.snapshot = true := by
                rw [← Snapshot.isSome_merge]
                simp only [Commitment.merge, Submission.commitment,
                  Option.map_eq_some_iff] at hmerge
                obtain ⟨m, hm, -⟩ := hmerge
                rw [hm]
                rfl
              exact habsorbed ⟨i, e, hplace, by rw [hincoming]; exact hentry, habsorbs⟩
    | error c =>
        right
        have hfull : l.worker.put s.commitment (l.placeOf s.owner again) = .full := by
          simp [Worker.put, hlive.running, hb, hput]
        simp only [step, hfull]

/-- A save touches neither the batch on its way nor the table. -/
theorem step_save_leaving (save : Save σ) (l : Line σ) (s : Submission) (again : Bool) :
    (l.step save (.save s again)).worker.leaving = l.worker.leaving ∧
      (l.step save (.save s again)).table = l.table := by
  cases hput : l.worker.put s.commitment (l.placeOf s.owner again) with
  | placed i w =>
      obtain ⟨b, b', -, -, rfl⟩ := Worker.put_eq_placed hput
      rw [step_save_placed save hput]
      exact ⟨rfl, rfl⟩
  | full | refused => simp [step, hput]

theorem Kept.saved (h : l.Kept Good) {s : Submission} (hs : s.snapshot.Sound) (again : Bool) :
    (l.step save (.save s again)).Kept Good := by
  cases hput : l.worker.put s.commitment (l.placeOf s.owner again) with
  | full | refused =>
      have hsame : l.step save (.save s again) = l := by simp only [step, hput]
      rw [hsame]
      exact h
  | placed i w =>
      rw [step_save_placed save hput]
      refine ⟨h.fit.put hput hs, h.live.put hput, ?_⟩
      intro o ho
      rw [lastOf_concat] at ho
      split at ho
      · cases ho
      next hne =>
        dsimp only
        rw [Function.update_of_ne (Ne.symm hne)]
        exact h.unplaced o ho

theorem get?_eventual (rowsOf : σ → Rows) (l : Line σ) (k : String) :
    (l.eventual rowsOf).get? k =
      replay k l.worker.incoming (replay k l.worker.leaving ((rowsOf l.table).get? k)) := by
  rw [eventual, Rows.get?_applyAll_prepareAll, Worker.pending, replay_append]

theorem applyEach_concat (rows : Rows) (subs : List Submission) (s : Submission) (k : String) :
    (applyEach rows (subs ++ [s])).get? k =
      if s.snapshot.key.text = k then s.commitment.onRow ((applyEach rows subs).get? k)
      else (applyEach rows subs).get? k := by
  rw [get?_applyEach, get?_applyEach, replay_map_concat]

/-- If the rows were right before a save, they are right after it exactly if the save is
in step. -/
theorem eventual_save_iff (h : l.Kept Good) {rows : Rows} {s : Submission}
    (hs : s.snapshot.Sound) {again : Bool}
    (hnext : l.placeOf s.owner again ≠ none → s.snapshot.pending.lifecycle = .normal ∨
      s.snapshot.pending.lifecycle = .deleted)
    (hright : l.eventual rowsOf = applyEach rows l.saves) :
    (l.step save (.save s again)).eventual rowsOf =
        applyEach rows (l.step save (.save s again)).saves ↔
      l.InStep rowsOf s again := by
  obtain ⟨hleaving, htable⟩ := step_save_leaving save l s again
  have hbefore : ∀ k, replay k l.worker.incoming
      (replay k l.worker.leaving ((rowsOf l.table).get? k)) =
        (applyEach rows l.saves).get? k := by
    intro k
    rw [← get?_eventual, hright]
  rcases step_save_cases save h.live s again with
    ⟨i, e, m, ⟨hplace, hentry, habsorbs⟩, hm, hincoming, hsaves⟩ | ⟨hnot, hcases⟩
  · have he : e.Sound := h.fit.sound _ (List.mem_append_right _ (List.mem_of_getElem? hentry))
    obtain ⟨-, hkey, -, -, hmkey, -⟩ := Snapshot.merge_eq_some hm
    have hekey : (Commitment.snapshot e).keyText = s.snapshot.key.text :=
      congrArg Key.text hkey.symm
    have hmkey' : (Commitment.snapshot m).keyText = s.snapshot.key.text :=
      congrArg Key.text (hmkey.trans hkey.symm)
    -- What stands behind the merged entry acts on its row as one effect.
    have hexact := apply_merge_iff_inStep hm he hs (hnext (by rw [hplace]; simp))
      (effectOf s.snapshot.key.text (l.worker.incoming.drop (i + 1)))
      (replay s.snapshot.key.text (l.worker.leaving ++ l.worker.incoming.take i)
        ((rowsOf l.table).get? s.snapshot.key.text))
    rw [replay_append, ← replay_set_around hentry hmkey', ← replay_around hentry hekey,
      hbefore] at hexact
    have hline : l.InStep rowsOf s again ↔ WriteBehind.InStep e s.snapshot
        (effectOf s.snapshot.key.text (l.worker.incoming.drop (i + 1)))
        (replay s.snapshot.key.text (l.worker.leaving ++ l.worker.incoming.take i)
          ((rowsOf l.table).get? s.snapshot.key.text)) := by
      constructor
      · intro hin
        exact hin i e hplace hentry habsorbs
      · intro hin i' e' hplace' hentry' _
        obtain rfl : i = i' := Option.some.inj (hplace.symm.trans hplace')
        rw [hentry, Option.some.injEq, Commitment.snapshot.injEq] at hentry'
        exact hentry' ▸ hin
    rw [hline, replay_append, ← hexact]
    constructor
    · intro heq
      have hkeyed := congrArg (SortedMap.get? · s.snapshot.key.text) heq
      rw [get?_eventual, hleaving, htable, hincoming, hsaves, applyEach_concat,
        if_pos rfl] at hkeyed
      exact hkeyed
    · intro hkeyed
      refine SortedMap.ext_get? fun k => ?_
      rw [get?_eventual, hleaving, htable, hincoming, hsaves, applyEach_concat]
      split
      next hk =>
        subst hk
        exact hkeyed
      next hk =>
        rw [replay_set_of_ne hentry (by rw [hekey]; exact hk) (by rw [hmkey']; exact hk)]
        exact hbefore k
  -- Nothing was merged, so the commitment comes last, or it is refused.
  · have hvacuous : l.InStep rowsOf s again :=
      fun i e hplace hentry habsorbs => absurd ⟨hplace, hentry, habsorbs⟩ (hnot i e)
    refine iff_of_true ?_ hvacuous
    rcases hcases with ⟨hincoming, hsaves⟩ | hsame
    · refine SortedMap.ext_get? fun k => ?_
      rw [get?_eventual, hleaving, htable, hincoming, hsaves, applyEach_concat, replay_concat,
        hbefore]
      rfl
    · rw [hsame]
      exact hright

/-- A flush gives the rows that come out in the end. -/
theorem Kept.rows_flush (hsave : Takes save rowsOf Good) (h : l.Kept Good) :
    rowsOf (l.flush save).table = l.eventual rowsOf := by
  obtain ⟨hflush, hfit⟩ := Worker.advance_flush hsave h.fit
  have hlive := h.live.flush hsave h.fit
  have hrequest := Worker.advance_request rowsOf (l.worker.flush save l.table).1
    (l.worker.flush save l.table).2
  have hfit' := hfit.of_advance hfit.orderly.request hrequest hfit.good
  obtain ⟨hturn, -⟩ := Worker.advance_turn hsave hfit'
  have hsettled := ((hflush.trans hrequest).trans hturn).settled
  have hpending : ((l.worker.flush save l.table).1.request.turn save
      (l.worker.flush save l.table).2).1.pending = [] := by
    rw [Worker.pending_turn]
    obtain ⟨b, hb⟩ := Option.isSome_iff_exists.mp hlive.receiving
    have hawaited : (l.worker.flush save l.table).1.request.receiving = some b.waiter.2 := by
      simp [Worker.request, Worker.sync, hlive.running, hb]
    apply Worker.incoming_poll_of_consumable hfit'.orderly _ hawaited
    · exact Worker.consumable_due _ (by simp [Batch.waiter, Batch.consumable])
    · have hstage : (l.worker.flush save l.table).1.request.consumer =
          (l.worker.flush save l.table).1.consumer := by
        simp [Worker.request, Worker.sync, hlive.running, hb]
      rw [hstage]
      exact Worker.waiting_of_live hlive (Worker.not_busy_flush save l.worker l.table)
  rw [hpending] at hsettled
  exact hsettled

theorem run_concat (save : Save σ) (l : Line σ) (steps : List LineStep) (a : LineStep) :
    l.run save (steps ++ [a]) = (l.run save steps).step save a := by
  simp [run, List.foldl_append]

end Line

/-- Lines on which instances save as records commit are kept in order. -/
theorem LineSteps.kept {save : Save σ} {rowsOf : σ → Rows} {Good : σ → Prop} {t : σ}
    (hsave : Takes save rowsOf Good) (ht : Good t) {steps : List LineStep}
    (h : LineSteps save { table := t } steps) :
    (Line.run save { table := t } steps).Kept Good := by
  induction h with
  | nil => exact Line.kept_start ht
  | deliver before a ih =>
      rw [Line.run_concat]
      exact (ih.deliver hsave a).1
  | first before owner sound again first ih =>
      rw [Line.run_concat]
      exact ih.saved sound again
  | next before owner sound again previous follows ih =>
      rw [Line.run_concat]
      exact ih.saved sound again

theorem LineSteps.of_append {save : Save σ} {l : Line σ} {done steps : List LineStep}
    (h : LineSteps save l steps) (hdone : done <+: steps) : LineSteps save l done := by
  induction h generalizing done with
  | nil =>
      rw [List.prefix_nil.mp hdone]
      exact .nil
  | deliver before a ih =>
      rcases List.prefix_concat_iff.mp hdone with rfl | hdone
      · exact .deliver before a
      · exact ih hdone
  | first before owner sound again first ih =>
      rcases List.prefix_concat_iff.mp hdone with rfl | hdone
      · exact .first before owner sound again first
      · exact ih hdone
  | next before owner sound again previous follows ih =>
      rcases List.prefix_concat_iff.mp hdone with rfl | hdone
      · exact .next before owner sound again previous follows
      · exact ih hdone

theorem concat_prefix_concat {α : Type} {done steps : List α} {x a : α} :
    done ++ [x] <+: steps ++ [a] ↔ (done = steps ∧ x = a) ∨ done ++ [x] <+: steps := by
  rw [List.prefix_concat_iff]
  constructor
  · rintro (heq | h)
    · obtain ⟨hdone, hx⟩ := List.append_inj' heq rfl
      exact .inl ⟨hdone, by simpa using hx⟩
    · exact .inr h
  · rintro (⟨rfl, rfl⟩ | h)
    · exact .inl rfl
    · exact .inr h

section Run

variable {save : Save σ} {rowsOf : σ → Rows} {Good : σ → Prop} {l : Line σ} {rows : Rows}
  {steps : List LineStep}

/-- If the rows are right whenever the saves are in step, then a further save keeps this so
exactly if it is in step, too. -/
theorem right_concat_save (hkept : (l.run save steps).Kept Good)
    (ih : (∀ done, done <+: steps →
        (l.run save done).eventual rowsOf = applyEach rows (l.run save done).saves) ↔
      ∀ done s again, done ++ [.save s again] <+: steps →
        (l.run save done).InStep rowsOf s again)
    {s : Submission} (hs : s.snapshot.Sound) {again : Bool}
    (hnext : (l.run save steps).placeOf s.owner again ≠ none →
      s.snapshot.pending.lifecycle = .normal ∨ s.snapshot.pending.lifecycle = .deleted) :
    (∀ done, done <+: steps ++ [.save s again] →
        (l.run save done).eventual rowsOf = applyEach rows (l.run save done).saves) ↔
      ∀ done s' again', done ++ [.save s' again'] <+: steps ++ [.save s again] →
        (l.run save done).InStep rowsOf s' again' := by
  constructor
  · intro hright
    have hsteps := ih.mp fun done hdone => hright done (List.prefix_concat_iff.mpr (.inr hdone))
    intro done s' again' hdone
    rcases concat_prefix_concat.mp hdone with ⟨rfl, hsave⟩ | hdone
    · cases hsave
      have hbefore := hright done (List.prefix_concat_iff.mpr (.inr (List.prefix_refl done)))
      have hafter := hright _ (List.prefix_refl _)
      rw [Line.run_concat] at hafter
      exact (Line.eventual_save_iff hkept hs hnext hbefore).mp hafter
    · exact hsteps done s' again' hdone
  · intro hsteps
    have hright := ih.mpr fun done s' again' hdone =>
      hsteps done s' again' (concat_prefix_concat.mpr (.inr hdone))
    intro done hdone
    rcases List.prefix_concat_iff.mp hdone with rfl | hdone
    · have hin := hsteps steps s again (concat_prefix_concat.mpr (.inl ⟨rfl, rfl⟩))
      rw [Line.run_concat]
      exact (Line.eventual_save_iff hkept hs hnext (hright steps (List.prefix_refl steps))).mpr hin
    · exact hright done hdone

theorem right_concat_deliver (hsave : Takes save rowsOf Good)
    (hkept : (l.run save steps).Kept Good)
    (ih : (∀ done, done <+: steps →
        (l.run save done).eventual rowsOf = applyEach rows (l.run save done).saves) ↔
      ∀ done s again, done ++ [.save s again] <+: steps →
        (l.run save done).InStep rowsOf s again) (a : DeliveryStep) :
    (∀ done, done <+: steps ++ [.deliver a] →
        (l.run save done).eventual rowsOf = applyEach rows (l.run save done).saves) ↔
      ∀ done s again, done ++ [.save s again] <+: steps ++ [.deliver a] →
        (l.run save done).InStep rowsOf s again := by
  have hsaves : ∀ done s again, done ++ [.save s again] <+: steps ++ [.deliver a] ↔
      done ++ [.save s again] <+: steps := by
    intro done s again
    rw [concat_prefix_concat]
    simp
  simp only [hsaves]
  rw [← ih]
  constructor
  · intro hright done hdone
    exact hright done (List.prefix_concat_iff.mpr (.inr hdone))
  · intro hright done hdone
    rcases List.prefix_concat_iff.mp hdone with rfl | hdone
    · rw [Line.run_concat, (hkept.deliver hsave a).2]
      exact hright steps (List.prefix_refl steps)
    · exact hright done hdone

end Run

/-- The rows are those of the snapshots applied one by one, whenever the worker is
flushed, if and only if every snapshot that is merged into an entry is in step. -/
theorem flushed_iff_inStep {save : Save σ} {rowsOf : σ → Rows} {Good : σ → Prop} {t : σ}
    (hsave : Takes save rowsOf Good) (ht : Good t) {steps : List LineStep}
    (h : LineSteps save { table := t } steps) :
    (∀ done, done <+: steps →
      rowsOf ((Line.run save { table := t } done).flush save).table =
        applyEach (rowsOf t) (Line.run save { table := t } done).saves) ↔
    ∀ done s again, done ++ [.save s again] <+: steps →
      (Line.run save { table := t } done).InStep rowsOf s again := by
  have hflush : ∀ done, done <+: steps →
      rowsOf ((Line.run save { table := t } done).flush save).table =
        (Line.run save { table := t } done).eventual rowsOf :=
    fun done hdone => ((h.of_append hdone).kept hsave ht).rows_flush hsave
  have heventual : (∀ done, done <+: steps →
      (Line.run save { table := t } done).eventual rowsOf =
        applyEach (rowsOf t) (Line.run save { table := t } done).saves) ↔
      ∀ done s again, done ++ [.save s again] <+: steps →
        (Line.run save { table := t } done).InStep rowsOf s again := by
    clear hflush
    induction h with
    | nil =>
        refine iff_of_true ?_ ?_
        · intro done hdone
          rw [List.prefix_nil.mp hdone]
          rfl
        · intro done s again hdone
          exact absurd (List.prefix_nil.mp hdone) (by simp)
    | deliver before a ih => exact right_concat_deliver hsave (before.kept hsave ht) ih a
    | first before owner sound again first ih =>
        have hkept := before.kept hsave ht
        refine right_concat_save hkept ih sound fun hplace => ?_
        rw [Line.placeOf, hkept.unplaced owner first] at hplace
        exact absurd (ite_self none) hplace
    | next before owner sound again previous follows ih =>
        exact right_concat_save (before.kept hsave ht) ih sound fun _ => follows.next
  rw [← heventual]
  constructor
  · intro hright done hdone
    rw [← hflush done hdone]
    exact hright done hdone
  · intro hright done hdone
    rw [hflush done hdone]
    exact hright done hdone

/-! ## Two instances of a hero -/

namespace Sample

/-- A table with a hero of level 1. -/
def heroTable : Rows := SortedMap.ofList [("1", SortedMap.ofList
  [("id", .int 1), ("name", .str "Ann"), ("level", .int 1)])]

/-- The cached hero rises to level 2, a second instance of the hero is created at level 9,
and the cached one rises to level 3. -/
def heroSteps : List LineStep :=
  [.save ⟨0, heroSnapshot .normal heroLevel 1 2⟩ false,
    .save ⟨1, heroSnapshot .new .empty 1 9⟩ false,
    .save ⟨0, heroSnapshot .normal heroLevel 1 3⟩ false]

theorem lineSteps_heroSteps : LineSteps saveRows { table := heroTable } heroSteps := by
  have h₁ := LineSteps.first (.nil : LineSteps saveRows { table := heroTable } []) 0
    (c := heroSnapshot .normal heroLevel 1 2) (holds_heroOf (by omega) (by omega)) false rfl
  have h₂ := LineSteps.first h₁ 1
    (c := heroSnapshot .new .empty 1 9) (holds_heroOf (by omega) (by omega)) false rfl
  exact LineSteps.next h₂ 0
    (p := heroSnapshot .normal heroLevel 1 2) (c := heroSnapshot .normal heroLevel 1 3)
    (holds_heroOf (by omega) (by omega)) false rfl
    ⟨rfl, .inl rfl, rfl, rfl, fun _ => marks_heroOf 1 2 3⟩

/-- The level of hero 1 in a table. -/
def levelOf (rows : Rows) : Option Json := (rows.get? "1").bind (·.get? "level")

theorem level_flushed_heroSteps :
    levelOf ((Line.run saveRows { table := heroTable } heroSteps).flush saveRows).table =
      some (.int 9) := rfl

theorem level_applyEach_heroSteps :
    levelOf (applyEach heroTable
      (Line.run saveRows { table := heroTable } heroSteps).saves) = some (.int 3) := rfl

/-- The second save of the cached hero is not in step. -/
theorem not_inStep_heroSteps :
    LineSteps saveRows { table := heroTable } heroSteps ∧
      ¬ ∀ done s again, done ++ [.save s again] <+: heroSteps →
        (Line.run saveRows { table := heroTable } done).InStep id s again := by
  refine ⟨lineSteps_heroSteps, ?_⟩
  intro hin
  have hright := (flushed_iff_inStep takes_saveRows trivial lineSteps_heroSteps).mpr hin
    heroSteps (List.prefix_refl heroSteps)
  have hlevel := congrArg levelOf hright
  rw [id, level_flushed_heroSteps, id, level_applyEach_heroSteps] at hlevel
  simp at hlevel

theorem exists_overtaken :
    ∃ (rows : Rows) (steps : List LineStep), LineSteps saveRows { table := rows } steps ∧
      ((Line.run saveRows { table := rows } steps).flush saveRows).table ≠
        applyEach rows (Line.run saveRows { table := rows } steps).saves := by
  refine ⟨heroTable, heroSteps, lineSteps_heroSteps, ?_⟩
  intro heq
  have hlevel := congrArg levelOf heq
  rw [level_flushed_heroSteps, level_applyEach_heroSteps] at hlevel
  simp at hlevel

end Sample

end WriteBehind
