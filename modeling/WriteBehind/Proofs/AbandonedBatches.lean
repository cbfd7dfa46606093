import WriteBehind.Proofs.CrashRecovery
import WriteBehind.Proofs.SubmissionOrder

/-!
# Recovery after an abandoned batch

A closed worker may abandon the batch that its table refuses, and keeps its journal file.
It goes on to flush the final batch, and if that is saved its file is destroyed.  What is
left is older than what is stored then, and recovery replays it over the newer rows.  The
obvious statement, that recovery gives the rows that all commitments make one after the
other, is false in this one case.  `Spares` says when the older effect on a row, replayed
behind the newer one, undoes nothing of it, and `Depot.Reached.rows_recovered_iff` that
this, row by row, is all that recovery of an ended worker depends on.
-/

namespace WriteBehind

/-! ## Effects in the wrong order -/

/-- Whether an older effect, replayed over a row that has seen the newer one, leaves it as
the two would have left it in their order.  The row is the one before both.

Two fixed rows must be the same.  Columns that are laid over a fixed row, or in front of
it, must stand in it already, and columns that both lay over a row that is there must
agree. -/
def Spares (older newer : RowEffect) (row : Option Document) : Prop :=
  match older, newer with
  | .fix last, .fix next => last = next
  | .fix last, .lay columns => ∀ found name v, last = some found →
      columns.get? name = some v → found.get? name = some v
  | .lay columns, .fix next => ∀ found name v, next = some found →
      columns.get? name = some v → found.get? name = some v
  | .lay columns, .lay later => row ≠ none → ∀ name v w, columns.get? name = some v →
      later.get? name = some w → v = w

/-- Columns leave a row alone if and only if they stand in it. -/
theorem Document.overlay_eq_self_iff {found columns : Document} :
    found.overlay columns = found ↔
      ∀ name v, columns.get? name = some v → found.get? name = some v := by
  constructor
  · intro h name v hv
    rw [← h, SortedMap.get?_overlay, hv, Option.some_or]
  · intro h
    refine SortedMap.ext_get? fun name => ?_
    rw [SortedMap.get?_overlay]
    cases hv : columns.get? name with
    | none => rw [Option.none_or]
    | some v => rw [Option.some_or, h name v hv]

/-- Columns can be laid in either order if and only if they agree where both are. -/
theorem Document.overlay_comm_iff {found columns later : Document} :
    (found.overlay later).overlay columns = (found.overlay columns).overlay later ↔
      ∀ name v w, columns.get? name = some v → later.get? name = some w → v = w := by
  constructor
  · intro h name v w hv hw
    have hname := congrArg (SortedMap.get? · name) h
    simpa [hv, hw] using hname
  · intro h
    refine SortedMap.ext_get? fun name => ?_
    simp only [SortedMap.get?_overlay]
    cases hv : columns.get? name with
    | none => simp
    | some v =>
        cases hw : later.get? name with
        | none => simp
        | some w => simp [h name v w hv hw]

/-- A fixed row, or none, under columns. -/
theorem map_overlay_eq_self_iff {last : Option Document} {columns : Document} :
    last.map (·.overlay columns) = last ↔
      ∀ found name v, last = some found → columns.get? name = some v →
        found.get? name = some v := by
  cases last with
  | none => simp
  | some found =>
      rw [Option.map_some, Option.some.injEq, Document.overlay_eq_self_iff]
      constructor
      · intro h found' name v hfound hv
        obtain rfl : found = found' := Option.some.inj hfound
        exact h name v hv
      · intro h name v hv
        exact h found name v rfl hv

theorem spares_iff {older newer : RowEffect} {row : Option Document} :
    Spares older newer row ↔
      older.apply (newer.apply row) = newer.apply (older.apply row) := by
  cases older with
  | fix last =>
      cases newer with
      | fix next => exact Iff.rfl
      | lay columns =>
          rw [Spares, RowEffect.apply, RowEffect.apply, RowEffect.apply, eq_comm]
          exact map_overlay_eq_self_iff.symm
  | lay columns =>
      cases newer with
      | fix next => exact map_overlay_eq_self_iff.symm
      | lay later =>
          cases row with
          | none => simp [Spares, RowEffect.apply]
          | some found => simp [Spares, RowEffect.apply, Document.overlay_comm_iff]

/-! ## How a worker ends -/

/-- The last batch was saved behind one that was abandoned. -/
structure Worker.Overtaken (w : Worker) (before : List FlushedBatch)
    (older newer : FlushedBatch) : Prop where
  flushed : w.flushed = before ++ [older, newer]
  abandoned : older.saved = false
  saved : newer.saved = true

/-- Only the last two batches may have been abandoned. -/
def Worker.AbandonsLate (w : Worker) : Prop :=
  ∀ i f, w.flushed[i]? = some f → f.saved = false → w.flushed.length ≤ i + 2

theorem Worker.AbandonsLate.saved {w : Worker} (h : w.AbandonsLate) {before : List FlushedBatch}
    {older newer : FlushedBatch} (hflushed : w.flushed = before ++ [older, newer]) :
    ∀ f ∈ before, f.saved = true := by
  intro f hf
  by_contra hsaved
  obtain ⟨i, hi⟩ := List.getElem?_of_mem hf
  have hlt := (List.getElem?_eq_some_iff.mp hi).1
  have hlen := h i f (by rw [hflushed, List.getElem?_append_left hlt, hi])
    (Bool.eq_false_iff.mpr hsaved)
  simp [hflushed] at hlen
  omega

/-- The saved batches come first, unless the last one was saved behind an abandoned one. -/
theorem Worker.AbandonsLate.exists_split {w : Worker} (h : w.AbandonsLate)
    (hover : ∀ before older newer, ¬ w.Overtaken before older newer) :
    ∃ done kept, w.flushed = done ++ kept ∧ (∀ f ∈ done, f.saved = true) ∧
      ∀ f ∈ kept, f.saved = false := by
  rcases List.eq_nil_or_concat w.flushed with hnil | ⟨init, newer, hinit⟩
  · exact ⟨[], [], by simpa using hnil, by simp, by simp⟩
  rcases List.eq_nil_or_concat init with rfl | ⟨before, older, rfl⟩
  · cases hnewer : newer.saved with
    | true => exact ⟨[newer], [], by simpa using hinit, by simpa using hnewer, by simp⟩
    | false => exact ⟨[], [newer], by simpa using hinit, by simp, by simpa using hnewer⟩
  have hflushed : w.flushed = before ++ [older, newer] := by simpa using hinit
  have hbefore := h.saved hflushed
  cases holder : older.saved with
  | true =>
      have hfirst : ∀ f ∈ before ++ [older], f.saved = true :=
        List.forall_mem_append.mpr ⟨hbefore, by simpa using holder⟩
      cases hnewer : newer.saved with
      | true =>
          refine ⟨before ++ [older] ++ [newer], [], by simpa using hflushed, ?_, by simp⟩
          exact List.forall_mem_append.mpr ⟨hfirst, by simpa using hnewer⟩
      | false =>
          exact ⟨before ++ [older], [newer], by simpa using hflushed, hfirst,
            by simpa using hnewer⟩
  | false =>
      cases hnewer : newer.saved with
      | true => exact absurd ⟨hflushed, holder, hnewer⟩ (hover before older newer)
      | false =>
          exact ⟨before, [older, newer], hflushed, hbefore, by simp [holder, hnewer]⟩

/-- Two ways to say which batch was overtaken are the same. -/
theorem Worker.Overtaken.unique {w : Worker} {before before' : List FlushedBatch}
    {older older' newer newer' : FlushedBatch} (h : w.Overtaken before older newer)
    (h' : w.Overtaken before' older' newer') :
    before = before' ∧ older = older' ∧ newer = newer' := by
  obtain ⟨hbefore, hlast⟩ := List.append_inj' (h.flushed.symm.trans h'.flushed) rfl
  simp only [List.cons.injEq, and_true] at hlast
  exact ⟨hbefore, hlast⟩

namespace Depot

variable {table other : TableRef} {owner : Nat → Nat} {storage crashed : Storage} {d : Depot}

theorem Reached.abandonsLate (h : Reached table owner storage d)
    (hended : d.session.worker.consumer = .ended) : d.session.worker.AbandonsLate := by
  intro i f hf hsaved
  have hlate := h.balanced.1.dependable.abandoned_late i f hf hsaved
  have hdoubtful : d.session.worker.doubtful = 2 := by simp [Worker.doubtful, hended]
  rw [hdoubtful] at hlate
  exact hlate

/-- All batches of an ended worker were flushed. -/
theorem Reached.ended (h : Reached table owner storage d)
    (hended : d.session.worker.consumer = .ended) :
    d.session.worker.lots = d.session.worker.flushed.map (·.lot) ∧
      d.session.worker.unreleased =
        logsOf ((d.session.worker.flushed.filter (!·.saved)).map (·.lot)) ∧
      d.session.worker.savedEntries =
        (d.session.worker.flushed.filter (·.saved)).flatMap (·.entries) := by
  have hbalanced := h.balanced.1
  have hinFlight : d.session.worker.inFlight? = none := by simp [Worker.inFlight?, hended]
  have hreceiving : d.session.worker.receiving = none :=
    hbalanced.faithful.orderly.final_gone (by simp [Consumer.isFinal, hended])
  refine ⟨?_, ?_, ?_⟩
  · simp [Worker.lots, Worker.closedLots, hinFlight, hreceiving]
  · simp [hbalanced.tidy.unreleased_eq, hinFlight, hreceiving]
  · exact Worker.savedEntries_of_ne (by simp [hended])

/-- Behind an overtaken batch recovery replays the older log over the newer entries. -/
theorem Reached.replay_overtaken (h : Reached table owner storage d)
    (hended : d.session.worker.consumer = .ended) {before : List FlushedBatch}
    {older newer : FlushedBatch} (hover : d.session.worker.Overtaken before older newer)
    (key : String) {row : Option Document}
    (hrow : replay key (logsOf (before.map (·.lot))) ((storage.rows table).get? key) = row) :
    replay key d.session.worker.unreleased
        (replay key d.session.worker.savedEntries ((storage.rows table).get? key)) =
      replay key older.lot.logged (replay key newer.entries row) ∧
    replay key (logsOf d.session.worker.lots) ((storage.rows table).get? key) =
      replay key newer.entries (replay key older.lot.logged row) := by
  obtain ⟨hlots, hunreleased, hentries⟩ := h.ended hended
  have hmatched := h.balanced.2.matched
  have hbefore := (h.abandonsLate hended).saved hover.flushed
  obtain ⟨hsaved, hnot⟩ := Worker.filter_saved_of_split (List.append_nil before).symm hbefore
    (by simp)
  have hsplit : d.session.worker.flushed.map (·.lot) =
      before.map (·.lot) ++ [older.lot] ++ [newer.lot] := by
    simp [hover.flushed]
  rw [hlots, hsplit] at hmatched
  have hthere : replay key (before.flatMap (·.entries)) ((storage.rows table).get? key) = row := by
    rw [← hrow, ← hmatched.of_append.of_append.replay_eq, List.flatMap_map]
    rfl
  constructor
  · rw [hunreleased, hentries, hover.flushed, List.filter_append, List.filter_append, hsaved,
      hnot, List.flatMap_append, replay_append, hthere]
    simp [hover.abandoned, hover.saved]
  · have hsame := hmatched.concat_cases.2 key
    rw [hlots, hsplit, logsOf_append, replay_append, logsOf_singleton, ← hsame, logsOf_append,
      replay_append, hrow, logsOf_singleton]
    rfl

/-- What recovery makes of the rows of an ended worker.  It gives the rows that all
accepted commitments make one after the other if and only if the log of a batch that was
overtaken, if there is one, undoes nothing of the batch that was saved behind it. -/
theorem Reached.rows_recovered_iff (h : Reached table owner storage d)
    (hended : d.session.worker.consumer = .ended) (hr : Restart d table other crashed) :
    (d.recovered other crashed).1 = .ok () ∧
      ((d.recovered other crashed).2.rows other =
          (storage.rows table).applyAll (prepareAll d.accepted) ↔
        ∀ before older newer, d.session.worker.Overtaken before older newer → ∀ key,
          Spares (effectOf key older.lot.logged) (effectOf key newer.entries)
            (replay key (logsOf (before.map (·.lot))) ((storage.rows table).get? key))) := by
  obtain ⟨hok, hkeys⟩ := h.recovered_eq_iff hr
  rw [hkeys]
  refine ⟨hok, ?_⟩
  by_cases hover : ∃ before older newer, d.session.worker.Overtaken before older newer
  · obtain ⟨before, older, newer, hover⟩ := hover
    have hspares : ∀ key, (replay key d.session.worker.unreleased
          (replay key d.session.worker.savedEntries ((storage.rows table).get? key)) =
        replay key (logsOf d.session.worker.lots) ((storage.rows table).get? key)) ↔
        Spares (effectOf key older.lot.logged) (effectOf key newer.entries)
          (replay key (logsOf (before.map (·.lot))) ((storage.rows table).get? key)) := by
      intro key
      obtain ⟨hrecovered, haccepted⟩ := h.replay_overtaken hended hover key rfl
      rw [hrecovered, haccepted, spares_iff]
      simp only [apply_effectOf]
    constructor
    · intro hall before' older' newer' hover' key
      obtain ⟨rfl, rfl, rfl⟩ := hover.unique hover'
      exact (hspares key).mp (hall key)
    · intro hall key
      exact (hspares key).mpr (hall before older newer hover key)
  · push Not at hover
    obtain ⟨done, kept, hflushed, hdone, hkept⟩ := (h.abandonsLate hended).exists_split hover
    constructor
    · intro _ before older newer hover'
      exact absurd hover' (hover before older newer)
    · intro _ key
      apply h.balanced.1.tidy.replay_unreleased h.balanced.2.matched hflushed hdone hkept
      intro b final hc
      rw [hended] at hc
      cases hc

end Depot

/-! ## A hero that falls back -/

namespace Sample

/-- A stored hero rises twice.  The worker is closed while the table refuses the first
batch, which is abandoned, and the table takes the final one. -/
def heroUndone : Depot :=
  .run (.memory "hero") (fun _ => 0) (heroStore heroTable 1)
    [.start, .put (heroSnapshot .normal heroLevel 1 2), .expire, .poll,
      .put (heroSnapshot .normal heroLevel 1 3), .close, .save fun _ => false, .recycle, .close,
      .poll, .save fun _ => false, .recycle]

theorem reached_heroUndone :
    Depot.Reached (.memory "hero") (fun _ => 0) (heroStore heroTable 1) heroUndone where
  present := ⟨_, rfl⟩
  run := ⟨_, rfl⟩
  inTurn := by
    have hsubmissions : heroUndone.session.submissions (fun _ => 0) =
        [⟨0, heroSnapshot .normal heroLevel 1 2⟩, ⟨0, heroSnapshot .normal heroLevel 1 3⟩] := rfl
    have hnil : InTurn ((heroStore heroTable 1).rows (.memory "hero")) [] := .nil
    have hstart := hnil.start 0 (c := heroSnapshot .normal heroLevel 1 2)
      (holds_heroOf (by omega) (by omega)) rfl (fun hnew => by cases hnew)
    rw [hsubmissions]
    exact hstart.next 0 (holds_heroOf (by omega) (by omega)) rfl rfl
      ⟨rfl, .inl rfl, rfl, rfl, fun _ => marks_heroOf 1 2 3⟩

theorem restart_heroUndone :
    heroUndone.Restart (.memory "hero") (.memory "hero") heroUndone.storage where
  direct := by simp
  ready := by
    have htable : heroUndone.storage.memoryTable? (.memory "hero") =
        some ((heroUndone.storage.memoryTable? (.memory "hero")).get rfl) := rfl
    exact ⟨_, htable, rfl⟩
  stored := rfl

theorem level_recovered_heroUndone :
    levelOf ((heroUndone.recovered (.memory "hero") heroUndone.storage).2.rows
      (.memory "hero")) = some (.int 2) := rfl

theorem level_accepted_heroUndone :
    levelOf (((heroStore heroTable 1).rows (.memory "hero")).applyAll
      (prepareAll heroUndone.accepted)) = some (.int 3) := rfl

theorem recovered_ne_heroUndone :
    (heroUndone.recovered (.memory "hero") heroUndone.storage).2.rows (.memory "hero") ≠
      ((heroStore heroTable 1).rows (.memory "hero")).applyAll
        (prepareAll heroUndone.accepted) := by
  intro heq
  have hlevel := congrArg levelOf heq
  rw [level_recovered_heroUndone, level_accepted_heroUndone] at hlevel
  simp at hlevel

/-- The log of the first batch undoes the level that the final one has stored. -/
theorem not_spares_heroUndone :
    Depot.Reached (.memory "hero") (fun _ => 0) (heroStore heroTable 1) heroUndone ∧
      heroUndone.session.worker.consumer = .ended ∧
      heroUndone.Restart (.memory "hero") (.memory "hero") heroUndone.storage ∧
      (heroUndone.recovered (.memory "hero") heroUndone.storage).1 = .ok () ∧
      ¬ ∀ before older newer, heroUndone.session.worker.Overtaken before older newer → ∀ key,
        Spares (effectOf key older.lot.logged) (effectOf key newer.entries)
          (replay key (logsOf (before.map (·.lot)))
            (((heroStore heroTable 1).rows (.memory "hero")).get? key)) := by
  obtain ⟨hok, hiff⟩ := reached_heroUndone.rows_recovered_iff rfl restart_heroUndone
  refine ⟨reached_heroUndone, rfl, restart_heroUndone, hok, ?_⟩
  intro hspares
  exact recovered_ne_heroUndone (hiff.mpr hspares)

/-- A batch is abandoned, the final one is saved, and recovery falls behind it. -/
theorem exists_undone :
    ∃ (table : TableRef) (owner : Nat → Nat) (storage : Storage) (d : Depot),
      Depot.Reached table owner storage d ∧ d.session.worker.consumer = .ended ∧
      (∃ f ∈ d.session.worker.flushed, f.saved = false) ∧
      d.Restart table table d.storage ∧
      (d.recovered table d.storage).1 = .ok () ∧
      (d.recovered table d.storage).2.rows table ≠
        (storage.rows table).applyAll (prepareAll d.accepted) :=
  ⟨_, _, _, heroUndone, reached_heroUndone, rfl, ⟨_, List.mem_cons_self, rfl⟩,
    restart_heroUndone, rfl, recovered_ne_heroUndone⟩

end Sample

end WriteBehind
