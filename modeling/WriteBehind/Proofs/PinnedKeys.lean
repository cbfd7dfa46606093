import WriteBehind.Proofs.DryScopes
import WriteBehind.Proofs.InstanceMoves

/-!
# Keys that were never asked for

A source that is not volatile looks at the row of a key once, and from then on the slot of
the key answers.  So all it may still come to see are the rows of the keys without a slot.
Nothing of these is on its way to the table, and their rows are the ones from the start,
however far the others have drifted from theirs (`Scope.Pins`).  Other than for
`Scope.Seated` nothing is asked of the data that records are given, as long as their keys
stay.  The table takes whatever it is given, so the workers run on, and to wait for one
that has nothing in its hands never fails.
-/

namespace WriteBehind

/-! ## Tables that refuse nothing -/

theorem Rows.get?_change_of_ne {key k : String} (h : key ≠ k) (rows : Rows) (change : RowChange) :
    (rows.change key change).get? k = rows.get? k := by
  cases change with
  | put row => simp [Rows.change, h]
  | remove => simp [Rows.change, h]
  | skip => rfl

theorem exists_of_mem_prepareAll {cs : List Commitment} {w : PreparedWrite}
    (h : w ∈ prepareAll cs) : ∃ c ∈ cs, c.keyText = w.key := by
  obtain ⟨c, hc, hw⟩ := List.mem_filterMap.mp h
  cases hprepared : c.prepareWrite with
  | error e =>
      rw [hprepared] at hw
      cases hw
  | ok w' =>
      rw [hprepared] at hw
      obtain rfl : w' = w := Option.some.inj hw
      exact ⟨c, hc, (Commitment.keyText_of_prepareWrite hprepared).symm⟩

/-- Writes to a file leave the rows of other keys alone. -/
theorem FileStore.get?_foldl_applyWrite {ws : List PreparedWrite} {k : String}
    (h : ∀ w ∈ ws, w.key ≠ k) (rows : Rows) :
    (ws.foldl applyWrite rows).get? k = rows.get? k := by
  induction ws generalizing rows with
  | nil => rfl
  | cons w ws ih =>
      rw [List.foldl_cons, ih fun v hv => h v (List.mem_cons_of_mem w hv)]
      exact Rows.get?_change_of_ne (h w List.mem_cons_self) rows _

namespace Storage

variable {table : TableRef} {s s' : Storage}

/-- A table that refuses no attempt. -/
def Accepts (table : TableRef) (s : Storage) : Prop :=
  ∀ t, s.memoryTable? table = some t → t.failBudget = 0

theorem Accepts.congr (h : Accepts table s) (hcontent : s'.content table = s.content table) :
    Accepts table s' :=
  fun t ht => h t ((congrArg Prod.fst hcontent).symm.trans ht)

/-- Such a table takes all commitments of a call, and rows of other keys stay. -/
theorem Accepts.save (h : Accepts table s) (cs : List Commitment) (running : Bool) :
    (save table cs running s).1 = true ∧ Accepts table (save table cs running s).2 ∧
      ∀ k, (∀ c ∈ cs, c.keyText ≠ k) →
        ((save table cs running s).2.rows table).get? k = (s.rows table).get? k := by
  cases ht : s.memoryTable? table with
  | none =>
      cases table with
      | none => exact ⟨rfl, h, fun _ _ => rfl⟩
      | memory ns | audited ns =>
          simp only [Storage.save, saveWhile, withMemoryTable_of_none ht]
          exact ⟨trivial, h, fun _ _ => trivial⟩
      | file path name =>
          refine ⟨rfl, fun t ht => ?_, fun k hk => ?_⟩
          · cases ht
          have hkeys : ∀ w ∈ prepareAll cs, w.key ≠ k := by
            intro w hw
            obtain ⟨c, hc, hkey⟩ := exists_of_mem_prepareAll hw
            exact hkey ▸ hk c hc
          simp only [Storage.save, saveWhile, writeFile, rows, FileStore.rows, SortedMap.get?_map,
            FileStore.write, FileStore.written, SortedMap.get?_insert, if_true, Option.getD_some]
          exact congrArg _ (FileStore.get?_foldl_applyWrite hkeys _)
  | some t =>
      obtain ⟨hok, htable⟩ :=
        memoryTable?_withMemoryTable ht true fun t => t.save (fun _ => running) cs
      rw [MemoryTable.save_of_no_budget (h t ht)] at hok htable
      cases table with
      | none | file path name => cases ht
      | memory ns | audited ns =>
          refine ⟨hok, fun t' ht' => ?_, fun k hk => ?_⟩
          · rw [Storage.save, saveWhile, htable, Option.some.injEq] at ht'
            rw [← ht']
            exact h t ht
          · simp only [Storage.save, saveWhile, rows, htable, ht, Option.map_some,
              Option.getD_some]
            rw [Rows.get?_applyAll_prepareAll]
            exact replay_eq_self hk _

end Storage

/-- Commitments of keys that are not spared, and the rows of the spared ones as they were. -/
def Freight.sparing (table : TableRef) (spared : Key → Prop) (before : Storage) :
    Freight table where
  carried c := table ≠ .none → ∀ key, spared key → c.keyText ≠ key.text
  allowed s := s.Accepts table ∧ ∀ key, spared key →
    (s.rows table).get? key.text = (before.rows table).get? key.text
  merged _ hc hmerge := by
    rw [(Commitment.keyText_of_merge hmerge).2]
    exact hc
  delivered := by
    rintro cs running s ⟨haccepts, hrows⟩ hcs
    obtain ⟨-, hafter, hothers⟩ := haccepts.save cs running
    refine ⟨hafter, fun key hkey => ?_⟩
    by_cases hnone : table = .none
    · subst hnone
      rfl
    · rw [hothers key.text fun c hc => hcs c hc hnone key hkey]
      exact hrows key hkey
  read := by
    rintro s s' hcontent ⟨haccepts, hrows⟩
    refine ⟨haccepts.congr hcontent, fun key hkey => ?_⟩
    rw [Storage.rows_congr hcontent]
    exact hrows key hkey

/-! ## Workers of such a table -/

section Workers

variable {σ : Type} {save : Save σ} {w : Worker} {t : σ}

namespace Worker

theorem Live.flush_of_taken (h : w.Live) (htaken : ∀ cs, (save cs true t).1 = true) :
    (w.flush save t).1.Live := by
  rw [flush_eq]
  refine (h.deliver_of_taken fun b _ => ?_).recycle
  rw [h.running]
  exact htaken b.entries

theorem Live.turn_of_taken (h : w.Live) (htaken : ∀ cs, (save cs true t).1 = true) :
    (w.turn save t).1.Live :=
  h.poll.flush_of_taken htaken

theorem Live.makeRoom_of_taken (h : w.Live) (htaken : ∀ cs, (save cs true t).1 = true)
    (hthen : ∀ cs, (save cs true (w.flush save t).2).1 = true) :
    (w.makeRoom save t).1.Live :=
  (h.flush_of_taken htaken).turn_of_taken hthen

theorem Live.advance_of_taken (h : w.Live) (htaken : ∀ cs, (save cs true t).1 = true)
    (a : DeliveryStep) : (w.advance save t a).1.Live := by
  cases a with
  | expire => exact ⟨h.running, h.receiving, h.stage⟩
  | poll => exact h.poll
  | deliver =>
      refine h.deliver_of_taken fun b _ => ?_
      rw [h.running]
      exact htaken b.entries
  | recycle => exact h.recycle
  | request => exact h.request

/-- After a flush nothing is in the hands of the consumer. -/
theorem Live.waiting_flush (h : (w.flush save t).1.Live) :
    (w.flush save t).1.consumer = .waiting :=
  waiting_of_live h (not_busy_flush save w t)

theorem Live.putWorker_of_taken (h : w.Live) (htaken : ∀ cs, (save cs true t).1 = true)
    (hthen : ∀ cs, (save cs true (w.flush save t).2).1 = true) (c : Commitment)
    (index : Option Nat) :
    (Saver.putWorker save w c index t).2.1.Live ∧
      (w.consumer = .waiting → (Saver.putWorker save w c index t).2.1.consumer = .waiting) := by
  have hplaced : ∀ {w w' : Worker} {index : Option Nat} {i : Nat},
      w.put c index = .placed i w' → w'.consumer = w.consumer := by
    intro w w' index i hput
    obtain ⟨b, b', -, -, rfl⟩ := put_eq_placed hput
    rfl
  cases hput : w.put c index with
  | placed i w' =>
      simp only [Saver.putWorker, hput]
      exact ⟨h.put hput, fun hc => (hplaced hput).trans hc⟩
  | refused =>
      simp only [Saver.putWorker, hput]
      exact ⟨h, id⟩
  | full =>
      have hlive := h.makeRoom_of_taken htaken hthen
      have hwaiting : (w.makeRoom save t).1.consumer = .waiting := hlive.waiting_flush
      cases hput' : (w.makeRoom save t).1.put c none with
      | placed i w' =>
          simp only [Saver.putWorker, hput, hput']
          exact ⟨hlive.put hput', fun _ => (hplaced hput').trans hwaiting⟩
      | refused | full =>
          simp only [Saver.putWorker, hput, hput']
          exact ⟨hlive, fun _ => hwaiting⟩

/-- A batch that was taken from a running worker is saved by the flush that follows. -/
theorem flushed_of_take {b : Batch} (hc : w.consumer = take b false) (hrunning : w.running = true)
    (htaken : ∀ cs, (save cs true t).1 = true) :
    ∃ f : FlushedBatch, f.saved = true ∧ (w.flush save t).1.flushed = w.flushed ++ [f] := by
  rw [flush_eq]
  cases hempty : b.isEmpty with
  | true =>
      rw [take, hempty, if_pos rfl] at hc
      rw [deliver_of_not_saving (by simp [hc])]
      simp [recycle, hc]
  | false =>
      rw [take, hempty, if_neg Bool.false_ne_true] at hc
      rw [deliver_of_saving hc, saved_of_saving hc, hrunning, htaken]
      simp [recycle]

/-- A batch that is due is taken by a consumer that is free. -/
theorem poll_of_due {b : Batch} (hc : w.consumer = .waiting) (hrunning : w.running = true)
    (hb : w.receiving = some b) (hdue : (w.due b).consumable = true) :
    w.poll.consumer = take (w.due b).retire false ∧ w.poll.running = true ∧
      w.poll.flushed = w.flushed := by
  simp [poll, hc, hrunning, hb, hdue]

/-- Whoever asks a worker that has nothing in its hands is told that all was saved. -/
theorem told_of_taken (h : w.Live) (hw : w.consumer = .waiting)
    (htaken : ∀ cs, (save cs true t).1 = true) :
    (w.request.turn save t).1.fate? ⟨w.opened⟩ = some true := by
  obtain ⟨b, hb⟩ := Option.isSome_iff_exists.mp h.receiving
  have hrequest : w.request = { w with receiving := some b.waiter.2 } := by
    simp [request, sync, h.running, hb]
  have hdue : (w.request.due b.waiter.2).consumable = true :=
    consumable_due _ (by simp [Batch.waiter, Batch.consumable])
  obtain ⟨htake, hrunning, hsame⟩ := poll_of_due (by rw [hrequest, hw]) h.request.running
    (by rw [hrequest]) hdue
  obtain ⟨f, hsaved, hflushed⟩ := flushed_of_take htake hrunning htaken
  have hbefore : w.request.flushed = w.flushed := by rw [hrequest]
  have hopened : w.opened = w.flushed.length := by simp [opened, inFlight?, hw]
  rw [turn, fate?, hflushed, hsame, hbefore, hopened, List.getElem?_concat_length]
  exact congrArg some hsaved

end Worker

end Workers

/-- In the states that are allowed the table takes whatever it is given. -/
def Freight.Takes {table : TableRef} (g : Freight table) : Prop :=
  ∀ {s : Storage}, g.allowed s → ∀ cs, (Storage.save table cs true s).1 = true

theorem Freight.takes_sparing (table : TableRef) (spared : Key → Prop) (before : Storage) :
    (sparing table spared before).Takes :=
  fun hs cs => (hs.1.save cs true).1

namespace Saver

/-- The workers that a sync waits for. -/
def asked (saver : Saver) : Option UInt64 → List Worker
  | none => saver.workers
  | some hash => saver.workers[saver.workerOf hash]?.toList

theorem mem_workers_of_asked {saver : Saver} {hash : Option UInt64} {w : Worker}
    (h : w ∈ saver.asked hash) : w ∈ saver.workers := by
  cases hash with
  | none => exact h
  | some hash => exact List.mem_of_getElem? (Option.mem_toList.mp h)

/-- No consumer that a sync waits for has a batch in its hands. -/
def Rests (saver : Saver) (hash : Option UInt64) : Prop :=
  ∀ w ∈ saver.asked hash, w.consumer = .waiting

/-- Another worker takes the place of one, and rests if that one did. -/
theorem Rests.set {saver : Saver} {hash : Option UInt64} (h : saver.Rests hash) {n : Nat}
    {w w' : Worker} (hw : saver.workers[n]? = some w)
    (hwaits : w.consumer = .waiting → w'.consumer = .waiting) :
    ({ saver with workers := saver.workers.set n w' } : Saver).Rests hash := by
  intro v hv
  cases hash with
  | none =>
      rcases List.mem_or_eq_of_mem_set hv with hv | rfl
      · exact h v hv
      · exact hwaits (h w (List.mem_of_getElem? hw))
  | some hash =>
      have hget := Option.mem_toList.mp hv
      rw [workerOf, List.length_set] at hget
      by_cases hn : n = saver.workerOf hash
      · subst hn
        rw [← workerOf, List.getElem?_set_self (List.getElem?_eq_some_iff.mp hw).1,
          Option.some.injEq] at hget
        subst hget
        exact hwaits (h w (Option.mem_toList.mpr hw))
      · rw [← workerOf, List.getElem?_set_ne hn] at hget
        exact h v (Option.mem_toList.mpr hget)

/-- Running workers that carry nothing else, and a table in such a state. -/
structure Runs {table : TableRef} (g : Freight table) (workers : List Worker) (s : Storage) :
    Prop where
  hauls : Hauls g workers s
  live : ∀ w ∈ workers, w.Live

section Runs

variable {table : TableRef} {g : Freight table} {workers : List Worker} {saver : Saver}
  {s : Storage} {w : Worker}

theorem Runs.mono {g' : Freight table} (h : Runs g workers s)
    (hcarried : ∀ c, g.carried c → g'.carried c) (hallowed : g.allowed s → g'.allowed s) :
    Runs g' workers s :=
  ⟨⟨fun w hw => (h.hauls.1 w hw).mono hcarried, hallowed h.hauls.2⟩, h.live⟩

theorem Runs.set (h : Runs g workers s) {s' : Storage} (hw : w.Hauls g) (hlive : w.Live)
    (hs' : g.allowed s') (n : Nat) : Runs g (workers.set n w) s' := by
  refine ⟨h.hauls.set hw hs' n, fun v hv => ?_⟩
  rcases List.mem_or_eq_of_mem_set hv with hv | rfl
  · exact h.live v hv
  · exact hlive

theorem Runs.mapWorkers (h : Runs g workers s) {f : Worker → Storage → Worker × Storage}
    {Q : Worker → Worker → Prop} (hf : ∀ w s, w.Hauls g → w.Live → g.allowed s →
      ((f w s).1.Hauls g ∧ g.allowed (f w s).2) ∧ (f w s).1.Live ∧ Q w (f w s).1) :
    Runs g (Saver.mapWorkers f workers s).1 (Saver.mapWorkers f workers s).2 ∧
      List.Forall₂ Q workers (Saver.mapWorkers f workers s).1 := by
  refine mapWorkers_spec (P := Runs g) (R := fun _ => True) ?_ workers h fun _ _ => trivial
  intro ws n w t hP hw _
  have hmem := List.mem_of_getElem? hw
  obtain ⟨⟨hw', ht'⟩, hlive, hQ⟩ := hf w t (hP.hauls.1 w hmem) (hP.live w hmem) hP.hauls.2
  exact ⟨hP.set hw' hlive ht' n, hQ⟩

theorem exists_syncWorkers_of_live (h : ∀ w ∈ workers, w.Live) :
    ∃ asked, syncWorkers workers = some asked := by
  induction workers with
  | nil => exact ⟨[], rfl⟩
  | cons w ws ih =>
      obtain ⟨asked, hasked⟩ := ih fun v hv => h v (List.mem_cons_of_mem w hv)
      have hw := h w List.mem_cons_self
      obtain ⟨b, hb⟩ := Option.isSome_iff_exists.mp hw.receiving
      have hsync : w.sync = some (⟨w.opened⟩, { w with receiving := some b.waiter.2 }) := by
        simp [Worker.sync, hw.running, hb]
      exact ⟨_, by rw [syncWorkers, hsync, hasked]⟩

/-- A sync succeeds if every worker that was asked tells so. -/
theorem outcome_of_told {ws vs : List Worker} (ns : String)
    (hQ : List.Forall₂ (fun w v => w.consumer = .waiting → v.fate? ⟨w.opened⟩ = some true) ws vs)
    (hrests : ∀ w ∈ ws, w.consumer = .waiting) :
    outcome ns ((ws.map fun w => (⟨w.opened⟩ : Waiter)).zip vs) = .ok () := by
  have hall : ((ws.map fun w => (⟨w.opened⟩ : Waiter)).zip vs).all
      (fun told => told.2.fate? told.1 = some true) = true := by
    induction hQ with
    | nil => rfl
    | cons hQ _ ih =>
        simp only [List.map_cons, List.zip_cons_cons, List.all_cons, Bool.and_eq_true,
          decide_eq_true_eq]
        exact ⟨hQ (hrests _ List.mem_cons_self),
          ih fun v hv => hrests v (List.mem_cons_of_mem _ hv)⟩
  exact if_pos hall

variable (htakes : g.Takes)

include htakes

theorem Runs.syncAmong (h : Runs g workers s) (ns : String) :
    Runs g (Saver.syncAmong (Storage.save table) ns workers s).2.1
        (Saver.syncAmong (Storage.save table) ns workers s).2.2 ∧
      ((∀ w ∈ workers, w.consumer = .waiting) →
        (Saver.syncAmong (Storage.save table) ns workers s).1 = .ok ()) := by
  obtain ⟨asked, hasked⟩ := exists_syncWorkers_of_live h.live
  rw [syncAmong_of_asked hasked]
  obtain ⟨hruns, htold⟩ := h.mapWorkers (f := fun w t => w.request.turn (Storage.save table) t)
    (Q := fun w v => w.consumer = .waiting → v.fate? ⟨w.opened⟩ = some true)
    fun w t hw hlive ht =>
      ⟨hw.request.turn ht, hlive.request.turn_of_taken (htakes ht),
        fun hrests => Worker.told_of_taken hlive hrests (htakes ht)⟩
  exact ⟨hruns, outcome_of_told ns htold⟩

theorem Runs.advance (h : Runs g saver.workers s) (n : Nat) (a : DeliveryStep) :
    Runs g (saver.advance (Storage.save table) n a s).1.workers
      (saver.advance (Storage.save table) n a s).2 := by
  cases hw : saver.workers[n]? with
  | none =>
      simp only [Saver.advance, hw]
      exact h
  | some w =>
      have hmem := List.mem_of_getElem? hw
      obtain ⟨hw', hs'⟩ := (h.hauls.1 w hmem).advance h.hauls.2 a
      simp only [Saver.advance, hw]
      exact h.set hw' ((h.live w hmem).advance_of_taken (htakes h.hauls.2) a) hs' n

/-- A commitment is put in, and workers that rest go on to rest. -/
theorem Runs.put {c : Commitment} (h : Runs g saver.workers s) (hc : g.carried c)
    (index : Option Nat) :
    Runs g (saver.put (Storage.save table) c index s).2.1.workers
        (saver.put (Storage.save table) c index s).2.2 ∧
      ∀ hash, saver.Rests hash → (saver.put (Storage.save table) c index s).2.1.Rests hash := by
  cases hw : saver.workers[saver.workerOf c.hash]? with
  | none =>
      simp only [Saver.put, hw]
      exact ⟨h, fun _ => id⟩
  | some w =>
      have hmem := List.mem_of_getElem? hw
      obtain ⟨hw', hs'⟩ := (h.hauls.1 w hmem).putWorker h.hauls.2 hc index
      have hflushed := ((h.hauls.1 w hmem).flush h.hauls.2).2
      obtain ⟨hlive, hwaits⟩ :=
        (h.live w hmem).putWorker_of_taken (htakes h.hauls.2) (htakes hflushed) c index
      simp only [Saver.put, hw]
      exact ⟨h.set hw' hlive hs' _, fun hash hrests => hrests.set hw hwaits⟩

theorem Runs.sync (h : Runs g saver.workers s) (hash : Option UInt64) :
    Runs g (saver.sync (Storage.save table) hash s).2.1.workers
        (saver.sync (Storage.save table) hash s).2.2 ∧
      (saver.Rests hash → (saver.sync (Storage.save table) hash s).1 = .ok ()) := by
  cases hash with
  | none => exact h.syncAmong htakes saver.ns
  | some hash =>
      have hasked : Runs g (saver.workers[saver.workerOf hash]?.toList) s := by
        have hmem : ∀ w ∈ saver.asked (some hash), w ∈ saver.workers :=
          fun _ => mem_workers_of_asked
        exact ⟨⟨fun w hw => h.hauls.1 w (hmem w hw), h.hauls.2⟩,
          fun w hw => h.live w (hmem w hw)⟩
      obtain ⟨hsynced, htold⟩ := hasked.syncAmong htakes saver.ns
      simp only [Saver.sync]
      split
      next w hflushed =>
        rw [hflushed] at hsynced
        exact ⟨h.set (hsynced.hauls.1 w List.mem_cons_self) (hsynced.live w List.mem_cons_self)
          hsynced.hauls.2 _, htold⟩
      · exact ⟨⟨⟨h.hauls.1, hsynced.hauls.2⟩, h.live⟩, htold⟩

/-- All consumers finish what they have in their hands. -/
theorem Runs.flush (h : Runs g saver.workers s) :
    Runs g (saver.step (Worker.flush (Storage.save table)) s).1.workers
        (saver.step (Worker.flush (Storage.save table)) s).2 ∧
      ∀ w ∈ (saver.step (Worker.flush (Storage.save table)) s).1.workers,
        w.consumer = .waiting := by
  obtain ⟨hruns, hall⟩ := h.mapWorkers (f := Worker.flush (Storage.save table))
    (Q := fun _ v => v.consumer = .waiting) fun w t hw hlive ht => by
      have hlive' := hlive.flush_of_taken (htakes ht)
      exact ⟨hw.flush ht, hlive', hlive'.waiting_flush⟩
  refine ⟨hruns, fun w hw => ?_⟩
  obtain ⟨v, -, hwaits⟩ := exists_left_of_forall₂ hall hw
  exact hwaits

end Runs

theorem view_finish {σ γ : Type} {save : Save σ} {view : σ → γ} (h : Save.Hides save view)
    (saver : Saver) (t : σ) : view (saver.step (Worker.flush save) t).2 = view t :=
  view_mapWorkers (fun w t => Worker.view_flush h w t) _ t

end Saver

/-! ## Slots that are not emptied -/

/-- Slots that were filled or changed, but not emptied. -/
structure Repo.Fills (repo repo' : Repo Key Nat) : Prop where
  volatile : repo'.volatile = repo.volatile
  filled : ∀ key, repo.get key ≠ none → repo'.get key ≠ none

namespace Repo

variable {repo : Repo Key Nat}

theorem Fills.refl (repo : Repo Key Nat) : Fills repo repo := ⟨rfl, fun _ h => h⟩

theorem fills_setOnStore (repo : Repo Key Nat) (key : Key) (id : Nat) :
    Fills repo (repo.setOnStore key id).2 := by
  by_cases hlive : ∃ id', repo.get key = some (.live id')
  · obtain ⟨id', hlive⟩ := hlive
    have hsame : (repo.setOnStore key id).2 = repo := by simp [setOnStore, hlive]
    rw [hsame]
    exact .refl repo
  · have hfree : ∀ id', repo.get key ≠ some (.live id') := fun id' h => hlive ⟨id', h⟩
    refine ⟨(get_setOnStore_of_free hfree id key).2.1, fun k hk => ?_⟩
    rw [(get_setOnStore_of_free hfree id k).2.2]
    split
    · exact Option.some_ne_none _
    · exact hk

theorem fills_setOnDelete (hkeeps : repo.volatile = false) (key : Key) (id : Nat) :
    Fills repo (repo.setOnDelete key id).2 := by
  refine ⟨(get_setOnDelete hkeeps key id key).1.trans hkeeps.symm, fun k hk => ?_⟩
  rw [(get_setOnDelete hkeeps key id k).2]
  split
  · exact Option.some_ne_none _
  · exact hk

end Repo

/-! ## Sources -/

/-- Neither a commitment nor what it leaves has another key. -/
theorem Record.key_of_commit {r r' : Record} {c : Snapshot} (h : r.commit = some (c, r')) :
    c.key = r.key ∧ r'.key = r.key := by
  rw [commit] at h
  split at h
  · obtain ⟨rfl, rfl⟩ := Prod.mk.inj (Option.some.inj h)
    exact ⟨rfl, rfl⟩
  · cases h

/-- Keys in use that their texts tell apart, and with rows that hold data of their keys. -/
structure Deposit.Filed (p : Deposit) (s : Storage) : Prop where
  distinct : p.table ≠ .none → ∀ key key', p.inUse key → p.inUse key' →
    key.text = key'.text → key = key'
  own : ∀ key row data, p.inUse key → (s.rows p.table).get? key.text = some row →
    p.type.read (.ofDocument row) = .ok data → p.type.keyOf data = key

namespace Scope

/-- The keys in use that a source has not been asked for. -/
def Unasked (p : Deposit) (s : Scope) (key : Key) : Prop :=
  p.inUse key ∧ s.source.repo.get key = none

/-- A source of the records that remembers what it was asked for.  The rows that it has not
looked at are those from the start, and they will be. -/
structure Pins (p : Deposit) (before : Storage) (s : Scope) : Prop where
  model : s.source.info.model = p.model
  table : s.source.table = p.table
  keeps : s.source.repo.volatile = false
  runs : Saver.Runs (.sparing p.table (s.Unasked p) before) s.ledger.workers s.storage
  owned : ∀ (id : Nat) (i : Instance), s.instances[id]? = some i → i.record.type = p.type →
    p.inUse i.record.key ∧ s.source.repo.get i.record.key ≠ none

/-- No consumer that a sync waits for has a batch in its hands. -/
def Rests (s : Scope) (hash : Option UInt64) : Prop :=
  ∀ saver, s.source.saver = some saver → saver.Rests hash

section Pins

variable {p : Deposit} {before : Storage} {s s' : Scope} {key : Key} {id : Nat}
  {i i' : Instance}

/-- A source that has just been started was not asked for anything yet. -/
theorem pins_of_fresh (hmodel : s.source.info.model = p.model) (htable : s.source.table = p.table)
    (hkeeps : s.source.repo.volatile = false)
    (hworkers : ∀ w ∈ s.ledger.workers, w = ({} : Worker).start) (hinstances : s.instances = [])
    (haccepts : s.storage.Accepts p.table) : s.Pins p s.storage where
  model := hmodel
  table := htable
  keeps := hkeeps
  runs := by
    refine ⟨⟨fun w hw => ?_, haccepts, fun _ _ => rfl⟩, fun w hw => ?_⟩
    · rw [hworkers w hw]
      exact Worker.hauls_start _
    · rw [hworkers w hw]
      exact Worker.live_start
  owned := by
    intro id i hi
    rw [hinstances] at hi
    cases hi

theorem Pins.type_eq (h : s.Pins p before) : s.type = p.type := congrArg Model.record h.model

theorem Pins.save_eq (h : s.Pins p before) :
    Storage.save s.source.table = Storage.save p.table := congrArg Storage.save h.table

/-- The row of a key that was not asked for. -/
theorem Pins.row_same (h : s.Pins p before) (hkey : s.Unasked p key) :
    (s.storage.rows p.table).get? key.text = (before.rows p.table).get? key.text :=
  h.runs.hauls.2.2 key hkey

/-! ### The cache -/

/-- Slots are filled, and there may be other instances. -/
theorem Pins.of_fills (h : s.Pins p before)
    (hframe : s'.source.info = s.source.info ∧ s'.source.table = s.source.table ∧
      s'.source.saver = s.source.saver ∧ s'.storage = s.storage)
    (hfills : s.source.repo.Fills s'.source.repo)
    (howned : ∀ (id : Nat) (i : Instance), s'.instances[id]? = some i → i.record.type = p.type →
      p.inUse i.record.key ∧
        (s.source.repo.get i.record.key ≠ none ∨ s'.source.repo.get i.record.key ≠ none)) :
    s'.Pins p before := by
  obtain ⟨hinfo, htable, hsaver, hstorage⟩ := hframe
  have hunasked : ∀ key, s'.Unasked p key → s.Unasked p key := fun key hkey =>
    ⟨hkey.1, Classical.byContradiction fun hnot => hfills.filled key hnot hkey.2⟩
  refine ⟨hinfo ▸ h.model, htable ▸ h.table, hfills.volatile.trans h.keeps, ?_, ?_⟩
  · rw [ledger, hsaver, hstorage]
    refine h.runs.mono (fun c hc hnone key hkey => hc hnone key (hunasked key hkey)) ?_
    exact fun hs => ⟨hs.1, fun key hkey => hs.2 key (hunasked key hkey)⟩
  · intro id i hi htype
    obtain ⟨hused, hold | hnew⟩ := howned id i hi htype
    · exact ⟨hused, hfills.filled _ hold⟩
    · exact ⟨hused, hnew⟩

theorem Pins.setRepo (h : s.Pins p before) {repo : Repo Key Nat}
    (hfills : s.source.repo.Fills repo) : (s.setRepo repo).Pins p before :=
  h.of_fills ⟨rfl, rfl, rfl, rfl⟩ hfills fun id i hi htype =>
    (h.owned id i hi htype).imp_right .inl

/-- An instance is replaced by one with its key. -/
theorem Pins.setInstance (h : s.Pins p before) (hi : s.instances[id]? = some i)
    (htype : i.record.type = p.type) (hkey : i'.record.key = i.record.key) :
    (s.setInstance id i').Pins p before := by
  refine h.of_fills ⟨rfl, rfl, rfl, rfl⟩ (.refl _) fun id' x hx hx' => ?_
  by_cases hid : id = id'
  · subst hid
    rw [Scope.setInstance, List.getElem?_set_self (List.getElem?_eq_some_iff.mp hi).1,
      Option.some.injEq] at hx
    rw [← hx, hkey]
    exact (h.owned id i hi htype).imp_right .inl
  · rw [Scope.setInstance, List.getElem?_set_ne hid] at hx
    exact (h.owned id' x hx hx').imp_right .inl

/-- Reads leave everything as it is, and so does whatever happens to other tables and to the
instances of other records. -/
theorem Pins.aside (h : s.Pins p before) {instances : List Instance} {storage : Storage}
    (hcontent : storage.content p.table = s.storage.content p.table)
    (hsame : ∀ (id : Nat) (i : Instance), i.record.type = p.type →
      (instances[id]? = some i ↔ s.instances[id]? = some i)) :
    (⟨s.source, instances, storage⟩ : Scope).Pins p before := by
  refine ⟨h.model, h.table, h.keeps, ⟨⟨h.runs.hauls.1, ?_⟩, h.runs.live⟩, ?_⟩
  · exact Freight.read _ hcontent h.runs.hauls.2
  · exact fun id i hi htype => h.owned id i ((hsame id i htype).mp hi) htype

theorem Pins.setStorage (h : s.Pins p before) {storage : Storage}
    (hcontent : storage.content p.table = s.storage.content p.table) :
    ({ s with storage } : Scope).Pins p before :=
  h.aside hcontent fun _ _ _ => .rfl

/-! ### Fetches and creations -/

theorem fills_publish (s : Scope) (key : Key) (data : Option Json) :
    s.source.repo.Fills (s.publish key data).2.source.repo := by
  refine ⟨?_, fun k hk => ?_⟩
  · cases hget : s.source.repo.get key with
    | some slot => rw [publish_of_cached hget]
    | none =>
        cases data with
        | none =>
            rw [publish_of_absent hget]
            exact (Repo.get_setOnFetch_none hget key).2.1
        | some data =>
            rw [publish_of_found hget]
            exact (Repo.get_setOnFetch_some hget _ key).2.1
  · obtain ⟨slot, hslot⟩ := Option.ne_none_iff_exists'.mp hk
    rw [get_publish_of_cached s key data hslot]
    exact Option.some_ne_none _

/-- What is found of a key is published. -/
theorem Pins.publish (h : s.Pins p before) {data : Option Json}
    (hdata : ∀ d, data = some d → p.inUse key ∧ p.type.keyOf d = key) :
    (s.publish key data).2.Pins p before := by
  refine h.of_fills (publish_frame s key data) (fills_publish s key data) fun id i hi htype => ?_
  cases hget : s.source.repo.get key with
  | some slot =>
      rw [publish_of_cached hget] at hi
      exact (h.owned id i hi htype).imp_right .inl
  | none =>
      cases data with
      | none =>
          rw [publish_of_absent hget] at hi
          exact (h.owned id i hi htype).imp_right .inl
      | some d =>
          obtain ⟨hused, hkey⟩ := hdata d rfl
          rw [publish_of_found hget] at hi ⊢
          rcases getElem?_concat_cases hi with hold | rfl
          · exact (h.owned id i hold htype).imp_right .inl
          · have hown : (Record.load s.type d).key = key := by
              rw [h.type_eq]
              exact hkey
            refine ⟨hown ▸ hused, .inr ?_⟩
            rw [hown, (Repo.get_setOnFetch_some hget _ key).2.2, if_pos rfl]
            exact Option.some_ne_none _

theorem Pins.publishRows (h : s.Pins p before) {rows : List Json}
    (hrows : ∀ d ∈ rows, p.inUse (p.type.keyOf d)) : (s.publishRows rows).2.Pins p before := by
  induction rows generalizing s with
  | nil => exact h
  | cons d rows ih =>
      refine ih (h.publish fun d' hd => ?_) fun d' hd' => hrows d' (List.mem_cons_of_mem d hd')
      obtain rfl := Option.some.inj hd
      rw [h.type_eq]
      exact ⟨hrows d List.mem_cons_self, rfl⟩

theorem Pins.publishMissing (h : s.Pins p before) (keys : List Key) :
    (s.publishMissing keys).Pins p before := by
  induction keys generalizing s with
  | nil => exact h
  | cons key keys ih => exact ih (h.publish nofun)

/-- Data that were fetched are those of the row. -/
theorem exists_row_of_fetch {s : Storage} {table : TableRef} {text : String} {type : RecordType}
    {d : Json} (h : (s.fetch table true text).1.bind (firstData type) = .ok (some d)) :
    ∃ row, (s.rows table).get? text = some row ∧ type.read (.ofDocument row) = .ok d := by
  rcases Storage.read_cases s table (.fetch true text) (·.select [text]) with ⟨e, -, hread⟩ | hread
  · rw [Storage.fetch, hread] at h
    cases h
  · rw [Storage.fetch, hread] at h
    cases hrow : (s.rows table).get? text with
    | none =>
        have hnone := (firstData_of_none type hrow).symm.trans h
        cases hnone
    | some row =>
        have hdata := (firstData_of_some type hrow).symm.trans h
        cases hd : type.read (.ofDocument row) with
        | error e =>
            rw [hd] at hdata
            cases hdata
        | ok d' =>
            rw [hd] at hdata
            obtain rfl : d' = d := by simpa [Except.map] using hdata
            exact ⟨row, rfl, hd⟩

/-- The row of a key that was not asked for holds data of the key. -/
theorem Pins.own (h : s.Pins p before) (hp : p.Filed before) (hkey : s.Unasked p key)
    {row : Document} {d : Json} (hrow : (s.storage.rows s.source.table).get? key.text = some row)
    (hread : s.type.read (.ofDocument row) = .ok d) : p.type.keyOf d = key := by
  rw [h.table, h.row_same hkey] at hrow
  rw [h.type_eq] at hread
  exact hp.own key row d hkey.1 hrow hread

theorem Pins.get (h : s.Pins p before) (hp : p.Filed before) (hused : p.inUse key) :
    (s.get key).2.Pins p before := by
  have hread : (s.fetched key).Pins p before := h.setStorage (Storage.content_read _ _ _ _ _)
  cases hget : s.source.repo.get key with
  | some slot =>
      simp only [Scope.get, hget]
      exact h
  | none =>
      cases hfetch : (s.storage.fetch s.source.table true key.text).1.bind (firstData s.type) with
      | error e =>
          rw [get_of_error hget hfetch]
          exact hread
      | ok data =>
          rw [get_of_ok hget hfetch]
          refine hread.publish fun d hd => ⟨hused, ?_⟩
          rw [hd] at hfetch
          obtain ⟨row, hrow, hd'⟩ := exists_row_of_fetch hfetch
          exact h.own hp ⟨hused, hget⟩ hrow hd'

theorem Pins.getMulti (h : s.Pins p before) (hp : p.Filed before) {keys : List Key}
    (hused : ∀ key ∈ keys, p.inUse key) : (s.getMulti keys).2.Pins p before := by
  have hread : ∀ keys, (s.fetchedMulti keys).Pins p before := fun _ =>
    h.setStorage (Storage.content_read _ _ _ _ _)
  by_cases hknown : (s.source.repo.getMulti keys).2 = []
  · rw [getMulti_of_known hknown]
    exact h
  · rcases Storage.read_all_cases s.storage s.source.table
      (.fetchMulti ((s.source.repo.getMulti keys).2.map (·.text)))
      (·.select ((s.source.repo.getMulti keys).2.map (·.text))) s.type with
      ⟨e, hfetch⟩ | ⟨rows, hfetch, hpairs⟩
    · rw [getMulti_of_error hknown hfetch]
      exact hread _
    · rw [getMulti_of_ok hknown hfetch]
      refine ((hread _).publishRows fun d hd => ?_).publishMissing _
      obtain ⟨row, hrow, hdata⟩ := exists_left_of_forall₂ hpairs hd
      obtain ⟨text, htext, hget⟩ := List.mem_filterMap.mp hrow
      obtain ⟨key, hkey, rfl⟩ := List.mem_map.mp htext
      obtain ⟨hmem, hnone⟩ := List.mem_filter.mp hkey
      have hunasked : s.Unasked p key := ⟨hused key hmem, Option.isNone_iff_eq_none.mp hnone⟩
      rw [h.own hp hunasked hget hdata]
      exact hunasked.1

theorem Pins.create (h : s.Pins p before) (hp : p.Filed before) {data : Json}
    (hused : p.inUse (p.type.keyOf data)) (tmp : Bool) :
    (s.create data { tmp }).2.Pins p before := by
  have hs := h.get hp hused
  have hcases := create_cases s data tmp
  rw [h.type_eq] at hcases
  rcases hcases with ⟨e, -, hresult⟩ | ⟨id, -, hresult⟩ | ⟨hnone, hresult⟩
  · rw [hresult]
    exact hs
  · rw [hresult]
    exact hs
  · rw [hresult]
    have hslot := fun k => (Repo.get_setOnStore_of_free (free_of_get_none hnone)
      (s.get (p.type.keyOf data)).2.instances.length k).2.2
    refine hs.of_fills ⟨rfl, rfl, rfl, rfl⟩ (Repo.fills_setOnStore _ _ _) fun id i hi htype => ?_
    rcases getElem?_concat_cases hi with hold | rfl
    · exact (hs.owned id i hold htype).imp_right .inl
    · refine ⟨hused, .inr ?_⟩
      have hown : (newRecord p.type data { tmp }).key = p.type.keyOf data := rfl
      rw [hown, hslot, if_pos rfl]
      exact Option.some_ne_none _

/-! ### Saves -/

theorem Pins.saver (h : s.Pins p before) {saver : Saver} (hsaver : s.source.saver = some saver) :
    Saver.Runs (.sparing p.table (s.Unasked p) before) saver.workers s.storage := by
  have hruns := h.runs
  rw [ledger, hsaver] at hruns
  exact hruns

theorem Pins.setSaver (h : s.Pins p before) {saver : Saver} {storage : Storage}
    (hruns : Saver.Runs (.sparing p.table (s.Unasked p) before) saver.workers storage) :
    ({ s with source := { s.source with saver := some saver }, storage } : Scope).Pins p before :=
  ⟨h.model, h.table, h.keeps, hruns, h.owned⟩

/-- A commitment of an instance does not have the text of a key that was not asked for. -/
theorem Pins.carried (h : s.Pins p before) (hp : p.Filed before)
    (hi : s.instances[id]? = some i) (htype : i.record.type = p.type) {c : Snapshot}
    (hc : c.key = i.record.key) :
    (Freight.sparing p.table (s.Unasked p) before).carried (.snapshot c) := by
  intro hnone key hkey htext
  obtain ⟨hused, hasked⟩ := h.owned id i hi htype
  have heq : c.key = key := hp.distinct hnone c.key key (hc ▸ hused) hkey.1 htext
  rw [← hc, heq] at hasked
  exact hasked hkey.2

theorem Pins.submit (h : s.Pins p before) (hp : p.Filed before)
    (hi : s.instances[id]? = some i) (htype : i.record.type = p.type)
    (hkey : i'.record.key = i.record.key) {c : Snapshot} (hc : c.key = i.record.key) :
    (s.submit id i' c).Pins p before ∧
      ∀ hash, s.Rests hash → (s.submit id i' c).Rests hash := by
  cases hsaver : s.source.saver with
  | none =>
      simp only [Scope.submit, hsaver]
      refine ⟨h.setInstance hi htype hkey, fun hash _ saver hno => ?_⟩
      rw [Scope.setInstance, hsaver] at hno
      cases hno
  | some saver =>
      obtain ⟨hput, hrests⟩ := (h.saver hsaver).put (Freight.takes_sparing _ _ _)
        (h.carried hp hi htype hc) i'.record.header.savingIndex
      simp only [Scope.submit, hsaver, h.save_eq]
      refine ⟨(h.setSaver hput).setInstance hi htype hkey, fun hash hs saver' hsaver' => ?_⟩
      rw [← Option.some.inj hsaver']
      exact hrests hash (hs saver hsaver)

theorem Pins.commit (h : s.Pins p before) (hp : p.Filed before)
    (hi : s.instances[id]? = some i) (htype : i.record.type = p.type) :
    (s.commit id i).2.Pins p before ∧ ∀ hash, s.Rests hash → (s.commit id i).2.Rests hash := by
  cases hcommit : i.record.commit with
  | none =>
      simp only [Scope.commit, hcommit]
      split
      · exact ⟨h.setRepo (Repo.fills_setOnDelete h.keeps _ _), fun _ hrests => hrests⟩
      · exact ⟨h, fun _ hrests => hrests⟩
  | some committed =>
      obtain ⟨c, r⟩ := committed
      obtain ⟨hc, hr⟩ := Record.key_of_commit hcommit
      obtain ⟨hs, hrests⟩ := h.submit hp hi htype
        (show (⟨r, i.events ++ committedEvent c⟩ : Instance).record.key = i.record.key from hr) hc
      simp only [Scope.commit, hcommit]
      split
      · exact ⟨hs.setRepo (Repo.fills_setOnDelete hs.keeps _ _), hrests⟩
      · exact ⟨hs, hrests⟩

/-- An instance is saved. -/
theorem Pins.save (h : s.Pins p before) (hp : p.Filed before)
    (hid : ∀ i, s.instances[id]? = some i → i.record.type = p.type) :
    (s.save id).2.Pins p before ∧ ∀ hash, s.Rests hash → (s.save id).2.Rests hash := by
  cases hi : s.instances[id]? with
  | none =>
      simp only [Scope.save, hi]
      exact ⟨h, fun _ hrests => hrests⟩
  | some i =>
      simp only [Scope.save, hi]
      split
      · exact ⟨h, fun _ hrests => hrests⟩
      · split
        · split
          · exact (h.setRepo (Repo.fills_setOnStore _ _ _)).commit hp hi (hid i hi)
          · exact ⟨h, fun _ hrests => hrests⟩
        · exact h.commit hp hi (hid i hi)

/-- An instance is saved and its worker waited for, which does not fail if the worker had
nothing in its hands. -/
theorem Pins.sync (h : s.Pins p before) (hp : p.Filed before)
    (hid : ∀ i, s.instances[id]? = some i → i.record.type = p.type) :
    (s.sync id).2.Pins p before ∧
      ((∀ i, s.instances[id]? = some i → s.Rests (some i.record.key.hash)) →
        (s.sync id).1 = (s.save id).1.map fun _ => ()) := by
  obtain ⟨hsaved, hrests⟩ := h.save hp hid
  have hkeys : ∀ i', (s.save id).2.instances[id]? = some i' →
      ∃ i, s.instances[id]? = some i ∧ i'.record.key = i.record.key := by
    intro i' hi'
    have hcommits := commits_save s id
    cases hdone : (s.save id).1.toOption.getD false with
    | false => exact ⟨i', hcommits.clean hdone ▸ hi', rfl⟩
    | true =>
        obtain ⟨i, place, hi, -, hset⟩ := hcommits.dirty hdone
        rw [hset, List.getElem?_set_self (List.getElem?_eq_some_iff.mp hi).1,
          Option.some.injEq] at hi'
        exact ⟨i, hi, hi' ▸ rfl⟩
  cases hsave : s.save id with
  | mk result s' =>
      rw [hsave] at hsaved hrests hkeys
      cases result with
      | error e =>
          simp only [Scope.sync, hsave]
          exact ⟨hsaved, fun _ => rfl⟩
      | ok committed =>
          simp only [Scope.sync, hsave]
          split
          next saver i' hsaver hi' =>
            obtain ⟨i, hi, hkey⟩ := hkeys i' hi'
            obtain ⟨hruns, htold⟩ := (hsaved.saver hsaver).sync (Freight.takes_sparing _ _ _)
              (some i'.record.key.hash)
            rw [hsaved.save_eq]
            refine ⟨hsaved.setSaver hruns, fun hfree => htold ?_⟩
            rw [hkey]
            exact hrests _ (hfree i hi) saver hsaver
          · exact ⟨hsaved, fun _ => rfl⟩

/-! ### The saver -/

theorem Pins.syncAll (h : s.Pins p before) :
    s.syncAll.2.Pins p before ∧ (s.Rests none → s.syncAll.1 = .ok ()) := by
  cases hsaver : s.source.saver with
  | none =>
      simp only [Scope.syncAll, hsaver]
      exact ⟨h, fun _ => trivial⟩
  | some saver =>
      obtain ⟨hruns, htold⟩ := (h.saver hsaver).sync (Freight.takes_sparing _ _ _) none
      simp only [Scope.syncAll, hsaver, h.save_eq]
      exact ⟨h.setSaver hruns, fun hrests => htold (hrests saver hsaver)⟩

theorem Pins.deliver (h : s.Pins p before) (n : Nat) (a : DeliveryStep) :
    (s.deliver n a).Pins p before := by
  cases hsaver : s.source.saver with
  | none =>
      simp only [Scope.deliver, Scope.stepSaver, hsaver]
      exact h
  | some saver =>
      simp only [Scope.deliver, Scope.stepSaver, hsaver, h.save_eq]
      exact h.setSaver ((h.saver hsaver).advance (Freight.takes_sparing _ _ _) n a)

/-- The consumers of a source finish what they have in their hands. -/
def finish (s : Scope) : Scope :=
  s.stepSaver (·.step (Worker.flush (Storage.save s.source.table)))

theorem confined_finish (s : Scope) : Confined s s.finish := by
  refine confined_of_aside (grows_stepSaver s fun saver => ?_)
    fun t _ _ hother => aside_stepSaver t s fun saver => ?_
  · exact Saver.view_finish (Storage.save_hides_refused s.source.table) saver s.storage
  · exact Saver.view_finish (Storage.save_hides hother) saver s.storage

theorem Pins.finish (h : s.Pins p before) :
    s.finish.Pins p before ∧ ∀ hash, s.finish.Rests hash := by
  cases hsaver : s.source.saver with
  | none =>
      simp only [Scope.finish, Scope.stepSaver, hsaver]
      refine ⟨h, fun hash saver hno => ?_⟩
      rw [hsaver] at hno
      cases hno
  | some saver =>
      obtain ⟨hruns, hall⟩ := (h.saver hsaver).flush (Freight.takes_sparing _ _ _)
      simp only [Scope.finish, Scope.stepSaver, hsaver, h.save_eq]
      refine ⟨h.setSaver hruns, fun hash saver' hsaver' w hw => ?_⟩
      rw [← Option.some.inj hsaver'] at hw
      exact hall w (Saver.mem_workers_of_asked hw)

end Pins

end Scope

end WriteBehind
