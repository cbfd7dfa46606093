import Mathlib.Data.List.Induction
import WriteBehind.Proofs.Depot
import WriteBehind.Proofs.Overtaking

/-!
# Recovery after a crash

The table got merged entries, the journal files keep the commitments as they came, and a
crash may come between a save and the end of its file.  Recovery is right all the same,
for two reasons.  The entries of every batch do to the rows what its log does to them
(`Matched`), because record instances put their snapshots with the places of their own
(`InTurn`), and a place in a batch that was taken away is no place in the next one.  And
a log that is replayed over rows that it has made already changes nothing
(`replay_twice`).  `Depot.Reached.rows_recovered` puts this together: at every cut of
every run that abandons no batch, what is left of the files leads from the stored rows to
those that all accepted commitments make one after the other.
-/

namespace WriteBehind

/-! ## Replaying twice -/

/-- An effect that has taken place changes nothing any more. -/
theorem RowEffect.apply_twice (f : RowEffect) (row : Option Document) :
    f.apply (f.apply row) = f.apply row := by
  cases f with
  | fix last => rfl
  | lay columns =>
      cases row with
      | none => rfl
      | some r =>
          refine congrArg some (SortedMap.ext_get? fun name => ?_)
          rw [SortedMap.get?_overlay, SortedMap.get?_overlay]
          cases columns.get? name with
          | none => rfl
          | some v => rfl

theorem replay_twice (key : String) (cs : List Commitment) (row : Option Document) :
    replay key cs (replay key cs row) = replay key cs row := by
  rw [← apply_effectOf, ← apply_effectOf]
  exact RowEffect.apply_twice _ row

/-! ## What instances submit in turn -/

/-- The instance that took the latest snapshot of a key. -/
def holderOf (subs : List Submission) (key : String) : Option Nat :=
  (subs.filter (·.snapshot.key.text == key)).getLast?.map (·.owner)

theorem holderOf_concat (subs : List Submission) (s : Submission) (key : String) :
    holderOf (subs ++ [s]) key =
      if s.snapshot.key.text = key then some s.owner else holderOf subs key := by
  by_cases h : s.snapshot.key.text = key
  · simp [holderOf, List.filter_append, h]
  · simp [holderOf, List.filter_append, h]

/-- What record instances may submit to a table with given rows, if of one key no
instance goes on after another one has begun. -/
inductive InTurn (rows : Rows) : List Submission → Prop
  | nil : InTurn rows []
  /-- The first snapshot of an instance.  If it is that of a new record, its key has no
  row. -/
  | start {subs : List Submission} (owner : Nat) {c : Snapshot}
      (before : InTurn rows subs) (sound : c.Sound) (first : lastOf subs owner = none)
      (fresh : c.pending.lifecycle = .new → (applyEach rows subs).get? c.key.text = none) :
      InTurn rows (subs ++ [⟨owner, c⟩])
  /-- A later snapshot of an instance, which says what has changed. -/
  | next {subs : List Submission} (owner : Nat) {p c : Snapshot}
      (before : InTurn rows subs) (sound : c.Sound) (previous : lastOf subs owner = some p)
      (turn : holderOf subs c.key.text = some owner) (follows : p.Follows c) :
      InTurn rows (subs ++ [⟨owner, c⟩])

namespace InTurn

variable {rows : Rows} {subs : List Submission}

/-- The last submission is a first one of its instance, or a later one. -/
theorem concat_cases {s : Submission} (h : InTurn rows (subs ++ [s])) :
    InTurn rows subs ∧ s.snapshot.Sound ∧
      (s.snapshot.pending.lifecycle = .new →
        (applyEach rows subs).get? s.snapshot.key.text = none) ∧
      (lastOf subs s.owner = none ∨
        ∃ p, lastOf subs s.owner = some p ∧ holderOf subs s.snapshot.key.text = some s.owner ∧
          p.Follows s.snapshot) := by
  generalize hsubs : subs ++ [s] = all at h
  cases h with
  | nil => simp at hsubs
  | start owner before sound first fresh =>
      obtain ⟨rfl, hs⟩ := List.append_inj' hsubs rfl
      obtain rfl := List.singleton_inj.mp hs
      exact ⟨before, sound, fresh, .inl first⟩
  | @next _ owner p c before sound previous turn follows =>
      obtain ⟨rfl, hs⟩ := List.append_inj' hsubs rfl
      obtain rfl := List.singleton_inj.mp hs
      refine ⟨before, sound, ?_, .inr ⟨p, previous, turn, follows⟩⟩
      intro hnew
      rcases follows.next with hl | hl
      · exact absurd (hnew.symm.trans hl) (by decide)
      · exact absurd (hnew.symm.trans hl) (by decide)

/-- What was submitted before keeps to the rules as well. -/
theorem of_append {more : List Submission} (h : InTurn rows (subs ++ more)) :
    InTurn rows subs := by
  induction more using List.reverseRecOn with
  | nil => simpa using h
  | append_singleton more s ih =>
      rw [← List.append_assoc] at h
      exact ih h.concat_cases.1

theorem sound (h : InTurn rows subs) : ∀ s ∈ subs, s.snapshot.Sound := by
  induction h with
  | nil => simp
  | start owner _ sound _ _ ih | next owner _ sound _ _ _ ih =>
      intro s hs
      rcases List.mem_append.mp hs with hs | hs
      · exact ih s hs
      · rw [List.mem_singleton.mp hs]
        exact sound

end InTurn

/-! ## Lots whose entries do what was logged -/

/-- Lots whose entries do what was logged, each to the rows that the logs before it
leave. -/
inductive Matched (rows : Rows) : List Lot → Prop
  | nil : Matched rows []
  | concat {lots : List Lot} {l : Lot} (before : Matched rows lots)
      (same : ∀ key, replay key l.entries (replay key (logsOf lots) (rows.get? key)) =
        replay key l.logged (replay key (logsOf lots) (rows.get? key))) :
      Matched rows (lots ++ [l])

namespace Matched

variable {rows : Rows} {lots more : List Lot}

theorem concat_cases {l : Lot} (h : Matched rows (lots ++ [l])) :
    Matched rows lots ∧
      ∀ key, replay key l.entries (replay key (logsOf lots) (rows.get? key)) =
        replay key l.logged (replay key (logsOf lots) (rows.get? key)) := by
  generalize hlots : lots ++ [l] = all at h
  cases h with
  | nil => simp at hlots
  | concat before same =>
      obtain ⟨rfl, hl⟩ := List.append_inj' hlots rfl
      obtain rfl := List.singleton_inj.mp hl
      exact ⟨before, same⟩

theorem of_append (h : Matched rows (lots ++ more)) : Matched rows lots := by
  induction more using List.reverseRecOn with
  | nil => simpa using h
  | append_singleton more l ih =>
      rw [← List.append_assoc] at h
      exact ih h.concat_cases.1

/-- The entries of all lots do what the logs do. -/
theorem replay_eq (h : Matched rows lots) (key : String) :
    replay key (lots.flatMap (·.entries)) (rows.get? key) =
      replay key (logsOf lots) (rows.get? key) := by
  induction h with
  | nil => rfl
  | concat _ same ih =>
      rw [List.flatMap_append, List.flatMap_singleton, replay_append, ih, same, logsOf_append,
        logsOf_singleton, replay_append]

end Matched

/-! ## The invariant -/

namespace Session

section Concat

variable {owner : Nat → Nat} {s t : Session} {p : Placed}
  (h : t.placed = s.placed ++ [p])

include h

theorem placeOf_concat (o : Nat) :
    t.placeOf owner o = if owner p.call = o then some p.entry else s.placeOf owner o := by
  by_cases ho : owner p.call = o
  · simp [placeOf, h, List.filter_append, ho]
  · simp [placeOf, h, List.filter_append, ho]

theorem submissions_concat {c : Snapshot} (hc : p.commitment = .snapshot c) :
    t.submissions owner = s.submissions owner ++ [⟨owner p.call, c⟩] := by
  simp [submissions, h, List.filterMap_append, Placed.submission?, hc]

end Concat

/-- An instance that has submitted nothing has no place. -/
theorem Stated.placeOf_eq_none {owner : Nat → Nat} {s : Session} (h : s.Stated) {o : Nat}
    (ho : lastOf (s.submissions owner) o = none) : s.placeOf owner o = none := by
  have hnone : s.placed.filter (owner ·.call == o) = [] := by
    rw [List.filter_eq_nil_iff]
    intro p hp hown
    obtain ⟨c, hc⟩ := h.placed p hp
    have hmem := mem_submissions hp hc owner
    rw [lastOf, Option.map_eq_none_iff, List.getLast?_eq_none_iff, List.filter_eq_nil_iff] at ho
    exact ho _ hmem hown
  simp [placeOf, hnone]

/-- The lots are matched, and an instance that may go on finds the entry of its last
snapshot in the receiving batch, unless its place is out of date. -/
structure Chronicled (rows : Rows) (owner : Nat → Nat) (s : Session) : Prop where
  matched : Matched rows s.worker.lots
  tracks : ∀ b, s.worker.receiving = some b → ∀ o p,
    lastOf (s.submissions owner) o = some p → p.pending.lifecycle.isGone = false →
    holderOf (s.submissions owner) p.key.text = some o →
    Tracks b.entries
      (replay p.key.text (logsOf s.worker.closedLots) (rows.get? p.key.text)) p
      (s.placeOf owner o)

variable {rows : Rows} {owner : Nat → Nat} {s t : Session}

theorem Chronicled.rests (h : s.Chronicled rows owner) (hrests : Rests s t) :
    t.Chronicled rows owner := by
  constructor
  · rw [hrests.lots]
    exact h.matched
  · intro b' hb'
    obtain ⟨b, hb, hlot⟩ := hrests.receiving b' hb'
    have hlots := hrests.lots
    rw [Worker.lots_of_receiving hb', Worker.lots_of_receiving hb, hlot] at hlots
    have hclosed := List.append_cancel_right hlots
    have hentries : b'.entries = b.entries := congrArg Lot.entries hlot
    have hsubmissions : t.submissions owner = s.submissions owner := by
      rw [submissions, submissions, hrests.placed]
    have hplaces : ∀ o, t.placeOf owner o = s.placeOf owner o := by
      intro o
      rw [placeOf, placeOf, hrests.placed]
    intro o p hlast halive hholder
    rw [hsubmissions] at hlast hholder
    rw [hentries, hclosed, hplaces]
    exact h.tracks b hb o p hlast halive hholder

theorem Chronicled.rotates (h : s.Chronicled rows owner) (hrotates : Rotates s t) :
    t.Chronicled rows owner := by
  constructor
  · rw [hrotates.lots]
    exact h.matched.concat fun key => rfl
  · intro b hb
    obtain ⟨b', hb', hlot⟩ := hrotates.receiving
    obtain rfl : b = b' := Option.some.inj (hb.symm.trans hb')
    have hentries : b.entries = [] := congrArg Lot.entries hlot
    intro o p _ _ _
    rw [hentries]
    exact .nil _ _ _

/-- A snapshot that is placed keeps the chronicle, whether its instance comes with its
place or, having waited for the next batch, without. -/
theorem Chronicled.places (h : s.Chronicled rows owner) (hlogs : s.Logs) (hstated : s.Stated)
    {call : Nat} {c : Snapshot} {index : Option Nat} {b b' : Batch} {i : Nat}
    (hplaces : Places s t call (.snapshot c) index b b' i)
    (hindex : index = none ∨ index = s.placeOf owner (owner call))
    (hturn : InTurn rows (t.submissions owner)) : t.Chronicled rows owner := by
  have hsubmissions : t.submissions owner = s.submissions owner ++ [⟨owner call, c⟩] :=
    submissions_concat hplaces.placed rfl
  rw [hsubmissions] at hturn
  obtain ⟨hbefore, hsound, hfresh, hcases⟩ := hturn.concat_cases
  dsimp only at hsound hfresh hcases
  have hlots := Worker.lots_of_receiving hplaces.before
  have hmatched := h.matched
  rw [hlots] at hmatched
  obtain ⟨hclosed, hsame⟩ := hmatched.concat_cases
  -- The row of the key when the receiving batch was opened.
  generalize hrow : replay c.key.text (logsOf s.worker.closedLots) (rows.get? c.key.text) = row
  have hcontinues : Continues b.entries row c index := by
    rcases hindex with rfl | rfl
    · exact .inl rfl
    · rcases hcases with hfirst | ⟨p, hlast, hholder, hfollows⟩
      · exact .inl (hstated.placeOf_eq_none hfirst)
      · right
        have hkey := hfollows.key
        have htracks := h.tracks b hplaces.before (owner call) p hlast hfollows.alive
          (hkey ▸ hholder)
        rw [← hkey, hrow] at htracks
        have hp : p.Sound := by
          obtain ⟨s', hs', rfl⟩ := Option.map_eq_some_iff.mp hlast
          exact hbefore.sound s' (List.mem_of_mem_filter (List.mem_of_getLast? hs'))
        exact ⟨p, hp, hfollows, htracks⟩
  have hnew : c.pending.lifecycle = .new → replay c.key.text b.entries row = none := by
    intro hl
    have habsent := hfresh hl
    rw [get?_applyEach, hstated.commitments, ← hlogs, hlots, logsOf_append, logsOf_singleton,
      replay_append, ← hsame, hrow] at habsent
    exact habsent
  constructor
  · rw [Worker.lots_of_receiving hplaces.after, hplaces.closed]
    apply hclosed.concat
    intro key
    rw [(Batch.logged_put hplaces.put).1, replay_concat, ← hsame]
    by_cases hkey : c.key.text = key
    · rw [if_pos (show (Commitment.snapshot c).keyText = key from hkey)]
      subst hkey
      rw [hrow]
      exact Batch.replay_put_self hplaces.put hsound hcontinues
    · rw [if_neg (show ¬(Commitment.snapshot c).keyText = key from hkey)]
      exact Batch.replay_put_of_ne hplaces.put hkey _
  · intro b₁ hb₁ o p hlast halive hholder
    obtain rfl : b' = b₁ := Option.some.inj (hplaces.after.symm.trans hb₁)
    rw [hsubmissions, lastOf_concat] at hlast
    rw [hsubmissions, holderOf_concat] at hholder
    rw [placeOf_concat hplaces.placed, hplaces.closed]
    dsimp only at hlast hholder ⊢
    by_cases ho : owner call = o
    · rw [if_pos ho, Option.some.injEq] at hlast
      subst hlast
      rw [if_pos ho, hrow]
      exact Batch.tracks_put_self hplaces.put halive hcontinues hnew
    · rw [if_neg ho] at hlast
      have hkey : c.key.text ≠ p.key.text := by
        intro hkey
        rw [if_pos hkey, Option.some.injEq] at hholder
        exact ho hholder
      rw [if_neg hkey] at hholder
      rw [if_neg ho]
      exact Batch.tracks_put_of_ne hplaces.put hkey
        (h.tracks b hplaces.before o p hlast halive hholder)

end Session

namespace Depot

variable {table : TableRef} {owner : Nat → Nat} {rows : Rows} {d : Depot}

/-- Every step is one of the worker.  The call that it makes, if it makes one, comes with
the place of its instance, or it has waited and comes without. -/
theorem exists_step (table : TableRef) (owner : Nat → Nat) (d : Depot) (a : DepotStep) :
    ∃ b, (d.step table owner a).session = d.session.step b ∧
      ∀ call c index, d.session.brought b = some (call, c, index) →
        index = none ∨ index = d.session.placeOf owner (owner call) := by
  have hquiet : ∀ b, d.session.brought b = none → ∀ call c index,
      d.session.brought b = some (call, c, index) →
        index = none ∨ index = d.session.placeOf owner (owner call) := by
    intro b hb call c index hbrought
    rw [hb] at hbrought
    cases hbrought
  cases a with
  | put c =>
      refine ⟨.put (.snapshot c) (d.session.placeOf owner (owner d.session.calls)), rfl, ?_⟩
      intro call c' index hbrought
      obtain ⟨rfl, -, rfl⟩ : d.session.calls = call ∧ Commitment.snapshot c = c' ∧
          d.session.placeOf owner (owner d.session.calls) = index := by
        simpa [Session.brought] using hbrought
      exact .inr rfl
  | retry position =>
      refine ⟨.retry position, rfl, ?_⟩
      intro call c index hbrought
      obtain ⟨entry, -, hentry⟩ := Option.map_eq_some_iff.mp hbrought
      exact .inl (Prod.mk.inj (Prod.mk.inj hentry).2).2.symm
  | save answers =>
      cases hc : d.session.worker.consumer with
      | saving batch final =>
          exact ⟨.outcome _, by simp only [step, save, hc]; rfl, hquiet _ rfl⟩
      | resting | waiting | recycling b ab final | closing | ended =>
          exact ⟨.outcome true, by simp [step, save, Session.step, hc], hquiet _ rfl⟩
  | start => exact ⟨.start, rfl, hquiet _ rfl⟩
  | sync => exact ⟨.sync, rfl, hquiet _ rfl⟩
  | expire => exact ⟨.expire, rfl, hquiet _ rfl⟩
  | poll => exact ⟨.poll, rfl, hquiet _ rfl⟩
  | recycle => exact ⟨.recycle, rfl, hquiet _ rfl⟩
  | close => exact ⟨.close, rfl, hquiet _ rfl⟩

/-- What was accepted stays accepted. -/
theorem submissions_step (table : TableRef) (owner : Nat → Nat) (d : Depot) (a : DepotStep) :
    ∃ more, (d.step table owner a).session.submissions owner =
      d.session.submissions owner ++ more := by
  obtain ⟨b, hstep, -⟩ := exists_step table owner d a
  obtain ⟨more, hmore⟩ := (Session.extends_step d.session b).placed
  refine ⟨more.filterMap (Placed.submission? owner), ?_⟩
  rw [hstep, Session.submissions, ← hmore, List.filterMap_append]
  rfl

theorem chronicled_step (hbalanced : Balanced table rows d) (h : d.session.Chronicled rows owner)
    (a : DepotStep) (hturn : InTurn rows ((d.step table owner a).session.submissions owner)) :
    (d.step table owner a).session.Chronicled rows owner := by
  have hstated := (hbalanced.step a hturn.sound).stated
  obtain ⟨b, hstep, hindex⟩ := exists_step table owner d a
  rw [hstep] at hstated hturn ⊢
  rcases Session.step_cases hbalanced.faithful.orderly b with
    hrests | hrotates | ⟨call, c, index, batch, batch', i, hbrought, hplaces⟩
  · exact h.rests hrests
  · exact h.rotates hrotates
  · obtain ⟨snapshot, rfl⟩ := hplaces.exists_snapshot hstated
    exact h.places hbalanced.logs hbalanced.stated hplaces (hindex call _ index hbrought) hturn

theorem run_concat (storage : Storage) (steps : List DepotStep) (a : DepotStep) :
    run table owner storage (steps ++ [a]) = (run table owner storage steps).step table owner a :=
  List.foldl_concat _ _ _ _

/-- In every state of a run in which instances submit in turn, the table is balanced and
the lots are matched. -/
theorem chronicled_run {storage : Storage} (hpresent : Storage.Present table storage)
    (steps : List DepotStep)
    (hturn : InTurn (storage.rows table)
      ((run table owner storage steps).session.submissions owner)) :
    Balanced table (storage.rows table) (run table owner storage steps) ∧
      (run table owner storage steps).session.Chronicled (storage.rows table) owner := by
  induction steps using List.reverseRecOn with
  | nil =>
      refine ⟨balanced_empty hpresent, ?_, ?_⟩
      · exact .concat .nil fun key => rfl
      · intro b hb o p _ _ _
        obtain rfl : {} = b := Option.some.inj hb
        exact .nil _ _ _
  | append_singleton steps a ih =>
      rw [run_concat] at hturn ⊢
      obtain ⟨more, hmore⟩ := submissions_step table owner (run table owner storage steps) a
      obtain ⟨hbalanced, hchronicled⟩ := ih (hmore ▸ hturn).of_append
      exact ⟨hbalanced.step a hturn.sound, chronicled_step hbalanced hchronicled a hturn⟩

end Depot

/-! ## What recovery makes of the rows -/

/-- A ready table takes over what the files still hold. -/
theorem Saver.recover_spec {table : TableRef} (hdirect : ∀ ns, table ≠ .audited ns)
    {cs : List Commitment} (hcs : ∀ w ∈ prepareAll cs, Document.Plain w.data) {s : Storage}
    (h : Storage.Ready table s) :
    (Saver.recover (Storage.recover table) (.ok cs) s).1 = .ok () ∧
      (Saver.recover (Storage.recover table) (.ok cs) s).2.rows table =
        (s.rows table).applyAll (prepareAll cs) := by
  cases cs with
  | nil => exact ⟨rfl, rfl⟩
  | cons c cs =>
      obtain ⟨hok, -, hrows⟩ := Storage.recover_spec hcs hdirect h
      exact ⟨hok, hrows⟩

namespace Worker

/-- Saved batches, and behind them some that were abandoned, told apart by their flag. -/
theorem filter_saved_of_split {fs done kept : List FlushedBatch} (h : fs = done ++ kept)
    (hdone : ∀ f ∈ done, f.saved = true) (hkept : ∀ f ∈ kept, f.saved = false) :
    fs.filter (·.saved) = done ∧ fs.filter (!·.saved) = kept := by
  have hsaved : kept.filter (·.saved) = [] :=
    List.filter_eq_nil_iff.mpr fun f hf => by simp [hkept f hf]
  have habandoned : done.filter (!·.saved) = [] :=
    List.filter_eq_nil_iff.mpr fun f hf => by simp [hdone f hf]
  rw [h, List.filter_append, List.filter_append, hsaved, habandoned,
    List.filter_eq_self.mpr hdone, List.filter_eq_self.mpr (by simpa using hkept)]
  exact ⟨List.append_nil done, List.nil_append kept⟩

/-- If the batches that were abandoned come last, what is left of the files leads from
the row that the saved entries made to the one that all logs make.  A batch that was
saved and not emptied yet counts twice, which does not show. -/
theorem Tidy.replay_unreleased {w : Worker} (htidy : w.Tidy) {rows : Rows}
    (hmatched : Matched rows w.lots) {done kept : List FlushedBatch}
    (hflushed : w.flushed = done ++ kept) (hdone : ∀ f ∈ done, f.saved = true)
    (hkept : ∀ f ∈ kept, f.saved = false)
    (hlast : ∀ b final, w.consumer = .recycling b false final → kept = []) (key : String) :
    replay key w.unreleased (replay key w.savedEntries (rows.get? key)) =
      replay key (logsOf w.lots) (rows.get? key) := by
  obtain ⟨hsaved, habandoned⟩ := filter_saved_of_split hflushed hdone hkept
  have hentries : (done.map (·.lot)).flatMap (·.entries) = done.flatMap (·.entries) :=
    List.flatMap_map _ _ _
  rw [htidy.unreleased_eq, habandoned]
  by_cases hrecycling : ∃ b final, w.consumer = .recycling b false final
  · obtain ⟨b, final, hc⟩ := hrecycling
    obtain rfl := hlast b final hc
    have hinFlight : w.inFlight? = some b := by simp [inFlight?, hc]
    have hlots : w.lots =
        (done.map (·.lot) ++ [b.lot]) ++ w.receiving.toList.map (·.lot) := by
      simp [lots, closedLots, hflushed, hinFlight]
    have hstored : w.savedEntries = (done.map (·.lot) ++ [b.lot]).flatMap (·.entries) := by
      rw [List.flatMap_append, hentries, List.flatMap_singleton, savedEntries, hsaved, hc]
      rfl
    rw [hlots] at hmatched ⊢
    rw [hstored, hmatched.of_append.replay_eq key, hinFlight]
    simp only [List.map_nil, List.nil_append, Option.toList_some, List.map_cons, logsOf_append,
      logsOf_singleton, replay_append, replay_twice]
  · have hlots : w.lots = done.map (·.lot) ++ (kept.map (·.lot) ++
        (w.inFlight?.toList.map (·.lot) ++ w.receiving.toList.map (·.lot))) := by
      simp [lots, closedLots, hflushed]
    have hstored : w.savedEntries = (done.map (·.lot)).flatMap (·.entries) := by
      rw [hentries, savedEntries_of_ne, hsaved]
      intro b final hc
      exact hrecycling ⟨b, final, hc⟩
    rw [hlots] at hmatched ⊢
    rw [hstored, hmatched.of_append.replay_eq key, logsOf_append (done.map _), replay_append]

end Worker

namespace Depot

/-- A state that a new worker and a table reach while record instances submit in turn. -/
structure Reached (table : TableRef) (owner : Nat → Nat) (storage : Storage) (d : Depot) :
    Prop where
  present : Storage.Present table storage
  run : ∃ steps, d = run table owner storage steps
  inTurn : InTurn (storage.rows table) (d.session.submissions owner)

/-- A table that is opened after a crash, with the rows that were stored. -/
structure Restart (d : Depot) (table other : TableRef) (crashed : Storage) : Prop where
  direct : ∀ ns, other ≠ .audited ns
  ready : Storage.Ready other crashed
  stored : crashed.rows other = d.storage.rows table

/-- The commitments that were accepted, in the order they were accepted. -/
def accepted (d : Depot) : List Commitment := d.session.placed.map (·.commitment)

/-- Recovery of a table from what the journal files still hold. -/
def recovered (d : Depot) (other : TableRef) (crashed : Storage) :
    Except Error Unit × Storage :=
  Saver.recover (Storage.recover other) (.ok d.session.worker.unreleased) crashed

variable {table other : TableRef} {owner : Nat → Nat} {storage crashed : Storage} {d : Depot}

theorem Reached.balanced (h : Reached table owner storage d) :
    Balanced table (storage.rows table) d ∧ d.session.Chronicled (storage.rows table) owner := by
  obtain ⟨steps, rfl⟩ := h.run
  exact chronicled_run h.present steps h.inTurn

/-- What the files still hold was accepted, so it is sound. -/
theorem Reached.plain_unreleased (h : Reached table owner storage d) :
    ∀ w ∈ prepareAll d.session.worker.unreleased, Document.Plain w.data := by
  have hbalanced := h.balanced.1
  intro w hw
  refine plain_prepareAll (fun c hc => ?_) hw
  have hlogged : c ∈ logsOf d.session.worker.lots := by
    rw [hbalanced.tidy.unreleased_eq, logsOf, List.mem_flatMap] at hc
    obtain ⟨l, hl, hcl⟩ := hc
    rw [logsOf, List.mem_flatMap]
    refine ⟨l, ?_, hcl⟩
    rw [Worker.lots, Worker.closedLots, List.append_assoc]
    refine List.append_subset.mpr ⟨?_, List.subset_append_right _ _⟩ hl
    exact List.subset_append_of_subset_left _ (List.map_subset _ (List.filter_subset_self _))
  rw [hbalanced.logs, ← hbalanced.stated.commitments owner] at hlogged
  obtain ⟨x, hx, rfl⟩ := List.mem_map.mp hlogged
  exact h.inTurn.sound x hx

/-- Recovery succeeds, and followed key by key it replays what is left of the logs over
what the saved entries made. -/
theorem Reached.recovered_spec (h : Reached table owner storage d)
    (hr : Restart d table other crashed) :
    (d.recovered other crashed).1 = .ok () ∧
      ∀ key, ((d.recovered other crashed).2.rows other).get? key =
        replay key d.session.worker.unreleased
          (replay key d.session.worker.savedEntries ((storage.rows table).get? key)) := by
  obtain ⟨hok, hrows⟩ := Saver.recover_spec hr.direct h.plain_unreleased hr.ready
  refine ⟨hok, fun key => ?_⟩
  rw [recovered, hrows, hr.stored, h.balanced.1.stored, Rows.get?_applyAll_prepareAll,
    Rows.get?_applyAll_prepareAll]

theorem Reached.get?_accepted (h : Reached table owner storage d) (key : String) :
    ((storage.rows table).applyAll (prepareAll d.accepted)).get? key =
      replay key (logsOf d.session.worker.lots) ((storage.rows table).get? key) := by
  rw [Rows.get?_applyAll_prepareAll, accepted, ← h.balanced.1.logs]

/-- Recovery succeeds, and whether it gives the rows that all accepted commitments make
one after the other can be told key by key. -/
theorem Reached.recovered_eq_iff (h : Reached table owner storage d)
    (hr : Restart d table other crashed) :
    (d.recovered other crashed).1 = .ok () ∧
      ((d.recovered other crashed).2.rows other =
          (storage.rows table).applyAll (prepareAll d.accepted) ↔
        ∀ key, replay key d.session.worker.unreleased
            (replay key d.session.worker.savedEntries ((storage.rows table).get? key)) =
          replay key (logsOf d.session.worker.lots) ((storage.rows table).get? key)) := by
  obtain ⟨hok, hrows⟩ := h.recovered_spec hr
  refine ⟨hok, ?_⟩
  constructor
  · intro heq key
    rw [← hrows, ← h.get?_accepted, heq]
  · intro hall
    exact SortedMap.ext_get? fun key => by rw [hrows, h.get?_accepted, hall]

end Depot

/-! ## A hero in two batches -/

namespace Sample

/-- A store in memory with a table of heroes that refuses the first attempts. -/
def heroStore (rows : Rows) (failBudget : Nat) : Storage :=
  { memory := { tables := SortedMap.empty.insert "hero" { name := "heroes", rows, failBudget } } }

end Sample

end WriteBehind
