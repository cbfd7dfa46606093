import WriteBehind.Proofs.LedgerSteps

/-!
# An instance and what is pending of it

An instance keeps the place of its last entry, so its next commit is put where that entry is,
or behind all others.  What has to be known for this is little (`Ledger.Standing`): a record
that is new has no row yet and no place, and for any other one the place leads to the entry
of some data that it had.  Then the row of its key sees the next commit last, whatever else
is pending, provided that a commit of changes marks what has changed since those data.
-/

namespace WriteBehind

variable {σ : Type}

namespace Ledger

variable {d : Domain σ} {l l' : Ledger σ} {key : Key} {i i' : Instance} {n j : Nat}
  {w w' : Worker} {c : Snapshot} {place : Option Nat} {base base' : Json → Prop}

/-! ## Putting into a lane -/

theorem Lane.put (h : l.Lane d n w) (hput : w.put (.snapshot c) place = .placed j w')
    (hc : c.Sound) (hused : d.inUse c.key) (hn : l.laneOf c.key = n) :
    (l.setWorker n w' l.table).Lane d n w' := by
  refine ⟨h.fit.put hput hc, ?_⟩
  obtain ⟨b, b', hb, hok, rfl⟩ := Worker.put_eq_placed hput
  intro e he
  simp only [laneOf_setWorker]
  rcases List.mem_append.mp he with he | he
  · exact h.routed e (List.mem_append_left _ he)
  · rcases Batch.mem_put hok he with he | ⟨s, rfl, hs⟩
    · refine h.routed e (List.mem_append_right _ ?_)
      rw [Worker.incoming_of_receiving hb]
      exact he
    · exact ⟨s, rfl, hs ▸ hused, hs ▸ hn⟩

theorem Manned.put (h : l.Manned d) (hw : l.workers[n]? = some w)
    (hput : w.put (.snapshot c) place = .placed j w') (hc : c.Sound) (hused : d.inUse c.key)
    (hn : l.laneOf c.key = n) : (l.setWorker n w' l.table).Manned d := by
  refine ⟨?_, h.good, lanes_setWorker h ((h.lanes n w hw).put hput hc hused hn)⟩
  rw [setWorker, List.length_set]
  exact h.staffed

/-- A put does not touch what is on its way to the table. -/
theorem before_put (hw : l.workers[n]? = some w) (hn : l.laneOf key = n)
    (hput : w.put (.snapshot c) place = .placed j w') :
    (l.setWorker n w' l.table).before d key = l.before d key := by
  rw [before, before, worker_setWorker_self hw hn, worker_of_lane hw hn]
  obtain ⟨b, b', -, -, rfl⟩ := Worker.put_eq_placed hput
  rfl

/-- Other keys do not see a put. -/
theorem carries_put (hd : d.Distinct) (hw : l.workers[n]? = some w)
    (hput : w.put (.snapshot c) place = .placed j w') (hc : d.inUse c.key)
    (hused : d.inUse key) (hne : key ≠ c.key) :
    Carries d l (l.setWorker n w' l.table) key := by
  have htext : c.key.text ≠ key.text := fun heq => hne (hd _ _ hc hused heq).symm
  by_cases hn : l.laneOf key = n
  · have hold := worker_of_lane hw hn
    have hnew : (l.setWorker n w' l.table).worker key = w' := worker_setWorker_self hw hn
    have hbefore := before_put (d := d) hw hn hput
    obtain ⟨b, b', hb, hok, hw'⟩ := Worker.put_eq_placed hput
    have hincoming : w.incoming = b.entries := Worker.incoming_of_receiving hb
    have hincoming' : w'.incoming = b'.entries := by rw [hw']; rfl
    have hleaving' : w'.leaving = w.leaving := by rw [hw']; rfl
    refine ⟨?_, ?_, ?_⟩
    · rw [eventual_eq, eventual_eq, hbefore, hnew, hold, hincoming, hincoming']
      exact Batch.replay_put_of_ne hok htext _
    · rw [hold, hnew]
      intro hidle e he
      rw [Worker.pending, hleaving', hincoming'] at he
      rcases List.mem_append.mp he with he | he
      · exact hidle e (List.mem_append_left _ he)
      · rcases Batch.mem_put hok he with he | ⟨s, rfl, hs⟩
        · refine hidle e (List.mem_append_right _ ?_)
          rwa [hincoming]
        · rw [Snapshot.keyText_snapshot, hs]
          exact htext
    · intro p i hp htracks
      rw [hbefore, hnew, hincoming']
      rw [hold, hincoming] at htracks
      exact Batch.tracks_put_of_ne hok (by rwa [hp]) htracks
  · have hsame : (l.setWorker n w' l.table).worker key = l.worker key :=
      worker_setWorker_of_ne hn
    have hbefore : (l.setWorker n w' l.table).before d key = l.before d key := by
      rw [before, before, hsame]
      rfl
    refine ⟨?_, ?_, ?_⟩
    · rw [eventual, eventual, hsame]
      rfl
    · rw [hsame]
      exact fun hidle => hidle
    · intro p i _ htracks
      rw [hsame, hbefore]
      exact htracks

/-- Whatever the place, the row of its key sees a put last. -/
theorem eventual_put (hw : l.workers[n]? = some w) (hn : l.laneOf c.key = n)
    (hput : w.put (.snapshot c) place = .placed j w') (hc : c.Sound)
    (hplace : Continues w.incoming (l.before d c.key) c place) :
    (l.setWorker n w' l.table).eventual d c.key =
      (Commitment.snapshot c).onRow (l.eventual d c.key) := by
  have hbefore := before_put (d := d) hw hn hput
  rw [eventual_eq, eventual_eq, hbefore, worker_setWorker_self hw hn, worker_of_lane hw hn]
  obtain ⟨b, b', hb, hok, rfl⟩ := Worker.put_eq_placed hput
  rw [Worker.incoming_of_receiving hb] at hplace ⊢
  exact Batch.replay_put_self hok hc hplace

/-- The place that a put gives leads to its entry. -/
theorem place_put (hw : l.workers[n]? = some w) (hn : l.laneOf c.key = n)
    (hput : w.put (.snapshot c) place = .placed j w')
    (halive : c.pending.lifecycle.isGone = false) {p : Snapshot} (htype : c.type = p.type)
    (hkey : c.key = p.key) (hplace : Tracks w.incoming (l.before d c.key) p place)
    (hnew : c.pending.lifecycle = .new → l.eventual d c.key = none) :
    Tracks ((l.setWorker n w' l.table).worker c.key).incoming
      ((l.setWorker n w' l.table).before d c.key) c (some j) := by
  have hbefore := before_put (d := d) hw hn hput
  rw [hbefore, worker_setWorker_self hw hn]
  rw [eventual_eq, worker_of_lane hw hn] at hnew
  obtain ⟨b, b', hb, hok, rfl⟩ := Worker.put_eq_placed hput
  rw [Worker.incoming_of_receiving hb] at hplace hnew
  exact Batch.tracks_put hok halive htype hkey hplace hnew

/-! ## Standing -/

/-- An instance of a key among what is pending: before its first commit there is no row to
come, and afterwards its place leads to the entry of some data. -/
structure Standing (d : Domain σ) (l : Ledger σ) (key : Key) (base : Json → Prop)
    (i : Instance) : Prop where
  absent : i.record.lifecycle = .new ∨ i.record.lifecycle = .unavailable →
    l.eventual d key = none
  placeless : i.record.lifecycle = .new → i.record.header.savingIndex = none
  stored : i.record.lifecycle = .normal ∨ i.record.lifecycle = .deleted →
    ∃ data, base data ∧ Tracks (l.worker key).incoming (l.before d key) (anchor d.type data)
      i.record.header.savingIndex

theorem Standing.carry (h : Standing d l key base i) (hcarries : Carries d l l' key)
    (hbase : ∀ data, base data → d.type.keyOf data = key) : Standing d l' key base i := by
  refine ⟨?_, h.placeless, fun hstored => ?_⟩
  · rw [hcarries.eventual]
    exact h.absent
  · obtain ⟨data, hdata, htracks⟩ := h.stored hstored
    exact ⟨data, hdata, hcarries.place _ _ (hbase data hdata) htracks⟩

/-- Edits do not go near what is pending. -/
theorem Standing.edit (h : Standing d l key base i)
    (hedit : i.record.header.EditsTo i'.record.header) : Standing d l key base i' := by
  rcases hedit.stage with ⟨hsame, -⟩ | ⟨hnew, hgone, -⟩ | ⟨hnormal, hdeleted⟩
  · have hlife : i'.record.lifecycle = i.record.lifecycle := hsame
    refine ⟨?_, ?_, ?_⟩
    · rw [hlife]
      exact h.absent
    · rw [hlife, hedit.index]
      exact h.placeless
    · rw [hlife, hedit.index]
      exact h.stored
  · have hlife : i'.record.lifecycle = .unavailable := hgone
    refine ⟨fun _ => h.absent (.inl hnew), ?_, ?_⟩
    · rw [hlife]
      exact fun hno => by cases hno
    · rw [hlife]
      rintro (hno | hno) <;> cases hno
  · have hlife : i'.record.lifecycle = .deleted := hdeleted
    refine ⟨?_, ?_, fun _ => ?_⟩
    · rw [hlife]
      rintro (hno | hno) <;> cases hno
    · rw [hlife]
      exact fun hno => by cases hno
    · rw [hedit.index]
      exact h.stored (.inl hnormal)

/-- A record that was read from storage has no place yet. -/
theorem standing_load (hbase : ∃ data, base data) (loaded : Json) (events : List Event) :
    Standing d l key base ⟨.load d.type loaded, events⟩ := by
  obtain ⟨data, hdata⟩ := hbase
  refine ⟨?_, (fun hno => by cases hno), fun _ => ⟨data, hdata, .none _ _ _⟩⟩
  rintro (hno | hno) <;> cases hno

/-- Nor has a new record, under a key without a row. -/
theorem standing_new (habsent : l.eventual d key = none) (data : Json) (tmp : Bool)
    (events : List Event) :
    Standing d l key base ⟨Scope.newRecord d.type data { tmp }, events⟩ := by
  refine ⟨fun _ => habsent, fun _ => rfl, ?_⟩
  rintro (hno | hno) <;> cases hno

/-- A commit goes behind all entries, or to the place of some data. -/
theorem Standing.place_cases (h : Standing d l key base i)
    (hpresent : i.record.lifecycle ≠ .unavailable)
    (hplace : place = none ∨ place = i.record.header.savingIndex) :
    place = none ∨ (i.record.lifecycle = .normal ∨ i.record.lifecycle = .deleted) ∧
      ∃ data, base data ∧
        Tracks (l.worker key).incoming (l.before d key) (anchor d.type data) place := by
  rcases hplace with hplace | rfl
  · exact .inl hplace
  · cases hl : i.record.lifecycle with
    | unavailable => exact absurd hl hpresent
    | new => exact .inl (h.placeless hl)
    | normal => exact .inr ⟨.inl rfl, h.stored (.inl hl)⟩
    | deleted => exact .inr ⟨.inr rfl, h.stored (.inr hl)⟩

/-- A commit continues the one of the data that its place leads to. -/
theorem Standing.continues (h : Standing d l key base i)
    (hbase : ∀ data, base data → d.type.Holds data ∧ d.type.keyOf data = key)
    (htype : c.type = d.type) (hkey : c.key = key)
    (hpending : c.pending = i.record.header.toPending)
    (hpresent : i.record.lifecycle ≠ .unavailable)
    (hmarks : i.record.lifecycle = .normal →
      ∀ data, base data → d.type.Marks c.pending.changes data c.data)
    (hplace : place = none ∨ place = i.record.header.savingIndex) :
    Continues (l.worker key).incoming (l.before d key) c place := by
  have hstage : c.pending.lifecycle = i.record.lifecycle := by rw [hpending]; rfl
  rcases h.place_cases hpresent hplace with hnone | ⟨hstored, data, hdata, htracks⟩
  · exact .inl hnone
  · obtain ⟨hholds, hdataKey⟩ := hbase data hdata
    refine .inr ⟨anchor d.type data, hholds, ⟨rfl, ?_, htype, hkey.trans hdataKey.symm, ?_⟩,
      htracks⟩
    · rw [hstage]
      exact hstored
    · intro hnormal
      exact hmarks (hstage ▸ hnormal) data hdata

/-- The place of a commit is tracked, whatever it changes. -/
theorem Standing.tracks (h : Standing d l key base i)
    (hbase : ∀ data, base data → d.type.keyOf data = key) (htype : c.type = d.type)
    (hkey : c.key = key) (hpresent : i.record.lifecycle ≠ .unavailable)
    (hplace : place = none ∨ place = i.record.header.savingIndex) :
    ∃ p : Snapshot, c.type = p.type ∧ c.key = p.key ∧
      Tracks (l.worker key).incoming (l.before d key) p place := by
  rcases h.place_cases hpresent hplace with rfl | ⟨-, data, hdata, htracks⟩
  · exact ⟨c, rfl, rfl, .none _ _ c⟩
  · exact ⟨anchor d.type data, htype, hkey.trans (hbase data hdata).symm, htracks⟩

/-! ## Commits -/

/-- The instance as a commit leaves it. -/
def committed (i : Instance) (place : Option Nat) (events : List Event) : Instance :=
  ⟨{ i.record with header :=
      i.record.header.beginCommit.finishCommit.setSavingIndex place }, events⟩

theorem lifecycle_committed (i : Instance) (place : Option Nat) (events : List Event) :
    (committed i place events).record.lifecycle =
      Header.committedLifecycle i.record.lifecycle := rfl

/-- The commit of an instance is put into the lane of its key, where it gets a place. -/
inductive Puts (l : Ledger σ) (i : Instance) (j : Nat) : Ledger σ → Prop where
  | put {n : Nat} {w w' : Worker} {place : Option Nat} (hw : l.workers[n]? = some w)
      (hn : l.laneOf i.record.key = n)
      (hplace : place = none ∨ place = i.record.header.savingIndex)
      (hput : w.put (.snapshot i.record.capture) place = .placed j w') :
      Puts l i j (l.setWorker n w' l.table)

section Puts

variable (h : Standing d l i.record.key base i)
  (hbase : ∀ data, base data → d.type.Holds data ∧ d.type.keyOf data = i.record.key)
  (htype : i.record.type = d.type) (hputs : Puts l i j l')

include h hbase htype hputs

/-- The row of the key sees a commit last, if changes are marked. -/
theorem Standing.eventual (hholds : d.type.Holds i.record.data)
    (hpresent : i.record.lifecycle ≠ .unavailable)
    (hmarked : i.record.lifecycle = .normal → ∀ data, base data → i.record.Marked data) :
    l'.eventual d i.record.key =
      (Commitment.snapshot i.record.capture).onRow (l.eventual d i.record.key) := by
  obtain ⟨hw, hn, hplace, hput⟩ := hputs
  have hsound : i.record.capture.Sound := by
    rw [← htype] at hholds
    exact hholds
  refine eventual_put (c := i.record.capture) hw hn hput hsound ?_
  have hcontinues := h.continues (c := i.record.capture) hbase htype rfl rfl hpresent
    (fun hnormal data hdata => htype ▸ (hmarked hnormal data hdata).marks) hplace
  rwa [worker_of_lane hw hn] at hcontinues

/-- After a commit the place of the instance leads to the entry of its data. -/
theorem Standing.commit (halive : i.record.lifecycle.isGone = false) (events : List Event)
    (hself : base' i.record.data) :
    Standing d l' i.record.key base' (committed i (some j) events) := by
  obtain ⟨hw, hn, hplace, hput⟩ := hputs
  have hlife : (committed i (some j) events).record.lifecycle = .normal := by
    rw [lifecycle_committed]
    rcases Lifecycle.isGone_eq_false_iff.mp halive with hl | hl
    · rw [hl]
      rfl
    · rw [hl]
      rfl
  have hpresent : i.record.lifecycle ≠ .unavailable := by
    intro hgone
    rw [hgone] at halive
    cases halive
  obtain ⟨q, hqtype, hqkey, hqtracks⟩ :=
    h.tracks (c := i.record.capture) (fun data hdata => (hbase data hdata).2) htype rfl hpresent
      hplace
  rw [worker_of_lane hw hn] at hqtracks
  have htracks := place_put (d := d) hw hn hput halive hqtype hqkey hqtracks
    fun hnew => h.absent (.inl hnew)
  refine ⟨?_, ?_, fun _ => ⟨i.record.data, hself, ?_⟩⟩
  · rw [hlife]
    rintro (hno | hno) <;> cases hno
  · rw [hlife]
    exact fun hno => by cases hno
  · refine htracks.congr htype.symm ?_ rfl
    rw [anchor, ← htype]
    rfl

end Puts

end Ledger

end WriteBehind
