import WriteBehind.Proofs.Standing

/-!
# Commits on the ledger of a source

A commit of the live instance of a key is put into the lane of the key, and the
instance notes its place.  The rows of other keys do not see it.  In the end its own row
will be the stored row of the committed data, or there will be none if the record was
deleted.
-/

namespace WriteBehind

variable {σ : Type}

namespace Ledger

variable {d : Domain σ} {l : Ledger σ} {kept kept' : Nat → Json} {key : Key} {id : Nat}
  {i : Instance} {n j : Nat} {w w' : Worker} {c : Snapshot} {place : Option Nat}

/-! ## Commits of the live instance -/

theorem Alive.standing (h : l.Alive d kept key id i) : Standing d l key (· = kept id) i := by
  refine ⟨?_, fun hnew => (h.new hnew).2, fun hstored => ⟨_, rfl, (h.stored hstored).place⟩⟩
  rintro (hnew | hgone)
  · exact (h.new hnew).1
  · exact h.gone hgone

/-- The commit of a live instance continues the one before. -/
theorem Alive.continues (h : l.Alive d kept key id i) (hfits : i.Fits d.inUse (kept id))
    (hw : l.workers[n]? = some w) (hn : l.laneOf key = n) (htype : c.type = i.record.type)
    (hkey : c.key = key) (hpending : c.pending = i.record.header.toPending)
    (hdata : c.data = i.record.data) (hpresent : i.record.lifecycle ≠ .unavailable)
    (hmarked : i.record.lifecycle = .normal → i.record.Marked (kept id))
    (hplace : place = none ∨ place = i.record.header.savingIndex) :
    Continues w.incoming (l.before d key) c place := by
  have htype' : i.record.type = d.type := h.owns.2.1
  rw [← worker_of_lane hw hn]
  refine h.standing.continues ?_ (htype.trans htype') hkey hpending hpresent ?_ hplace
  · rintro data rfl
    rw [← htype', hfits.kept_key]
    exact ⟨hfits.kept_holds, h.owns.2.2⟩
  · rintro hnormal data rfl
    rw [hpending, hdata, ← htype']
    exact (hmarked hnormal).marks

/-- The row after a commit: that of the committed data, or none after a removal. -/
theorem Alive.onRow (h : l.Alive d kept key id i) (hd : d.type.Stores d.inUse)
    (hfits : i.Fits d.inUse (kept id)) (htype : c.type = i.record.type)
    (hpending : c.pending = i.record.header.toPending) (hdata : c.data = i.record.data)
    (hpresent : i.record.lifecycle ≠ .unavailable)
    (hmarked : i.record.lifecycle = .normal → i.record.Marked (kept id)) :
    (i.record.lifecycle = .deleted ∧
        (Commitment.snapshot c).onRow (l.eventual d key) = none) ∨
      i.record.lifecycle ≠ .deleted ∧ ∃ row, d.type.storedRow i.record.data = .ok row ∧
        (Commitment.snapshot c).onRow (l.eventual d key) = some row := by
  have htype' : i.record.type = d.type := h.owns.2.1
  have hctype : c.type = d.type := htype.trans htype'
  have hstage : c.pending.lifecycle = i.record.lifecycle := by rw [hpending]; rfl
  have hsound : c.Sound := by
    rw [Snapshot.Sound, htype, hdata]
    exact hfits.holds
  rw [← hctype, ← hstage, ← hdata]
  refine Snapshot.onRow_stored (hctype ▸ hd) hsound (hstage ▸ hpresent) fun hnormal => ?_
  have hl : i.record.lifecycle = .normal := hstage.symm.trans hnormal
  obtain ⟨old, heventual, hold⟩ := (h.stored (.inl hl)).row
  refine ⟨kept id, old, ?_, ?_, heventual, ?_⟩
  · rw [htype]
    exact hfits.kept_holds
  · rw [hctype]
    exact hold
  · rw [htype, hpending, hdata]
    exact (hmarked hl).marks

/-- The ledger with an instance that has committed.  One that is gone by that is
forgotten. -/
def settleInstance (l : Ledger σ) (key : Key) (id : Nat) (i : Instance) : Ledger σ :=
  { l with
    instances := l.instances.set id i
    repo := if i.record.lifecycle = .unavailable then (l.repo.setOnDelete key id).2 else l.repo }

/-- After the commit of a removal nothing is left of the key. -/
theorem Alive.commit_deleted (h : l.Alive d kept key id i) (hkeeps : l.repo.volatile = false)
    (hget : l.repo.get key = some (.live id)) (hdeleted : i.record.lifecycle = .deleted)
    {events : List Event}
    (heventual : (l.setWorker n w' l.table).eventual d key = none) :
    ((l.setWorker n w' l.table).settleInstance key id (committed i (some j) events)).KeyKept d
      kept' key := by
  have hgone : (committed i (some j) events).record.lifecycle = .unavailable := by
    rw [lifecycle_committed, hdeleted]
    rfl
  refine .of_missing ?_ ⟨heventual, ?_⟩
  · dsimp only [settleInstance, setWorker]
    rw [if_pos hgone, (Repo.get_setOnDelete hkeeps key id key).2, if_pos ⟨hget, rfl⟩]
  · intro id' x hx
    by_cases hid : id' = id
    · subst hid
      have howns : ((l.setWorker n w' l.table).settleInstance key id'
          (committed i (some j) events)).Owns d key id' (committed i (some j) events) :=
        owns_set_self rfl h.owns h.owns.2.1 h.owns.2.2
      exact (Owns.unique hx howns) ▸ hgone
    · exact (h.others id' x (owns_of_set rfl hx hid) hid).2

/-- After any other commit the row is that of the committed data. -/
theorem Alive.commit_stored (h : l.Alive d kept key id i)
    (hget : l.repo.get key = some (.live id))
    (hnormal : Header.committedLifecycle i.record.lifecycle = .normal) {events : List Event}
    {row : Document} (heventual : (l.setWorker n w' l.table).eventual d key = some row)
    (hstored : d.type.storedRow i.record.data = .ok row)
    (hplace : Tracks ((l.setWorker n w' l.table).worker key).incoming
      ((l.setWorker n w' l.table).before d key) (anchor d.type i.record.data) (some j))
    (hself : kept' id = i.record.data) :
    ((l.setWorker n w' l.table).settleInstance key id (committed i (some j) events)).KeyKept d
      kept' key := by
  have hnormal' : (committed i (some j) events).record.lifecycle = .normal := hnormal
  refine .of_live ⟨owns_set_self rfl h.owns h.owns.2.1 h.owns.2.2, ?_, ?_, ?_, ?_⟩ ?_
  · intro id' x hx hid
    exact h.others id' x (owns_of_set rfl hx hid) hid
  · intro hnew
    rw [hnormal'] at hnew
    cases hnew
  · intro hgone
    rw [hnormal'] at hgone
    cases hgone
  · intro _
    rw [hself]
    exact ⟨⟨row, heventual, hstored⟩, hplace⟩
  · dsimp only [settleInstance, setWorker]
    rw [if_neg (by rw [hnormal']; decide)]
    exact hget

/-- The live instance of a key commits. -/
theorem Kept.commit (h : l.Kept d kept) (hd : d.type.Stores d.inUse) (hi : l.Owns d key id i)
    (hdirty : i.record.header.dirty = true)
    (hmarked : i.record.lifecycle = .normal → i.record.Marked (kept id))
    (htype : c.type = i.record.type) (hkey : c.key = key)
    (hpending : c.pending = i.record.header.toPending) (hdata : c.data = i.record.data)
    (hw : l.workers[n]? = some w) (hn : l.laneOf key = n)
    (hplace : place = none ∨ place = i.record.header.savingIndex)
    (hput : w.put (.snapshot c) place = .placed j w') (events : List Event)
    (hkept : ∀ id', id' ≠ id → kept' id' = kept id') (hself : kept' id = i.record.data) :
    ((l.setWorker n w' l.table).settleInstance key id (committed i (some j) events)).Kept d
      kept' := by
  have hfits := h.instances id i hi.1 hi.2.1
  have hpresent : i.record.lifecycle ≠ .unavailable := by
    intro hgone
    rw [hfits.settled hgone] at hdirty
    cases hdirty
  have hused : d.inUse key := hi.2.2 ▸ hfits.used
  obtain ⟨hget, halive⟩ : l.repo.get key = some (.live id) ∧ l.Alive d kept key id i := by
    rcases h.live_or_gone hi with hlive | ⟨-, hgone⟩
    · exact hlive
    · exact absurd hgone hpresent
  have hsound : c.Sound := by
    rw [Snapshot.Sound, htype, hdata]
    exact hfits.holds
  subst hkey
  have hcontinues := halive.continues hfits hw hn htype rfl hpending hdata hpresent hmarked hplace
  have heventual := eventual_put hw hn hput hsound hcontinues
  have hslot := fun k => Repo.get_setOnDelete h.keeps c.key id k
  have hfits' : (committed i (some j) events).Fits d.inUse (kept' id) := by
    rw [hself]
    exact ⟨hfits.holds, hfits.holds, rfl, hfits.used, hfits.attached, hfits.known, fun _ => rfl⟩
  -- Only the committed key changes; commitments in its lane with other keys stay as they are.
  refine h.of_key (P := (· = c.key)) ?_ ?_ h.good ?_ (fits_set h rfl hfits' hkept) ?_ ?_
  · dsimp only [settleInstance]
    split
    · exact (hslot c.key).1
    · exact h.keeps
  · rw [settleInstance, setWorker, List.length_set]
    exact h.staffed
  · intro m v hv
    have hlane := (h.lanes n w hw).put hput hsound hused hn
    exact (lanes_setWorker h.manned hlane m v hv).of_eq rfl h.good
  · intro key' hused' hne
    refine ⟨sameSlot_set rfl ?_ hi.1 (fun heq => hne (heq.symm.trans hi.2.2))
      (fun heq => hne (heq.symm.trans hi.2.2)) hkept, ?_⟩
    · dsimp only [settleInstance, setWorker]
      split
      · rw [(hslot key').2, if_neg (fun hand => hne hand.2.symm)]
      · rfl
    · have hcarries := carries_put (fun _ _ => hd.distinct) hw hput hused hused' hne
      exact ⟨hcarries.eventual, hcarries.idle, hcarries.place⟩
  · rintro _ _ rfl
    rcases halive.onRow hd hfits htype hpending hdata hpresent hmarked with
      ⟨hdeleted, hnone⟩ | ⟨hstays, row, hstored, hsome⟩
    · exact halive.commit_deleted h.keeps hget hdeleted (heventual.trans hnone)
    · have hnormal : Header.committedLifecycle i.record.lifecycle = .normal ∧
          i.record.lifecycle.isGone = false := by
        cases hl : i.record.lifecycle with
        | unavailable => exact absurd hl hpresent
        | deleted => exact absurd hl hstays
        | new | normal => exact ⟨rfl, rfl⟩
      have hstage : c.pending.lifecycle = i.record.lifecycle := by
        rw [hpending]
        rfl
      obtain ⟨p, hptype, hpkey, hptracks⟩ := hcontinues.tracks
      have htracks := place_put (d := d) hw hn hput (hstage ▸ hnormal.2) hptype hpkey hptracks
        fun hnew => (halive.new (hstage.symm.trans hnew)).1
      have hanchor : (anchor d.type i.record.data).key = c.key := by
        rw [← hi.2.2, ← hi.2.1]
        rfl
      exact halive.commit_stored hget hnormal.1 (heventual.trans hsome) hstored
        (htracks.congr (htype.trans hi.2.1).symm hanchor hdata.symm) hself

end Ledger

end WriteBehind
