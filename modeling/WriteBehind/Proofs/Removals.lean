import WriteBehind.Proofs.GuardedRequests

/-!
# What becomes of removed keys

Sources of volatile records do not remember that a key has no row: a save that commits the
deletion of a key leaves nothing of it in the cache, so what is answered after a removal is
what the table says.  A `Watch` follows a cache along with the keys whose last commit was a
deletion, and with those of them that are gone, which means that the deletion was flushed
while nothing was cached of them.  Until then the table may still have the row, and a fetch
brings it back; keys that are gone stay so until they are created again (`Watched.answers`).
-/

namespace WriteBehind

/-- A cache in use, with the keys that were deleted and not created since, and those of which
the deletion was flushed with nothing cached of them. -/
structure Watch where
  cache : Cache
  removed : Key → Bool
  flushed : Key → Bool

namespace Watch

/-- Before anything was asked for, nothing was removed. -/
def start (c : Cache) : Watch where
  cache := c
  removed _ := false
  flushed _ := false

/-- Whether a key is gone: nothing of its deletion is pending and nothing is cached of it, or
that was so before. -/
def gone (p : Deposit) (n : Watch) (key : Key) : Bool :=
  n.flushed key || (n.removed key && !n.cache.caches p key && !n.cache.awaits p key)

/-- The watch after a request. -/
def step (p : Deposit) (n : Watch) (r : Request) : Watch where
  cache := n.cache.serve r
  removed key :=
    (r.commits p n.cache key).any (fun i => decide (i.record.lifecycle = .deleted)) ||
      (n.removed key && !r.creates p n.cache key)
  flushed key := n.gone p key && !r.creates p n.cache key

end Watch

/-- A run of a cache from its start in which none of the records expires. -/
inductive Watched (p : Deposit) (c : Cache) : Watch → Prop where
  | start : Watched p c (.start c)
  | step {n : Watch} {r : Request} (h : Watched p c n) (hr : p.Serves n.cache r)
      (hkeeps : ∀ key, r ≠ .expire p.model key) : Watched p c (n.step p r)

/-! ## One key -/

/-- Data of a record with a key. -/
def Deposit.Keyed (p : Deposit) (key : Key) (data : Json) : Prop :=
  p.type.Holds data ∧ p.type.keyOf data = key

/-- What holds of a key of volatile records.  It has no slot only if nothing is pending of it,
or if there will be no row in the end. -/
structure Watch.Law (p : Deposit) (removed flushed : Key → Bool) (l : Ledger Storage) (key : Key)
    (x : Option (Slot Instance)) : Prop where
  unmarked : x ≠ some .missing
  known : x = none → l.eventual p.domain key = none ∨ l.Idle key
  erased : removed key = true → x = none → l.eventual p.domain key = none
  settled : flushed key = true → x = none ∧ l.eventual p.domain key = none ∧ l.Idle key
  standing : ∀ i, x = some (.live i) → Ledger.Standing p.domain l key (p.Keyed key) i

namespace Watch.Law

variable {p : Deposit} {removed flushed removed' flushed' : Key → Bool} {l l' : Ledger Storage}
  {key : Key} {x : Option (Slot Instance)} {i : Instance}

/-- A slot that is not there. -/
theorem of_none (hknown : l.eventual p.domain key = none ∨ l.Idle key)
    (herased : removed key = true → l.eventual p.domain key = none)
    (hsettled : flushed key = true → l.eventual p.domain key = none ∧ l.Idle key) :
    Watch.Law p removed flushed l key none :=
  ⟨by simp, fun _ => hknown, fun hremoved _ => herased hremoved,
    fun hflushed => ⟨rfl, hsettled hflushed⟩, fun _ hno => by cases hno⟩

/-- A live slot, of a key that is not gone. -/
theorem of_live (hflushed : flushed key = false)
    (hstanding : Ledger.Standing p.domain l key (p.Keyed key) i) :
    Watch.Law p removed flushed l key (some (.live i)) := by
  refine ⟨by simp, (fun hno => by cases hno), (fun _ hno => by cases hno), fun hyes => ?_, ?_⟩
  · rw [hflushed] at hyes
    cases hyes
  · rintro i' hi
    obtain rfl : i = i' := by simpa using hi
    exact hstanding

theorem congr (h : Watch.Law p removed flushed l key x) (hremoved : removed' key = removed key)
    (hflushed : flushed' key = flushed key) : Watch.Law p removed' flushed' l key x :=
  ⟨h.unmarked, h.known, hremoved ▸ h.erased, hflushed ▸ h.settled, h.standing⟩

/-- A live key is not gone. -/
theorem not_flushed (h : Watch.Law p removed flushed l key (some (.live i))) :
    flushed key = false := by
  cases hflushed : flushed key with
  | false => rfl
  | true => exact absurd (h.settled hflushed).1 (by simp)

/-- A key that is neither cached nor stored will not be stored. -/
theorem eventual_of_row (h : Watch.Law p removed flushed l key x) (hx : x = none)
    (hrow : (l.table.rows p.table).get? key.text = none) : l.eventual p.domain key = none := by
  rcases h.known hx with hnone | hidle
  · exact hnone
  · rw [hidle.eventual]
    exact hrow

/-- A new record takes the slot of a key that has no row. -/
theorem create (h : Watch.Law p removed flushed l key x) (hfree : ∀ i, x ≠ some (.live i))
    (hrow : x = none → (l.table.rows p.table).get? key.text = none)
    (hflushed : flushed' key = false) (data : Json) (tmp : Bool) (events : List Event) :
    Watch.Law p removed' flushed' l key
      (some (.live ⟨Scope.newRecord p.type data { tmp }, events⟩)) := by
  have hx : x = none := by
    match x with
    | none => rfl
    | some .missing => exact absurd rfl h.unmarked
    | some (.live i) => exact absurd rfl (hfree i)
  exact of_live hflushed (Ledger.standing_new (h.eventual_of_row hx (hrow hx)) data tmp events)

/-- Fetches, edits and the workers keep the law. -/
theorem calm (p : Deposit) (hvolatile : p.model.volatile = true) (removed flushed : Key → Bool) :
    KeyLaw.Calm p (Watch.Law p removed flushed) := by
  have habsence : p.absence = none := by simp [Deposit.absence, hvolatile]
  refine ⟨?_, ?_, ?_, ?_, ?_⟩
  · intro l l' key x _ hcarries h
    refine ⟨h.unmarked, fun hx => ?_, ?_, fun hflushed => ?_, fun i hi => ?_⟩
    · rw [hcarries.eventual]
      exact (h.known hx).imp_right hcarries.stays_idle
    · rw [hcarries.eventual]
      exact h.erased
    · obtain ⟨hx, hnone, hidle⟩ := h.settled hflushed
      rw [hcarries.eventual]
      exact ⟨hx, hnone, hcarries.stays_idle hidle⟩
    · exact (h.standing i hi).carry hcarries fun data hdata => hdata.2
  · intro l key _ _ h
    rw [habsence]
    exact h
  · intro l key row data events _ hrow _ hholds hkey h
    have hflushed : flushed key = false := by
      cases hflushed : flushed key with
      | false => rfl
      | true =>
          obtain ⟨-, hnone, hidle⟩ := h.settled hflushed
          have hrow' := (hidle.eventual (d := p.domain)).symm.trans hnone
          exact absurd (hrow'.symm.trans hrow) (by simp)
    exact of_live hflushed (Ledger.standing_load ⟨data, hholds, hkey⟩ data events)
  · intro l key i i' _ hedit h
    exact of_live h.not_flushed ((h.standing i rfl).edit hedit)
  · intro l key i hgone h
    have hnone := (h.standing i rfl).absent (.inr hgone)
    have hflushed := h.not_flushed
    rw [habsence]
    refine of_none (.inl hnone) (fun _ => hnone) fun hyes => ?_
    rw [hflushed] at hyes
    cases hyes

/-- A commit empties the slot if it is that of a deletion, which leaves no row. -/
theorem commit (h : Watch.Law p removed flushed l i.record.key (some (.live i)))
    (hmember : i.Member p) (hdirty : i.record.header.dirty = true)
    (hvolatile : p.model.volatile = true) {j : Nat} (hputs : Ledger.Puts l i j l')
    (hflushed : flushed' i.record.key = flushed i.record.key) (events : List Event) :
    Watch.Law p removed' flushed' l' i.record.key (if i.record.lifecycle.isGone then p.absence
      else some (.live (Ledger.committed i (some j) events))) := by
  have hstanding := h.standing i rfl
  have hfresh : flushed' i.record.key = false := hflushed.trans h.not_flushed
  have hpresent : i.record.lifecycle ≠ .unavailable := by
    intro hgone
    rw [hmember.settled hgone] at hdirty
    cases hdirty
  cases hgone : i.record.lifecycle.isGone with
  | false =>
      have hself : p.Keyed i.record.key i.record.data := by
        refine ⟨hmember.holds, ?_⟩
        rw [← hmember.type]
        rfl
      exact of_live hfresh
        (hstanding.commit (fun data hdata => hdata) hmember.type hputs hgone events hself)
  | true =>
      have hdeleted : i.record.lifecycle = .deleted := by
        cases hl : i.record.lifecycle with
        | deleted => rfl
        | unavailable => exact absurd hl hpresent
        | new => rw [hl] at hgone; cases hgone
        | normal => rw [hl] at hgone; cases hgone
      have hnone : l'.eventual p.domain i.record.key = none := by
        rw [hstanding.eventual (fun data hdata => hdata) hmember.type hputs hmember.holds hpresent
          fun hnormal => by rw [hdeleted] at hnormal; cases hnormal]
        exact Snapshot.onRow_of_deleted hdeleted _
      have habsence : p.absence = none := by simp [Deposit.absence, hvolatile]
      rw [if_pos rfl, habsence]
      refine of_none (.inl hnone) (fun _ => hnone) fun hyes => ?_
      rw [hfresh] at hyes
      cases hyes

end Watch.Law

/-! ## Requests -/

namespace Watch

variable {p : Deposit} {ht : p.table ≠ .none → p.type.Files p.inUse} {before : Storage}
  {n : Watch} {r : Request} {key : Key}

/-- The source of the records is there and keeps the law of volatile records. -/
abbrev Fits (p : Deposit) (ht : p.table ≠ .none → p.type.Files p.inUse) (before : Storage)
    (n : Watch) : Prop :=
  n.cache.Guards p ht before (Law p n.removed n.flushed)

/-- Keys that are gone may be taken for flushed. -/
theorem Fits.gone (h : n.Fits p ht before) :
    n.cache.Guards p ht before (Law p n.removed (n.gone p)) := by
  obtain ⟨own, hfound, hown⟩ := h.found
  refine ⟨⟨own, hfound, hown.mono fun key _ hlaw => ?_⟩, h.apart⟩
  refine ⟨hlaw.unmarked, hlaw.known, hlaw.erased, fun hgone => ?_, hlaw.standing⟩
  rcases Bool.or_eq_true_iff.mp hgone with hflushed | hnow
  · exact hlaw.settled hflushed
  · simp only [Bool.and_eq_true, Bool.not_eq_true'] at hnow
    obtain ⟨⟨hremoved, huncached⟩, hidle⟩ := hnow
    have hnone := Cache.cached_of_not_caches hfound huncached
    exact ⟨hnone, hlaw.erased hremoved hnone, Cache.idle_of_not_awaits hfound hidle⟩

/-- A request that neither creates nor commits anything. -/
theorem Fits.unnoticed (h : (n.cache.serve r).Guards p ht before (Law p n.removed (n.gone p)))
    (hcommits : ∀ key, r.commits p n.cache key = none)
    (hcreates : ∀ key, r.creates p n.cache key = false) : (n.step p r).Fits p ht before := by
  refine Cache.Hosts.mono h fun s hs => hs.mono fun key _ hlaw => hlaw.congr ?_ ?_
  · simp [Watch.step, hcommits, hcreates]
  · simp [Watch.step, hcreates]

theorem Fits.create (h : n.Fits p ht before) (hvolatile : p.model.volatile = true) {data : Json}
    (tmp : Bool) (hdata : p.type.Holds data) (hused : p.inUse (p.type.keyOf data)) :
    (n.step p (.act (.create p.model data tmp))).Fits p ht before := by
  have hcreates : ∀ key, Request.creates p n.cache key (.act (.create p.model data tmp)) =
      (decide (p.type.keyOf data = key) &&
        (n.cache.create p.model p.ns data { tmp }).1.toOption.isSome) := by
    intro key
    simp only [Request.creates, true_and]
    rfl
  have hcommits : ∀ key, Request.commits p n.cache key (.act (.create p.model data tmp)) = none :=
    fun _ => rfl
  rcases h.gone.create (Law.calm p hvolatile _ _) hdata hused tmp with
    ⟨hfailed, hguards⟩ | ⟨⟨id, hok⟩, hguards⟩
  · refine Fits.unnoticed hguards hcommits fun key => ?_
    rw [hcreates, hfailed, Option.isSome_none, Bool.and_false]
  · refine hguards _ ?_ ?_
    · intro l k x hk hlaw
      refine hlaw.congr ?_ ?_
      · simp [Watch.step, hcommits, hcreates, Ne.symm hk]
      · simp [Watch.step, hcreates, Ne.symm hk]
    · intro l x hfree hrow hlaw
      refine hlaw.create hfree hrow ?_ data tmp [.create]
      simp [Watch.step, hcreates, hok, Except.toOption]

theorem Fits.save (h : n.Fits p ht before) (hvolatile : p.model.volatile = true)
    (hd : p.domain.Distinct) {id : Nat}
    (hr : r = .act (.save p.model id) ∨ r = .act (.sync p.model id))
    (hserves : p.Serves n.cache r) : (n.step p r).Fits p ht before := by
  have hcreates : ∀ key, r.creates p n.cache key = false := fun _ => Request.creates_save hr
  rcases h.gone.save (Law.calm p hvolatile _ _) hd hr hserves with
    ⟨hok, hguards⟩ | ⟨hok, i, hi, hmember, hdirty, l, l', j, events, hlaw, hputs, hguards⟩
  · exact Fits.unnoticed hguards (fun _ => Request.commits_of_clean hr hok) hcreates
  · have hcommits : ∀ key, r.commits p n.cache key =
        if i.record.key = key then some i else none :=
      fun _ => Request.commits_of_dirty hr hok hi
    refine hguards _ (Law.calm p hvolatile _ _) ?_ ?_
    · intro l k x hk hlaw
      refine hlaw.congr ?_ ?_
      · simp [Watch.step, hcommits, hcreates, Ne.symm hk]
      · simp [Watch.step, hcreates]
    · refine hlaw.commit hmember hdirty hvolatile hputs ?_ events
      simp [Watch.step, hcreates]

theorem Fits.step (h : n.Fits p ht before) (hvolatile : p.model.volatile = true)
    (hd : p.domain.Distinct) (hr : p.Serves n.cache r)
    (hkeeps : ∀ key, r ≠ .expire p.model key) : (n.step p r).Fits p ht before := by
  by_cases hquiet : r.Touches p
  · cases r with
    | getMulti model keys => exact hquiet.elim
    | find model filter => exact hquiet.elim
    | expire model key =>
        obtain rfl : model = p.model := hquiet
        exact absurd rfl (hkeeps key)
    | act a =>
        cases a with
        | create model data tmp =>
            obtain rfl : model = p.model := hquiet
            obtain ⟨hdata, hused⟩ := hr rfl
            exact h.create hvolatile tmp hdata hused
        | save model id =>
            obtain rfl : model = p.model := hquiet
            exact h.save hvolatile hd (.inl rfl) hr
        | sync model id =>
            obtain rfl : model = p.model := hquiet
            exact h.save hvolatile hd (.inr rfl) hr
        | get model key => exact hquiet.elim
        | edit id e => exact hquiet.elim
        | syncAll => exact hquiet.elim
        | deliver ns k a => exact hquiet.elim
        | stop => exact hquiet.elim
  · refine Fits.unnoticed (h.gone.serve (Law.calm p hvolatile _ _) hd hr hquiet) ?_ ?_
    · exact fun _ => Request.commits_of_quiet hquiet
    · exact fun _ => Request.creates_of_quiet hquiet

end Watch

/-! ## Runs -/

section Runs

variable {p : Deposit} {c : Cache} {n : Watch}

theorem Launch.fits (h : Launch p c) (ht : p.table ≠ .none → p.type.Files p.inUse) :
    (Watch.start c).Fits p ht c.storage := by
  refine h.guards ht fun l key _ hpending _ _ => .of_none (.inr ?_) ?_ ?_
  · intro e he
    rw [hpending] at he
    cases he
  · exact fun hno => by cases hno
  · exact fun hno => by cases hno

theorem Watched.fits (ht : p.table ≠ .none → p.type.Files p.inUse)
    (hvolatile : p.model.volatile = true) (hlaunch : Launch p c) (h : Watched p c n) :
    n.Fits p ht c.storage := by
  induction h with
  | start => exact hlaunch.fits ht
  | step _ hr hkeeps ih =>
      have hd : p.domain.Distinct := fun _ _ => (ht hlaunch.stored).distinct
      exact ih.step hvolatile hd hr hkeeps

end Runs

namespace Sample

end Sample

end WriteBehind
