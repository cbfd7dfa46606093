import WriteBehind.Proofs.GuardedRequests

/-!
# Expiring and fetching again

An instance that expires leaves its key unknown, and the next fetch asks the table.  An
`Account` follows a cache along with what a fetch should find then: the data that were
committed last under each key, or those of the row from the start, and nothing after a
deletion.  The row of a key will be that of these data in the end (`Account.Faithful`), but as
long as something of the key is pending the table may have an older row, or none.  So a fetch
after an expiration gives what the row says at that moment, and this is what was committed
last if nothing is pending (`Accounted.expired`).  Otherwise a commit may be lost for the
users of the cache, even after its flush, since they are told from then on that there is no
row (`exists_forgotten_save`).
-/

namespace WriteBehind

/-- Whether an instance of a key expires while something of the key is pending. -/
def Request.lapses (p : Deposit) (c : Cache) (key : Key) : Request → Bool
  | .expire model key' => decide (model = p.model ∧ key' = key) && c.awaits p key
  | _ => false

/-- A cache in use, with the data that were committed last under each key, and the keys of
which an instance expired too early. -/
structure Account where
  cache : Cache
  last : Key → Option Json
  lapsed : Key → Bool

namespace Account

/-- Before anything was asked for, the data of a key are those of its row. -/
def start (p : Deposit) (c : Cache) : Account where
  cache := c
  last key := ((c.storage.rows p.table).get? key.text).bind fun row =>
    (p.type.read (.ofDocument row)).toOption
  lapsed _ := false

/-- The account after a request. -/
def step (p : Deposit) (n : Account) (r : Request) : Account where
  cache := n.cache.serve r
  last key :=
    match r.commits p n.cache key with
    | some i => if i.record.lifecycle.isGone then none else some i.record.data
    | none => n.last key
  lapsed key := n.lapsed key || r.lapses p n.cache key

end Account

/-- What may be asked for: a save of changes marks what differs from the data that were
committed last. -/
def Deposit.Accepts (p : Deposit) (n : Account) (r : Request) : Prop :=
  p.Serves n.cache r ∧ ∀ id, r = .act (.save p.model id) ∨ r = .act (.sync p.model id) →
    ∀ i data, n.cache.instances[id]? = some i → i.record.lifecycle = .normal →
      n.lapsed i.record.key = false → n.last i.record.key = some data → i.record.Marked data

/-- A run of a cache from its start. -/
inductive Accounted (p : Deposit) (c : Cache) : Account → Prop where
  | start : Accounted p c (.start p c)
  | step {n : Account} {r : Request} (h : Accounted p c n) (hr : p.Accepts n r) :
      Accounted p c (n.step p r)

/-! ## One key -/

section Ties

variable {p : Deposit} {l l' : Ledger Storage} {key : Key} {data : Option Json}

/-- The row of a key will be that of some data in the end, or there will be none. -/
def Deposit.Ties (p : Deposit) (l : Ledger Storage) (key : Key) : Option Json → Prop
  | none => l.eventual p.domain key = none
  | some data => p.type.Holds data ∧ p.type.keyOf data = key ∧
      ∃ row, l.eventual p.domain key = some row ∧ p.type.storedRow data = .ok row

theorem Deposit.Ties.of_eventual (h : p.Ties l key data)
    (hsame : l'.eventual p.domain key = l.eventual p.domain key) : p.Ties l' key data := by
  cases data with
  | none => exact hsame.trans h
  | some data =>
      obtain ⟨hholds, hkey, row, hrow, hstored⟩ := h
      exact ⟨hholds, hkey, row, hsame.trans hrow, hstored⟩

theorem Deposit.Ties.eq_none_iff (h : p.Ties l key data) :
    data = none ↔ l.eventual p.domain key = none := by
  cases data with
  | none => exact ⟨fun _ => h, fun _ => rfl⟩
  | some data =>
      obtain ⟨-, -, row, hrow, -⟩ := h
      rw [hrow]
      simp

end Ties

/-- What holds of a key under which certain data were committed last. -/
structure Account.Faithful (p : Deposit) (last : Option Json) (l : Ledger Storage) (key : Key)
    (x : Option (Slot Instance)) : Prop where
  tied : p.Ties l key last
  idle : x = none → l.Idle key
  absent : x = some .missing → last = none
  standing : ∀ i, x = some (.live i) → Ledger.Standing p.domain l key (last = some ·) i

namespace Account.Faithful

variable {p : Deposit} {last : Option Json} {l l' : Ledger Storage} {key : Key}
  {x : Option (Slot Instance)} {i i' : Instance}

theorem keyed (h : Faithful p last l key x) {data : Json} (hdata : last = some data) :
    p.type.Holds data ∧ p.type.keyOf data = key := by
  subst hdata
  exact ⟨h.tied.1, h.tied.2.1⟩

theorem of_none (htied : p.Ties l key last) (hidle : l.Idle key) :
    Faithful p last l key none :=
  ⟨htied, fun _ => hidle, (fun hno => by cases hno), fun _ hno => by cases hno⟩

theorem of_missing (hnone : l.eventual p.domain key = none) :
    Faithful p none l key (some .missing) :=
  ⟨hnone, (fun hno => by cases hno), fun _ => rfl, fun _ hno => by cases hno⟩

theorem of_live (htied : p.Ties l key last)
    (hstanding : Ledger.Standing p.domain l key (last = some ·) i) :
    Faithful p last l key (some (.live i)) := by
  refine ⟨htied, (fun hno => by cases hno), (fun hno => by cases hno), ?_⟩
  rintro i' hi
  obtain rfl : i = i' := by simpa using hi
  exact hstanding

/-- A key that will have no row was not committed, or removed. -/
theorem missing (h : Faithful p last l key x) (hnone : l.eventual p.domain key = none) :
    Faithful p last l key (some .missing) := by
  obtain rfl := h.tied.eq_none_iff.mpr hnone
  exact of_missing hnone

/-- What is cached of a key may be forgotten if nothing is pending of it. -/
theorem forget (h : Faithful p last l key x) (hidle : l.Idle key) : Faithful p last l key none :=
  of_none h.tied hidle

theorem carry (h : Faithful p last l key x) (hcarries : Ledger.Carries p.domain l l' key) :
    Faithful p last l' key x := by
  refine ⟨h.tied.of_eventual hcarries.eventual, fun hx => hcarries.stays_idle (h.idle hx),
    h.absent, fun i hi => ?_⟩
  exact (h.standing i hi).carry hcarries fun data hdata => (h.keyed hdata).2

/-- The data of the row are those that were committed last. -/
theorem load (h : Faithful p last l key none) {row : Document}
    (hrow : (l.table.rows p.table).get? key.text = some row) (loaded : Json)
    (events : List Event) : Faithful p last l key (some (.live ⟨.load p.type loaded, events⟩)) := by
  cases hlast : last with
  | none =>
      have hnone := h.tied.eq_none_iff.mp hlast
      rw [(h.idle rfl).eventual] at hnone
      exact absurd (hnone.symm.trans hrow) (by simp)
  | some data =>
      rw [hlast] at h
      exact of_live h.tied (Ledger.standing_load (by exact ⟨data, rfl⟩) loaded events)

theorem edit (h : Faithful p last l key (some (.live i)))
    (hedit : i.record.header.EditsTo i'.record.header) :
    Faithful p last l key (some (.live i')) :=
  of_live h.tied ((h.standing i rfl).edit hedit)

/-- A new record takes the slot of a key that has no row. -/
theorem create (h : Faithful p last l key x) (hfree : ∀ i, x ≠ some (.live i))
    (hrow : x = none → (l.table.rows p.table).get? key.text = none) (data : Json) (tmp : Bool)
    (events : List Event) :
    Faithful p last l key (some (.live ⟨Scope.newRecord p.type data { tmp }, events⟩)) := by
  have hnone : l.eventual p.domain key = none := by
    match x with
    | none => exact (h.idle rfl).eventual.trans (hrow rfl)
    | some .missing => exact h.tied.eq_none_iff.mp (h.absent rfl)
    | some (.live i) => exact absurd rfl (hfree i)
  exact of_live h.tied (Ledger.standing_new hnone data tmp events)

/-- A commit of marked changes makes its data the last ones, and the one of a deletion leaves
nothing. -/
theorem commit (h : Faithful p last l i.record.key (some (.live i)))
    (hp : p.type.Stores p.inUse) (hkeeps : p.model.volatile = false) (hmember : i.Member p)
    (hdirty : i.record.header.dirty = true)
    (hmarked : i.record.lifecycle = .normal → ∀ data, last = some data → i.record.Marked data)
    {j : Nat} (hputs : Ledger.Puts l i j l') (events : List Event) :
    Faithful p (if i.record.lifecycle.isGone then none else some i.record.data) l' i.record.key
      (if i.record.lifecycle.isGone then p.absence
        else some (.live (Ledger.committed i (some j) events))) := by
  have hstanding := h.standing i rfl
  have hkeyed := fun data (hdata : last = some data) => h.keyed hdata
  have htype : i.record.capture.type = p.type := hmember.type
  have hpresent : i.record.lifecycle ≠ .unavailable := by
    intro hgone
    rw [hmember.settled hgone] at hdirty
    cases hdirty
  have hsound : i.record.capture.Sound := by
    rw [Snapshot.Sound, htype]
    exact hmember.holds
  have heventual : l'.eventual p.domain i.record.key =
      (Commitment.snapshot i.record.capture).onRow (l.eventual p.domain i.record.key) :=
    hstanding.eventual hkeyed hmember.type hputs hmember.holds hpresent hmarked
  have hbase : i.record.capture.pending.lifecycle = .normal → ∃ data row,
      i.record.capture.type.Holds data ∧ i.record.capture.type.storedRow data = .ok row ∧
        l.eventual p.domain i.record.key = some row ∧
          i.record.capture.type.Marks i.record.capture.pending.changes data i.record.data := by
    intro hnormal
    obtain ⟨data, hdata, -⟩ := hstanding.stored (.inl hnormal)
    subst hdata
    obtain ⟨hholds, -, row, hrow, hstored⟩ := h.tied
    rw [htype]
    exact ⟨data, row, hholds, hstored, hrow, htype ▸ (hmarked hnormal data rfl).marks⟩
  have hrow := Snapshot.onRow_stored (htype ▸ hp) hsound hpresent hbase
  rw [← heventual] at hrow
  have hstage : i.record.capture.pending.lifecycle = i.record.lifecycle := rfl
  rw [hstage] at hrow
  rcases hrow with ⟨hdeleted, hnone⟩ | ⟨hnot, stored, hstored, hsome⟩
  · have habsence : p.absence = some .missing := by simp [Deposit.absence, hkeeps]
    have hgone : i.record.lifecycle.isGone = true := by
      rw [hdeleted]
      rfl
    rw [hgone, if_pos rfl, if_pos rfl, habsence]
    exact of_missing hnone
  · have halive : i.record.lifecycle.isGone = false := by
      cases hl : i.record.lifecycle with
      | new => rfl
      | normal => rfl
      | deleted => exact absurd hl hnot
      | unavailable => exact absurd hl hpresent
    rw [halive, if_neg Bool.false_ne_true, if_neg Bool.false_ne_true]
    refine of_live ⟨hmember.holds, ?_, stored, hsome, ?_⟩ ?_
    · rw [← hmember.type]
      rfl
    · rw [← htype]
      exact hstored
    · exact hstanding.commit hkeyed hmember.type hputs halive events rfl

end Account.Faithful

/-! ## Requests -/

namespace Account

variable {p : Deposit} {ht : p.table ≠ .none → p.type.Files p.inUse} {before : Storage}
  {n : Account} {r : Request} {key : Key}

/-- A key is faithful unless an instance of it expired too early. -/
def Law (p : Deposit) (last : Key → Option Json) (lapsed : Key → Bool) : KeyLaw :=
  fun l key x => lapsed key = false → Faithful p (last key) l key x

theorem calm_law (hkeeps : p.model.volatile = false) (last : Key → Option Json)
    (lapsed : Key → Bool) : KeyLaw.Calm p (Law p last lapsed) := by
  have habsence : p.absence = some .missing := by simp [Deposit.absence, hkeeps]
  refine ⟨?_, ?_, ?_, ?_, ?_⟩
  · exact fun _ hcarries h hlapsed => (h hlapsed).carry hcarries
  · intro l key _ hrow h hlapsed
    rw [habsence]
    exact (h hlapsed).missing (((h hlapsed).idle rfl).eventual.trans hrow)
  · exact fun events _ hrow _ _ _ h hlapsed => (h hlapsed).load hrow _ events
  · exact fun _ hedit h hlapsed => (h hlapsed).edit hedit
  · intro l key i hgone h hlapsed
    rw [habsence]
    exact (h hlapsed).missing (((h hlapsed).standing i rfl).absent (.inr hgone))

/-- The source of the records is there, and its keys are faithful. -/
abbrev Fits (p : Deposit) (ht : p.table ≠ .none → p.type.Files p.inUse) (before : Storage)
    (n : Account) : Prop :=
  n.cache.Guards p ht before (Law p n.last n.lapsed)

/-- A request that commits nothing and lets nothing expire. -/
theorem Fits.unnoticed (h : (n.cache.serve r).Guards p ht before (Law p n.last n.lapsed))
    (hcommits : ∀ key, r.commits p n.cache key = none)
    (hlapses : ∀ key, r.lapses p n.cache key = false) : (n.step p r).Fits p ht before := by
  refine Cache.Hosts.mono h fun s hs => hs.mono fun key _ hlaw hlapsed => ?_
  have hlast : (n.step p r).last key = n.last key := by simp [Account.step, hcommits]
  rw [hlast]
  refine hlaw ?_
  simpa [Account.step, hlapses] using hlapsed

theorem Fits.create (h : n.Fits p ht before) (hkeeps : p.model.volatile = false) {data : Json}
    (tmp : Bool) (hdata : p.type.Holds data) (hused : p.inUse (p.type.keyOf data)) :
    (n.step p (.act (.create p.model data tmp))).Fits p ht before := by
  refine Fits.unnoticed ?_ (fun _ => rfl) fun _ => rfl
  rcases Cache.Guards.create h (calm_law hkeeps _ _) hdata hused tmp with ⟨-, hguards⟩ | ⟨-, hguards⟩
  · exact hguards
  · refine hguards _ (fun _ _ _ _ hlaw => hlaw) fun l x hfree hrow hlaw hlapsed => ?_
    exact (hlaw hlapsed).create hfree hrow data tmp [.create]

theorem Fits.save (h : n.Fits p ht before) (hp : p.type.Stores p.inUse)
    (hkeeps : p.model.volatile = false) {id : Nat}
    (hr : r = .act (.save p.model id) ∨ r = .act (.sync p.model id)) (haccepts : p.Accepts n r) :
    (n.step p r).Fits p ht before := by
  have hd : p.domain.Distinct := fun _ _ => hp.distinct
  have hlapses : ∀ key, r.lapses p n.cache key = false := by
    rcases hr with rfl | rfl
    · exact fun _ => rfl
    · exact fun _ => rfl
  rcases Cache.Guards.save h (calm_law hkeeps _ _) hd hr haccepts.1 with
    ⟨hok, hguards⟩ | ⟨hok, i, hi, hmember, hdirty, l, l', j, events, hlaw, hputs, hguards⟩
  · exact Fits.unnoticed hguards (fun _ => Request.commits_of_clean hr hok) hlapses
  · have hcommits : ∀ key, r.commits p n.cache key =
        if i.record.key = key then some i else none :=
      fun _ => Request.commits_of_dirty hr hok hi
    refine hguards _ (calm_law hkeeps _ _) ?_ ?_
    · intro l k x hk hlaw hlapsed
      have hlast : (n.step p r).last k = n.last k := by simp [Account.step, hcommits, Ne.symm hk]
      rw [hlast]
      refine hlaw ?_
      simpa [Account.step, hlapses] using hlapsed
    · intro hlapsed
      replace hlapsed : n.lapsed i.record.key = false := by
        simpa [Account.step, hlapses] using hlapsed
      have hlast : (n.step p r).last i.record.key =
          if i.record.lifecycle.isGone then none else some i.record.data := by
        simp [Account.step, hcommits]
      rw [hlast]
      refine (hlaw hlapsed).commit hp hkeeps hmember hdirty ?_ hputs events
      exact fun hnormal data hdata => haccepts.2 id hr i data hi hnormal hlapsed hdata

/-- What expires may be forgotten, or it expires too early. -/
theorem Fits.expire (h : n.Fits p ht before) (hkeeps : p.model.volatile = false)
    (hused : p.inUse key) : (n.step p (.expire p.model key)).Fits p ht before := by
  have hweaker : n.cache.Guards p ht before (Law p n.last (n.step p (.expire p.model key)).lapsed) :=
    Cache.Hosts.mono h fun s hs => hs.mono fun k _ hlaw hlapsed =>
      hlaw (Bool.or_eq_false_iff.mp hlapsed).1
  refine Cache.Guards.expire hweaker (calm_law hkeeps _ _) hused fun own hfound hlaw hlapsed => ?_
  have hidle : n.cache.awaits p key = false := by
    simpa [Request.lapses] using (Bool.or_eq_false_iff.mp hlapsed).2
  exact (hlaw hlapsed).forget (Cache.idle_of_not_awaits hfound hidle)

theorem Fits.step (h : n.Fits p ht before) (hp : p.type.Stores p.inUse)
    (hkeeps : p.model.volatile = false) (hr : p.Accepts n r) : (n.step p r).Fits p ht before := by
  by_cases hquiet : r.Touches p
  · cases r with
    | getMulti model keys => exact hquiet.elim
    | find model filter => exact hquiet.elim
    | expire model key =>
        obtain rfl : model = p.model := hquiet
        exact h.expire hkeeps (hr.1.1 rfl)
    | act a =>
        cases a with
        | create model data tmp =>
            obtain rfl : model = p.model := hquiet
            obtain ⟨hdata, hused⟩ := hr.1 rfl
            exact h.create hkeeps tmp hdata hused
        | save model id =>
            obtain rfl : model = p.model := hquiet
            exact h.save hp hkeeps (.inl rfl) hr
        | sync model id =>
            obtain rfl : model = p.model := hquiet
            exact h.save hp hkeeps (.inr rfl) hr
        | get model key => exact hquiet.elim
        | edit id e => exact hquiet.elim
        | syncAll => exact hquiet.elim
        | deliver ns k a => exact hquiet.elim
        | stop => exact hquiet.elim
  · have hlapses : ∀ key, r.lapses p n.cache key = false := by
      intro key
      cases r with
      | expire model key' =>
          have hmodel : model ≠ p.model := hquiet
          simp [Request.lapses, hmodel]
      | _ => rfl
    refine Fits.unnoticed ?_ (fun _ => Request.commits_of_quiet hquiet) hlapses
    exact Cache.Guards.serve h (calm_law hkeeps _ _) (fun _ _ => hp.distinct) hr.1 hquiet

end Account

/-! ## Runs -/

/-- What a row tells: that there are no data, or data that agree on all that is persisted. -/
def Deposit.Tells (p : Deposit) (s : Storage) (key : Key) : Option Json → Prop
  | none => (s.rows p.table).get? key.text = none
  | some data => ∃ row found, (s.rows p.table).get? key.text = some row ∧
      p.type.read (.ofDocument row) = .ok found ∧
        ∀ name, p.type.persists name = true → found.field? name = data.field? name

/-- A fetch gives nothing if there are no data, and else an instance that agrees with them on
all that is persisted. -/
def Deposit.Recalls (p : Deposit) (answer : Except Failure (Option Nat) × Cache) :
    Option Json → Prop
  | none => answer.1 = .ok none
  | some data => ∃ id i, answer.1 = .ok (some id) ∧ answer.2.instances[id]? = some i ∧
      ∀ name, p.type.persists name = true → i.record.data.field? name = data.field? name

section Runs

variable {p : Deposit} {ht : p.table ≠ .none → p.type.Files p.inUse} {before : Storage}
  {I : KeyLaw} {c : Cache} {n : Account} {key : Key}

/-- A fetch of a key of which nothing is cached gives the data that its row tells. -/
theorem Cache.Guards.recalls_of_not_caches (h : c.Guards p ht before I) (hused : p.inUse key)
    (hfree : c.caches p key = false) (hanswers : c.storage.Answers p.table)
    (data : Option Json) :
    p.Recalls (c.get p.model key) data ↔ p.Tells c.storage key data := by
  obtain ⟨hbrings, hgets⟩ := h.get_of_not_caches hused hfree
  cases data with
  | none =>
      refine ⟨fun hnone => hbrings none hnone, fun hrow => ?_⟩
      have hreads : p.Reads c.storage key := by
        intro row hrow'
        exact absurd (hrow.symm.trans hrow') (by simp)
      obtain ⟨found, hok⟩ := hgets hanswers hreads
      cases found with
      | none => exact hok
      | some id =>
          obtain ⟨i, row, -, hrow', -⟩ := hbrings _ hok
          exact absurd (hrow.symm.trans hrow') (by simp)
  | some data =>
      constructor
      · rintro ⟨id, i, hok, hi, hsame⟩
        obtain ⟨i', row, hi', hrow, hread⟩ := hbrings _ hok
        obtain rfl : i' = i := Option.some.inj (hi'.symm.trans hi)
        exact ⟨row, i'.record.data, hrow, hread, hsame⟩
      · rintro ⟨row, found, hrow, hread, hsame⟩
        have hreads : p.Reads c.storage key := by
          intro row' hrow'
          obtain rfl : row = row' := Option.some.inj (hrow.symm.trans hrow')
          exact ⟨found, hread⟩
        obtain ⟨answer, hok⟩ := hgets hanswers hreads
        cases answer with
        | none => exact absurd ((hbrings _ hok).symm.trans hrow) (by simp)
        | some id =>
            obtain ⟨i, row', hi, hrow', hread'⟩ := hbrings _ hok
            obtain rfl : row = row' := Option.some.inj (hrow.symm.trans hrow')
            obtain rfl : found = i.record.data := Except.ok.inj (hread.symm.trans hread')
            exact ⟨id, i, hok, hi, hsame⟩

/-- An expiration leaves nothing cached of the key, and the tables as they are. -/
theorem Cache.Guards.expired (h : c.Guards p ht before I) (hused : p.inUse key) :
    (c.expire p.model key).2.Guards p ht before (fun _ _ _ => True) ∧
      (c.expire p.model key).2.caches p key = false ∧
      (c.expire p.model key).2.storage = c.storage := by
  have htrivial : KeyLaw.Calm p fun _ _ _ => True :=
    ⟨fun _ _ _ => trivial, fun _ _ _ => trivial, fun _ _ _ _ _ _ _ => trivial,
      fun _ _ _ => trivial, fun _ _ => trivial⟩
  have hany : c.Guards p ht before (fun _ _ _ => True) :=
    Cache.Hosts.mono h fun s hs => hs.mono fun _ _ _ => trivial
  obtain ⟨own, hfound, -, hwithin⟩ := Cache.Hosts.within_own h fun _ hs => hs.model
  have hresult : (c.expire p.model key).2 = c.adopt p.ns ((c.scope own).expire key).2 :=
    congrArg Prod.snd (hwithin fun s => (.ok (s.expire key).1, (s.expire key).2))
  have hself : (own.repo.expire key).2.get key = none :=
    (own.repo.get_expire key key).2.2.trans (if_pos rfl)
  refine ⟨hany.expire htrivial hused fun _ _ _ => trivial, ?_, ?_⟩
  · rw [hresult]
    refine (Cache.caches_eq_false_iff (Cache.get?_adopt_self c p.ns _)).mpr ?_
    rcases Scope.expire_cases (c.scope own) key with ⟨-, hexpired⟩ | ⟨id, i, -, -, hexpired⟩
    · rw [hexpired]
      exact hself
    · rw [hexpired]
      exact hself
  · rw [hresult]
    rcases Scope.expire_cases (c.scope own) key with ⟨-, hexpired⟩ | ⟨id, i, -, -, hexpired⟩
    · rw [hexpired]
      rfl
    · rw [hexpired]
      rfl

/-- The data of a stored row can be read back. -/
theorem Opening.reads_back (hopen : Opening p c) (hp : p.type.Stores p.inUse)
    (hrestores : p.type.Restores) {text : String} {row : Document}
    (hrow : (c.storage.rows p.table).get? text = some row) :
    ∃ data, p.type.read (.ofDocument row) = .ok data ∧ p.type.Holds data ∧
      p.inUse (p.type.keyOf data) ∧ (p.type.keyOf data).text = text ∧
        p.type.storedRow data = .ok row := by
  obtain ⟨data, hdata, hused, htext, hstored⟩ := hopen.written text row hrow
  obtain ⟨data', hread⟩ := hrestores data row hdata hstored
  obtain ⟨hdata', hkey, hstored'⟩ := hp.of_read hdata hstored hread
  rw [← hkey] at hused htext
  exact ⟨data', hread, hdata', hused, htext, hstored'⟩

theorem Opening.launch (hopen : Opening p c) (hp : p.type.Stores p.inUse)
    (hrestores : p.type.Restores) : Launch p c := by
  obtain ⟨plan, tables, source, hstart, hmodel, hoptions, htable, hfound⟩ := hopen.started
  obtain ⟨-, -, -, hsaver⟩ := startSource_eq_ok hstart
  refine ⟨⟨⟨false, plan, tables, source, hstart, hmodel, htable, hfound⟩, ?_, hopen.fresh,
    fun _ => hopen.ready, ?_⟩, fun hnone => ?_, fun own hown => ?_⟩
  · exact fun ns source hns hget => .inl (hopen.apart ns source hns hget)
  · intro text row hrow
    obtain ⟨data, hread, -, hused, htext, -⟩ := hopen.reads_back hp hrestores hrow
    exact ⟨data, hread, hused, htext⟩
  · have hready := hopen.ready
    rw [hnone] at hready
    exact hready
  · obtain rfl : source = own := Option.some.inj (hfound.symm.trans hown)
    rw [hsaver, if_neg Bool.false_ne_true, Option.isSome_map]
    exact hoptions

theorem Opening.fits (hopen : Opening p c) (hp : p.type.Stores p.inUse)
    (hrestores : p.type.Restores) :
    (Account.start p c).Fits p (fun _ => hp.files) c.storage := by
  refine (hopen.launch hp hrestores).guards _ fun l key hused hpending heventual _ _ => ?_
  refine .of_none ?_ ?_
  · cases hrow : (c.storage.rows p.table).get? key.text with
    | none =>
        have hlast : (Account.start p c).last key = none := by simp [Account.start, hrow]
        rw [hlast]
        exact heventual.trans hrow
    | some row =>
        obtain ⟨data, hread, hdata, hdataUsed, htext, hstored⟩ :=
          hopen.reads_back hp hrestores hrow
        have hlast : (Account.start p c).last key = some data := by
          simp [Account.start, hrow, hread, Except.toOption]
        rw [hlast]
        exact ⟨hdata, hp.distinct hdataUsed hused htext, row, heventual.trans hrow, hstored⟩
  · intro e he
    rw [hpending] at he
    cases he

theorem Accounted.fits (hp : p.type.Stores p.inUse) (hrestores : p.type.Restores)
    (hopen : Opening p c) (h : Accounted p c n) : n.Fits p (fun _ => hp.files) c.storage := by
  induction h with
  | start => exact hopen.fits hp hrestores
  | step _ hr ih => exact ih.step hp hopen.remembers hr

/-- A fetch after an expiration gives what was committed last if and only if the row of the
key tells so at that moment; and it does if nothing of the key is pending and no instance of
it has expired too early. -/
theorem Accounted.recalls_iff (hp : p.type.Stores p.inUse) (hrestores : p.type.Restores)
    (hopen : Opening p c) (h : Accounted p c n) (hused : p.inUse key)
    (hanswers : n.cache.storage.Answers p.table) :
    (p.Recalls ((n.cache.expire p.model key).2.get p.model key) (n.last key) ↔
      p.Tells n.cache.storage key (n.last key)) ∧
    (n.lapsed key = false → n.cache.awaits p key = false →
      p.Tells n.cache.storage key (n.last key)) := by
  have hfits := h.fits hp hrestores hopen
  constructor
  · obtain ⟨hguards, hfree, hstorage⟩ := Cache.Guards.expired hfits hused
    rw [← hstorage] at hanswers ⊢
    exact hguards.recalls_of_not_caches hused hfree hanswers _
  · intro hlapsed hidle
    obtain ⟨own, hfound, hown⟩ := hfits.found
    have htied := (hown.keys key hused hlapsed).tied
    have hrow := (Cache.idle_of_not_awaits hfound hidle).eventual (d := p.domain)
    cases hlast : n.last key with
    | none =>
        rw [hlast] at htied
        exact hrow.symm.trans htied
    | some data =>
        rw [hlast] at htied
        obtain ⟨hdata, -, row, heventual, hstored⟩ := htied
        obtain ⟨found, hread⟩ := hrestores data row hdata hstored
        refine ⟨row, found, hrow.symm.trans heventual, hread, fun name hname => ?_⟩
        exact RecordType.field?_of_read_storedRow hdata hstored
          (RecordType.layout_of_read hread) hname

end Runs

namespace Sample

/-- A hero is created and saved, and nothing is flushed since. -/
def heroPending : Account :=
  [Request.act (.create hero (heroOf 7 3) false), .act (.save hero 0)].foldl (Account.step heroes)
    (.start heroes heroCache)

/-- What is pending of the hero is flushed. -/
def heroFlushed : Account := heroPending.step heroes (.act .syncAll)

theorem restores_heroes : heroes.type.Restores :=
  RecordType.restores_of_columns rfl (by decide) (by decide)

theorem accounted_heroPending : Accounted heroes heroCache heroPending := by
  have hcreate : heroes.Accepts (.start heroes heroCache)
      (.act (.create hero (heroOf 7 3) false)) := by
    refine ⟨fun _ => ⟨holds_heroOf (by omega) (by omega), RecordType.single_keyOf rfl _⟩, ?_⟩
    rintro id (hno | hno) <;> cases hno
  have hcreated := Accounted.step .start hcreate
  refine hcreated.step ⟨heroes.serves_save (.inl rfl) ?_ ?_, ?_⟩
  · decide +kernel
  · decide +kernel
  · -- The hero is new, so nothing has to be marked.
    rintro id (hid | hno) i data hi hnormal
    · obtain ⟨-, rfl⟩ : hero = heroes.model ∧ 0 = id := by simpa using hid
      have hnew : (((Account.start heroes heroCache).step heroes
          (.act (.create hero (heroOf 7 3) false))).cache.instances[0]?).all
            (fun i => decide (i.record.lifecycle = .new)) = true := by
        decide +kernel
      rw [hi, Option.all_some, decide_eq_true_eq, hnormal] at hnew
      cases hnew
    · cases hno

theorem accounted_heroFlushed : Accounted heroes heroCache heroFlushed := by
  refine accounted_heroPending.step ⟨trivial, ?_⟩
  rintro id (hno | hno) <;> cases hno

/-- A hero that expires while its save is pending is not found, nor is it after the save was
flushed. -/
theorem exists_forgotten_save :
    ∃ n : Account, Accounted heroes heroCache n ∧ n.lapsed heroKey = false ∧
      n.cache.storage.Answers heroes.table ∧
      ¬ heroes.Recalls ((n.cache.expire hero heroKey).2.get hero heroKey) (n.last heroKey) ∧
      ∃ later, later = ((n.cache.expire hero heroKey).2.get hero heroKey).2.syncAll.2 ∧
        ((later.storage.rows heroes.table).get? heroKey.text).isSome = true ∧
        (later.get hero heroKey).1.toOption = some none := by
  refine ⟨heroPending, accounted_heroPending, ?_, fun _ => rfl, ?_, _, rfl, ?_, ?_⟩
  · decide +kernel
  · intro hrecalls
    have hlast : (heroPending.last heroKey).isSome = true := by decide +kernel
    have hnone : ((heroPending.cache.expire hero heroKey).2.get hero heroKey).1.toOption =
        some none := by
      decide +kernel
    obtain ⟨data, hdata⟩ := Option.isSome_iff_exists.mp hlast
    rw [hdata] at hrecalls
    obtain ⟨id, i, hok, -⟩ := hrecalls
    rw [hok] at hnone
    cases hnone
  · decide +kernel
  · decide +kernel

/-- After the flush it can expire and is found again. -/
theorem recalls_heroFlushed :
    (heroFlushed.last heroKey).isSome = true ∧
      heroes.Recalls ((heroFlushed.cache.expire hero heroKey).2.get hero heroKey)
        (heroFlushed.last heroKey) := by
  have hused : heroes.inUse heroKey := ⟨rfl, rfl⟩
  have hrecalls := Accounted.recalls_iff stores_heroes restores_heroes opening_heroCache
    accounted_heroFlushed hused fun _ => rfl
  refine ⟨by decide +kernel, hrecalls.1.mpr (hrecalls.2 ?_ ?_)⟩
  · decide +kernel
  · decide +kernel

end Sample

end WriteBehind
