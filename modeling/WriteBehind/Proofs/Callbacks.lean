import WriteBehind.Proofs.Guarding
import WriteBehind.Proofs.InstanceMoves
import WriteBehind.Proofs.RecordLives

/-!
# Callbacks and the history of saves

What a caller does with a handle tells what callbacks were made on its instance.  A tale is
that much of the history: how the handle came about, what was marked and deleted since the
last commit, and the callbacks of the saves that committed something (`Tale`).  The annals of
a cache are the cache together with the tales of all handles that were handed out
(`Cache.Annals`).  The events of an instance are those of its tale whatever is asked of the
cache (`Cache.Annals.Kept`), so each begins with its one birth and goes on with one callback
for each commit of a stored record.

An instance may be in the cache before anyone has a handle of it: a creation that fails as
the key is taken has loaded the record that takes it.  Such an instance is born already, and
the first fetch that hands it out finds that birth.
-/

namespace WriteBehind

/-! ## Tales -/

/-- Whether a callback is the first one of an instance. -/
def Event.isBirth : Event → Bool
  | .create | .load | .reload => true
  | .update _ | .delete => false

/-- What the holder of a handle knows of its instance. -/
structure Tale where
  birth : Event
  /-- Whether storage had the record at the start or by a commit. -/
  stored : Bool
  deleted : Bool := false
  /-- What was marked on the stored record since the last commit. -/
  marked : FieldSet := .empty
  /-- The callbacks of the commits, earliest first. -/
  saves : List Event := []

namespace Tale

/-- The tale of a record that is created. -/
def created : Tale := { birth := .create, stored := false }

/-- The tale of a record that is fetched. -/
def fetched (replica : Bool) : Tale :=
  { birth := if replica then .reload else .load, stored := true }

/-- A tale after an edit of the record. -/
def edit (t : Tale) (r : Record) : Edit → Tale
  | .delete => { t with deleted := true }
  | e => { t with marked := (r.marks e).foldl FieldSet.insert t.marked }

/-- The callback of a commit: none for the first one of a created record. -/
def callback (t : Tale) : List Event :=
  if t.stored then if t.deleted then [.delete] else [.update t.marked] else []

/-- A tale after a save that has committed something. -/
def commit (t : Tale) : Tale :=
  { t with stored := true, marked := .empty, saves := t.saves ++ t.callback }

/-- The callbacks of changes, perhaps with that of the removal after them. -/
def Word (saves removal : List Event) : Prop :=
  ∃ updates : List FieldSet, saves = updates.map .update ++ removal

/-- What a tale says of a record with some lifecycle. -/
def Stage (t : Tale) : Lifecycle → Prop
  | .new => t.stored = false ∧ t.deleted = false ∧ Word t.saves []
  | .normal => t.stored = true ∧ t.deleted = false ∧ Word t.saves []
  | .deleted => t.stored = true ∧ t.deleted = true ∧ Word t.saves []
  | .unavailable => t.deleted = true ∧ (Word t.saves [] ∨ Word t.saves [.delete])

/-- A tale is that of an instance. -/
structure Tells (t : Tale) (i : Instance) : Prop where
  birth : t.birth.isBirth = true
  events : i.events = t.birth :: t.saves
  settled : i.record.header.Settled
  changes : i.record.header.changes = t.marked
  stage : t.Stage i.record.lifecycle

section Tells

variable {t : Tale} {i i' : Instance} {lifecycle : Lifecycle}

theorem Stage.word (h : t.Stage lifecycle) : Word t.saves [] ∨ Word t.saves [.delete] := by
  cases lifecycle with
  | new | normal | deleted => exact .inl h.2.2
  | unavailable => exact h.2

theorem word_nil : Word [] [] := ⟨[], rfl⟩

theorem Word.snoc {saves : List Event} (h : Word saves []) (changes : FieldSet) :
    Word (saves ++ [.update changes]) [] := by
  obtain ⟨updates, rfl⟩ := h
  exact ⟨updates ++ [changes], by simp⟩

theorem Word.removed {saves : List Event} (h : Word saves []) :
    Word (saves ++ [.delete]) [.delete] := by
  obtain ⟨updates, rfl⟩ := h
  exact ⟨updates, by simp⟩

/-- What is told of an instance is told of any other one with the same callbacks and the
same pending changes. -/
theorem Tells.congr (h : t.Tells i) (hevents : i'.events = i.events)
    (hpending : i'.record.header.toPending = i.record.header.toPending)
    (hdirty : i'.record.header.dirty = i.record.header.dirty)
    (hidle : i'.record.header.committing = i.record.header.committing) : t.Tells i' := by
  have hlifecycle : i'.record.header.lifecycle = i.record.header.lifecycle :=
    congrArg (·.lifecycle) hpending
  have hchanges : i'.record.header.changes = i.record.header.changes :=
    congrArg (·.changes) hpending
  refine ⟨h.birth, hevents.trans h.events, ?_, hchanges.trans h.changes, ?_⟩
  · constructor
    · exact hidle.trans h.settled.idle
    · rw [hlifecycle, hchanges, hdirty]
      exact h.settled.waiting
    · rw [hlifecycle, hdirty]
      exact h.settled.gone
    · rw [hlifecycle, hchanges]
      exact h.settled.whole
  · rw [Record.lifecycle, hlifecycle]
    exact h.stage

theorem tells_loaded (s : Scope) (data : Json) :
    (fetched s.source.info.replica).Tells ⟨.load s.type data, [s.birth]⟩ := by
  refine ⟨?_, rfl, ⟨rfl, ?_, fun hl => ?_, fun hl => ?_⟩, rfl, rfl, rfl, word_nil⟩
  · cases hreplica : s.source.info.replica <;> rfl
  · rintro (hl | hl | hne)
    · cases hl
    · cases hl
    · exact absurd rfl hne
  · cases hl
  · cases hl

theorem tells_created (type : RecordType) (data : Json) (flags : CreateFlags) :
    created.Tells ⟨Scope.newRecord type data flags, [.create]⟩ := by
  refine ⟨rfl, rfl, ⟨rfl, fun _ => rfl, fun hl => ?_, fun _ => rfl⟩, rfl, rfl, rfl, word_nil⟩
  cases hl

/-- The marks of an edit are the codes that the changes gain. -/
theorem marked_edit (h : i.record.header.changes = t.marked) (e : Edit) :
    (i.record.edit e).header.changes = (i.record.marks e).foldl FieldSet.insert t.marked := by
  have hfold : ∀ (fields : List Field) (s : FieldSet) (f : Field), f < fieldCapacity →
      (f ∈ fields.foldl FieldSet.insert s ↔ f ∈ s ∨ f ∈ fields) := by
    intro fields
    induction fields with
    | nil => simp
    | cons g fields ih =>
        intro s f hf
        have hinsert : f ∈ s.insert g ↔ f ∈ s ∨ f = g := by
          rw [FieldSet.mem_iff, FieldSet.mem_insert, Bool.or_eq_true, decide_eq_true_eq,
            and_iff_left hf, @eq_comm _ g f, FieldSet.mem_iff]
        rw [List.foldl_cons, ih _ f hf, hinsert, List.mem_cons, or_assoc]
  refine FieldSet.ext fun f hf => ?_
  rw [Bool.eq_iff_iff, ← FieldSet.mem_iff, ← FieldSet.mem_iff, Record.mem_changes_edit,
    hfold _ _ f hf, h]

theorem edit_of_ne (t : Tale) (r : Record) {e : Edit} (he : e ≠ .delete) :
    t.edit r e = { t with marked := (r.marks e).foldl FieldSet.insert t.marked } := by
  cases e with
  | delete => exact absurd rfl he
  | assign data | mark fields | update incoming listed => rfl

theorem Tells.edit (h : t.Tells i) (e : Edit) :
    (t.edit i.record e).Tells { i with record := i.record.edit e } := by
  have hsettled : (i.record.edit e).header.Settled := h.settled.edit e
  have hmarked := marked_edit h.changes e
  by_cases he : e = .delete
  · subst he
    refine ⟨h.birth, h.events, hsettled, hmarked, ?_⟩
    have hheader : (i.record.edit .delete).header = i.record.header.markAsDeleted.1 := rfl
    have hstage : t.Stage i.record.header.lifecycle := h.stage
    rw [Record.lifecycle, hheader, Header.markAsDeleted]
    cases hl : i.record.header.lifecycle with
    | new =>
        rw [hl] at hstage
        exact ⟨rfl, .inl hstage.2.2⟩
    | normal =>
        rw [hl] at hstage
        exact ⟨hstage.1, rfl, hstage.2.2⟩
    | deleted =>
        rw [hl] at hstage
        dsimp only
        rw [hl]
        exact ⟨hstage.1, rfl, hstage.2.2⟩
    | unavailable =>
        rw [hl] at hstage
        dsimp only
        rw [hl]
        exact ⟨rfl, hstage.2⟩
  · rw [edit_of_ne t i.record he]
    refine ⟨h.birth, h.events, hsettled, hmarked, ?_⟩
    cases i.record.edit_cases e with
    | kept same _ =>
        rw [Record.lifecycle, same]
        exact h.stage
    | marked _ _ _ header =>
        rw [Record.lifecycle, header]
        exact h.stage
    | dropped delete _ _ | deleted delete _ _ => exact absurd delete he

/-- A commit makes the callback that is told of it. -/
theorem Tells.commit (h : t.Tells i) (hdirty : i.record.header.dirty = true)
    (place : Option Nat) : t.commit.Tells (i.committed place) := by
  have hsettled := Header.Settled.committed i.record.header
  have hcaptured : i.record.capture.pending = i.record.header.toPending := rfl
  have hstage : t.Stage i.record.header.lifecycle := h.stage
  have hnext : Scope.committedEvent i.record.capture = t.callback ∧
      t.commit.Stage (Header.committedLifecycle i.record.header.lifecycle) := by
    rw [Scope.committedEvent, hcaptured, h.changes]
    cases hl : i.record.header.lifecycle with
    | new =>
        rw [hl] at hstage
        obtain ⟨hstored, hdeleted, hword⟩ := hstage
        have hcallback : t.callback = [] := by simp [callback, hstored]
        refine ⟨hcallback.symm, rfl, hdeleted, ?_⟩
        rw [Tale.commit, hcallback, List.append_nil]
        exact hword
    | normal =>
        rw [hl] at hstage
        obtain ⟨hstored, hdeleted, hword⟩ := hstage
        have hcallback : t.callback = [.update t.marked] := by simp [callback, hstored, hdeleted]
        refine ⟨hcallback.symm, rfl, hdeleted, ?_⟩
        rw [Tale.commit, hcallback]
        exact hword.snoc t.marked
    | deleted =>
        rw [hl] at hstage
        obtain ⟨hstored, hdeleted, hword⟩ := hstage
        have hcallback : t.callback = [.delete] := by simp [callback, hstored, hdeleted]
        refine ⟨hcallback.symm, hdeleted, .inr ?_⟩
        rw [Tale.commit, hcallback]
        exact hword.removed
    | unavailable =>
        rw [h.settled.gone hl] at hdirty
        cases hdirty
  refine ⟨h.birth, ?_, ⟨hsettled.idle, hsettled.waiting, hsettled.gone, hsettled.whole⟩, rfl,
    hnext.2⟩
  rw [Instance.committed, h.events, hnext.1]
  rfl

end Tells

end Tale

/-! ## Annals -/

namespace Cache

/-- Whether the data of a namespace are owned elsewhere. -/
def isReplica (c : Cache) (ns : String) : Bool := (c.sources.get? ns).any (·.info.replica)

/-- A cache with the tales of all handles that were handed out. -/
structure Annals where
  cache : Cache
  tale : Nat → Option Tale

end Cache

/-- The handles that a call hands out. -/
def SourceCall.hands (c : Cache) (model : Model) : SourceCall → List Nat
  | .create data flags => (c.create model model.record.ns data flags).1.toOption.toList
  | .get key => (c.get model key).1.toOption.join.toList
  | .getByParts parts => (c.getByParts model model.record.ns parts).1.toOption.join.toList
  | .getMulti keys => (c.getMulti model keys).1.toOption.getD []
  | .find filter => (c.find model filter).1.toOption.getD []
  | _ => []

/-- The tale that a handle begins with when a call hands it out for the first time. -/
def SourceCall.firstTale (c : Cache) (model : Model) : SourceCall → Tale
  | .create _ _ => .created
  | _ => .fetched (c.isReplica model.record.ns)

namespace Cache.Annals

/-- The tales after the handles were handed out that have none yet. -/
def handing (a : Annals) (ids : List Nat) (first : Tale) (id : Nat) : Option Tale :=
  (a.tale id).or (if id ∈ ids then some first else none)

/-- The tales after the tale of one handle has gone on. -/
def continuing (a : Annals) (id : Nat) (f : Tale → Tale) (id' : Nat) : Option Tale :=
  if id' = id then (a.tale id').map f else a.tale id'

/-- The tales after a call.  A save goes on with the tale if it answers that it has committed
something, also where its caller then waits in vain. -/
def tell (a : Annals) (model : Model) : SourceCall → Nat → Option Tale
  | .edit id e =>
    match a.cache.instances[id]? with
    | some i => a.continuing id (·.edit i.record e)
    | none => a.tale
  | .save id | .sync id =>
    if (a.cache.save model id).1.toOption.getD false then a.continuing id .commit else a.tale
  | call => a.handing (call.hands a.cache model) (call.firstTale a.cache model)

/-- What the holders of handles may ask: there are no handles but those that were handed
out, and no edit is a breach. -/
def Admits (a : Annals) : SourceCall → Prop
  | .stray _ => False
  | .edit id e => (a.tale id).isSome = true ∧
    (a.cache.instances[id]?).bind (·.record.breach? e) = none
  | .save id | .sync id => (a.tale id).isSome = true
  | _ => True

instance (a : Annals) (call : SourceCall) : Decidable (a.Admits call) :=
  match call with
  | .stray _ => inferInstanceAs (Decidable False)
  | .edit id e => inferInstanceAs (Decidable ((a.tale id).isSome = true ∧
      (a.cache.instances[id]?).bind (·.record.breach? e) = none))
  | .save id | .sync id => inferInstanceAs (Decidable ((a.tale id).isSome = true))
  | .create _ _ | .get _ | .getByParts _ | .getMulti _ | .find _ | .expire _ | .syncAll
  | .deliver _ _ | .elapse | .close => inferInstanceAs (Decidable True)

/-- The annals after a call for the source of a model. -/
def request (a : Annals) (model : Model) (call : SourceCall) : Annals :=
  ⟨a.cache.request model call, a.tell model call⟩

/-- The annals after calls for one source, if all of them may be asked. -/
def requests (a : Annals) (model : Model) : List SourceCall → Option Annals
  | [] => some a
  | call :: calls => if a.Admits call then (a.request model call).requests model calls else none

/-- The annals of a cache in use since its setup. -/
inductive Told (c : Cache) : Annals → Prop
  | start : Told c ⟨c, fun _ => none⟩
  | request {a : Annals} (h : Told c a) (model : Model) {call : SourceCall}
      (hadmits : a.Admits call) : Told c (a.request model call)
  | syncAll {a : Annals} (h : Told c a) : Told c ⟨a.cache.syncAll.2, a.tale⟩
  | elapse {a : Annals} (h : Told c a) (milliseconds : Nat) :
      Told c ⟨a.cache.elapse milliseconds, a.tale⟩
  | stop {a : Annals} (h : Told c a) : Told c ⟨a.cache.stop, a.tale⟩

/-- Every tale is that of its instance, and live instances without one were just loaded. -/
structure Kept (a : Annals) : Prop where
  issued : ∀ id t, a.tale id = some t → ∃ i, a.cache.instances[id]? = some i ∧ t.Tells i
  live : ∀ ns source key id, a.cache.sources.get? ns = some source →
    source.repo.get key = some (.live id) → a.tale id = none →
      ∃ i, a.cache.instances[id]? = some i ∧ (Tale.fetched source.info.replica).Tells i

/-- How tales go on while an operation works on a source. -/
structure Retells (tale tale' : Nat → Option Tale) (s s' : Scope) : Prop where
  info : s'.source.info = s.source.info
  issued : ∀ id t, tale' id = some t → ∃ i, s'.instances[id]? = some i ∧ t.Tells i
  untold : ∀ id, tale' id = none → tale id = none
  others : ∀ (id : Nat) (i : Instance), tale' id = none → s.instances[id]? = some i →
    ∃ i', s'.instances[id]? = some i' ∧ ∀ t : Tale, t.Tells i → t.Tells i'
  live : ∀ key id, s'.source.repo.get key = some (.live id) → tale' id = none →
    s.source.repo.get key = some (.live id) ∨
      ∃ i, s'.instances[id]? = some i ∧ (Tale.fetched s.source.info.replica).Tells i

section Kept

variable {a : Annals} {ns : String} {source : Source} {s s' : Scope} {ids : List Nat} {id : Nat}
  {tale' : Nat → Option Tale} {model : Model}

/-- An operation on a source. -/
theorem Kept.adopt (h : a.Kept) (hget : a.cache.sources.get? ns = some source)
    (hs : Retells a.tale tale' (a.cache.scope source) s) : Kept ⟨a.cache.adopt ns s, tale'⟩ := by
  refine ⟨hs.issued, fun ns' source' key id hget' hlive hnone => ?_⟩
  have hold : ∀ {ns source}, a.cache.sources.get? ns = some source →
      source.repo.get key = some (.live id) →
        ∃ i, s.instances[id]? = some i ∧ (Tale.fetched source.info.replica).Tells i := by
    intro ns source hget hlive
    obtain ⟨i, hi, htells⟩ := h.live ns source key id hget hlive (hs.untold id hnone)
    obtain ⟨i', hi', hsame⟩ := hs.others id i hnone hi
    exact ⟨i', hi', hsame _ htells⟩
  by_cases hns : ns = ns'
  · subst hns
    rw [get?_adopt_self, Option.some.injEq] at hget'
    subst hget'
    rw [hs.info]
    rcases hs.live key id hlive hnone with hbefore | hnew
    · exact hold hget hbefore
    · exact hnew
  · rw [get?_adopt_of_ne a.cache s hns] at hget'
    exact hold hget' hlive

theorem handing_eq_none_iff {first : Tale} :
    a.handing ids first id = none ↔ a.tale id = none ∧ id ∉ ids := by
  rw [handing, Option.or_eq_none_iff]
  simp

/-- An instance that is told of was told of before, or it is one of those handed out. -/
theorem handing_cases {first t : Tale} (h : a.handing ids first id = some t) :
    a.tale id = some t ∨ a.tale id = none ∧ id ∈ ids ∧ t = first := by
  rw [handing] at h
  cases hold : a.tale id with
  | some told =>
      rw [hold, Option.some_or] at h
      exact .inl h
  | none =>
      rw [hold, Option.none_or] at h
      split at h
      next hid => exact .inr ⟨rfl, hid, (Option.some.inj h).symm⟩
      · cases h

/-- A step that leaves slots and instances alone. -/
theorem Kept.retells_same (h : a.Kept) (hs : Scope.SameInstances (a.cache.scope source) s) :
    Retells a.tale a.tale (a.cache.scope source) s := by
  refine ⟨hs.info, ?_, fun _ hnone => hnone, ?_, ?_⟩
  · rw [hs.instances]
    exact h.issued
  · intro id i _ hi
    exact ⟨i, by rw [hs.instances, hi], fun _ htells => htells⟩
  · intro key id hlive _
    rw [hs.repo] at hlive
    exact .inl hlive

/-- A fetch hands out instances whose birth is that of their source. -/
theorem Kept.retells_loads (h : a.Kept) (hget : a.cache.sources.get? ns = some source)
    (hs : Scope.Loads (a.cache.scope source) ids s) :
    Retells a.tale (a.handing ids (.fetched source.info.replica)) (a.cache.scope source) s := by
  have hlive : ∀ key id, s.source.repo.get key = some (.live id) → a.tale id = none →
      ∃ i, s.instances[id]? = some i ∧ (Tale.fetched source.info.replica).Tells i := by
    intro key id hlive hnone
    rcases hs.live key id hlive with hold | ⟨-, data, hi⟩
    · obtain ⟨i, hi, htells⟩ := h.live ns source key id hget hold hnone
      exact ⟨i, hs.kept id i hi, htells⟩
    · exact ⟨_, hi, Tale.tells_loaded (a.cache.scope source) data⟩
  refine ⟨hs.info, ?_, ?_, ?_, ?_⟩
  · intro id t ht
    rcases handing_cases ht with hold | ⟨hnone, hid, rfl⟩
    · obtain ⟨i, hi, htells⟩ := h.issued id t hold
      exact ⟨i, hs.kept id i hi, htells⟩
    · obtain ⟨key, hslot⟩ := hs.handed id hid
      exact hlive key id hslot hnone
  · exact fun id hnone => (handing_eq_none_iff.mp hnone).1
  · exact fun id i _ hi => ⟨i, hs.kept id i hi, fun _ htells => htells⟩
  · exact fun key id hslot hnone => .inr (hlive key id hslot (handing_eq_none_iff.mp hnone).1)

/-- A record that is created is handed out with its birth. -/
theorem Kept.retells_creates (h : a.Kept) (hget : a.cache.sources.get? ns = some source)
    {data : Json} {flags : CreateFlags}
    (hs : Scope.Creates (a.cache.scope source)
      ⟨Scope.newRecord (a.cache.scope source).type data flags, [.create]⟩ id s) :
    Retells a.tale (a.handing [id] .created) (a.cache.scope source) s := by
  obtain ⟨mid, hloads, rfl, hinfo, hinstances, hlive⟩ := hs
  have hmid := h.retells_loads hget hloads
  have hkept : ∀ (id : Nat) (i : Instance), mid.instances[id]? = some i →
      s.instances[id]? = some i := by
    intro id i hi
    have hlt := (List.getElem?_eq_some_iff.mp hi).1
    rw [hinstances, List.getElem?_append_left hlt, hi]
  have hnew : s.instances[mid.instances.length]? =
      some ⟨Scope.newRecord (a.cache.scope source).type data flags, [.create]⟩ := by
    rw [hinstances]
    exact List.getElem?_concat_length
  have hfetched : ∀ id, a.tale id = none →
      a.handing [] (.fetched source.info.replica) id = none :=
    fun id hnone => handing_eq_none_iff.mpr ⟨hnone, List.not_mem_nil⟩
  refine ⟨hinfo.trans hloads.info, ?_, ?_, ?_, ?_⟩
  · intro id t ht
    rcases handing_cases ht with hold | ⟨-, hid, rfl⟩
    · obtain ⟨i, hi, htells⟩ := h.issued id t hold
      exact ⟨i, hkept id i (hloads.kept id i hi), htells⟩
    · obtain rfl := List.mem_singleton.mp hid
      exact ⟨_, hnew, Tale.tells_created _ data flags⟩
  · exact fun id hnone => (handing_eq_none_iff.mp hnone).1
  · exact fun id i _ hi => ⟨i, hkept id i (hloads.kept id i hi), fun _ htells => htells⟩
  · intro key id hslot hnone
    obtain ⟨hnone, hid⟩ := handing_eq_none_iff.mp hnone
    rcases hlive key id hslot with hbefore | rfl
    · rcases hmid.live key id hbefore (hfetched id hnone) with hold | ⟨i, hi, htells⟩
      · exact .inl hold
      · exact .inr ⟨i, hkept id i hi, htells⟩
    · exact absurd List.mem_cons_self hid

theorem continuing_eq_none_iff {f : Tale → Tale} {id' : Nat} :
    a.continuing id f id' = none ↔ a.tale id' = none := by
  rw [continuing]
  split
  next hid => rw [hid, Option.map_eq_none_iff]
  · exact .rfl

/-- One instance takes another form, and its tale goes on. -/
theorem Kept.issued_set (h : a.Kept) {t : Tale} (ht : a.tale id = some t) {f : Tale → Tale}
    {i' : Instance} (htells : (f t).Tells i') {id' : Nat} {t' : Tale}
    (ht' : a.continuing id f id' = some t') :
    ∃ i, (a.cache.instances.set id i')[id']? = some i ∧ t'.Tells i := by
  obtain ⟨i, hi, -⟩ := h.issued id t ht
  have hlt := (List.getElem?_eq_some_iff.mp hi).1
  rw [continuing] at ht'
  split at ht'
  next hid =>
    rw [hid, ht, Option.map_some, Option.some.injEq] at ht'
    rw [hid, List.getElem?_set_self hlt]
    exact ⟨i', rfl, ht' ▸ htells⟩
  next hid =>
    rw [List.getElem?_set_ne (Ne.symm hid)]
    exact h.issued id' t' ht'

theorem ne_of_untold {t : Tale} (ht : a.tale id = some t) {id' : Nat}
    (hnone : a.tale id' = none) : id ≠ id' := by
  rintro rfl
  rw [hnone] at ht
  cases ht

/-- A save makes the callback that is told of it. -/
theorem Kept.retells_commits (h : a.Kept) (hid : (a.tale id).isSome = true) {committed : Bool}
    (hs : Scope.Commits (a.cache.scope source) id committed s) :
    Retells a.tale (if committed then a.continuing id .commit else a.tale)
      (a.cache.scope source) s := by
  obtain ⟨t, ht⟩ := Option.isSome_iff_exists.mp hid
  have hlive : ∀ key id', s.source.repo.get key = some (.live id') → a.tale id' = none →
      source.repo.get key = some (.live id') := by
    intro key id' hslot hnone
    exact (hs.live key id' hslot).resolve_right (Ne.symm (ne_of_untold ht hnone))
  cases committed with
  | false =>
      have hinstances := hs.clean rfl
      refine ⟨hs.info, ?_, fun _ hnone => hnone, ?_, ?_⟩
      · rw [hinstances]
        exact h.issued
      · exact fun id i _ hi => ⟨i, by rw [hinstances, hi], fun _ htells => htells⟩
      · exact fun key id' hslot hnone => .inl (hlive key id' hslot hnone)
  | true =>
      obtain ⟨i, place, hi, hdirty, hinstances⟩ := hs.dirty rfl
      obtain ⟨i₀, hi₀, htells⟩ := h.issued id t ht
      obtain rfl := Option.some.inj (hi.symm.trans hi₀)
      refine ⟨hs.info, ?_, fun _ => continuing_eq_none_iff.mp, ?_, ?_⟩
      · intro id' t' ht'
        rw [hinstances]
        exact h.issued_set ht (htells.commit hdirty place) ht'
      · intro id' x hnone hx
        have hne := ne_of_untold ht (continuing_eq_none_iff.mp hnone)
        exact ⟨x, by rw [hinstances, List.getElem?_set_ne hne, hx], fun _ hsame => hsame⟩
      · exact fun key id' hslot hnone => .inl (hlive key id' hslot (continuing_eq_none_iff.mp hnone))

/-- An instance that expires is marked and loses its slot. -/
theorem Kept.retells_expire (h : a.Kept) (key : Key) :
    Retells a.tale a.tale (a.cache.scope source) ((a.cache.scope source).expire key).2 := by
  have hslots : ∀ k id, ((a.cache.scope source).source.repo.expire key).2.get k = some (.live id) →
      source.repo.get k = some (.live id) := by
    intro k id hslot
    rw [(Repo.get_expire _ key k).2.2] at hslot
    split at hslot
    · cases hslot
    · exact hslot
  rcases Scope.expire_cases (a.cache.scope source) key with ⟨-, heq⟩ | ⟨id, i, -, hlive, heq⟩
  · rw [heq]
    exact ⟨rfl, h.issued, fun _ hnone => hnone, fun id i _ hi => ⟨i, hi, fun _ htells => htells⟩,
      fun k id hslot _ => .inl (hslots k id hslot)⟩
  · have hi : a.cache.instances[id]? = some i := hlive
    rw [heq]
    have hmarked : ∀ (id' : Nat) (x : Instance), a.cache.instances[id']? = some x →
        ∃ x', (a.cache.instances.set id
          { i with record := { i.record with header := i.record.header.setExpired } })[id']? =
            some x' ∧ ∀ t : Tale, t.Tells x → t.Tells x' := by
      intro id' x hx
      by_cases hid : id = id'
      · subst hid
        obtain rfl := Option.some.inj (hi.symm.trans hx)
        have hlt := (List.getElem?_eq_some_iff.mp hi).1
        rw [List.getElem?_set_self hlt]
        exact ⟨_, rfl, fun t htells => htells.congr rfl rfl rfl rfl⟩
      · rw [List.getElem?_set_ne hid]
        exact ⟨x, hx, fun _ htells => htells⟩
    refine ⟨rfl, fun id' t ht => ?_, fun _ hnone => hnone, fun id' x _ hx => hmarked id' x hx,
      fun k id' hslot _ => .inl (hslots k id' hslot)⟩
    obtain ⟨x, hx, htells⟩ := h.issued id' t ht
    obtain ⟨x', hx', hsame⟩ := hmarked id' x hx
    exact ⟨x', hx', hsame t htells⟩

/-! ## Calls -/

theorem handing_nil (a : Annals) (first : Tale) : a.handing [] first = a.tale := by
  funext id
  simp [handing]

/-- A call that hands out nothing leaves all tales as they are. -/
theorem Kept.of_silent {c : Cache} {first : Tale} (h : Kept ⟨c, a.tale⟩) :
    Kept ⟨c, a.handing [] first⟩ := by
  rwa [handing_nil]

/-- An operation that is asked for by model. -/
theorem Kept.within {α : Type} (h : a.Kept) (op : Scope → Except Error α × Scope)
    (hfails : (a.cache.within model model.record.ns op).1.toOption = none → tale' = a.tale)
    (hop : ∀ source, a.cache.sources.get? model.record.ns = some source →
      (a.cache.within model model.record.ns op).1.toOption =
        (op (a.cache.scope source)).1.toOption →
      Retells a.tale tale' (a.cache.scope source) (op (a.cache.scope source)).2) :
    Kept ⟨(a.cache.within model model.record.ns op).2, tale'⟩ := by
  cases hsource : a.cache.source model model.record.ns with
  | error e =>
      simp only [Cache.within, hsource] at hfails ⊢
      rw [hfails rfl]
      exact h
  | ok source =>
      obtain ⟨hget, -⟩ := source_eq_ok hsource
      have hresult : (a.cache.within model model.record.ns op).1.toOption =
          (op (a.cache.scope source)).1.toOption := by
        simp only [Cache.within, hsource, toOption_mapError]
      have hs := hop source hget hresult
      simp only [Cache.within, hsource]
      exact h.adopt hget hs

/-- A fetch that is asked for by model. -/
theorem Kept.fetch {α : Type} (h : a.Kept) (model : Model)
    {op : Scope → Except Error α × Scope} (handed : Option α → List Nat)
    (hnone : handed none = [])
    (hop : ∀ s, Scope.Loads s (handed (op s).1.toOption) (op s).2) :
    Kept ⟨(a.cache.within model model.record.ns op).2,
      a.handing (handed (a.cache.within model model.record.ns op).1.toOption)
        (.fetched (a.cache.isReplica model.record.ns))⟩ := by
  refine h.within op (fun hfails => ?_) fun source hget hresult => ?_
  · rw [hfails, hnone, handing_nil]
  · have hreplica : a.cache.isReplica model.record.ns = source.info.replica := by
      rw [isReplica, hget]
      rfl
    rw [hresult, hreplica]
    exact h.retells_loads hget (hop _)

theorem Kept.create (h : a.Kept) (model : Model) (data : Json) (flags : CreateFlags) :
    (a.request model (.create data flags)).Kept := by
  have hkept : ∀ ids, ids = (a.cache.create model model.record.ns data flags).1.toOption.toList →
      Kept ⟨(a.cache.create model model.record.ns data flags).2, a.handing ids .created⟩ := by
    rintro ids rfl
    refine h.within (·.create data flags) (fun hfails => ?_) fun source hget hresult => ?_
    · rw [Cache.create, hfails]
      exact handing_nil a _
    · rw [Cache.create, hresult]
      rcases Scope.create_loads (a.cache.scope source) data flags with
        ⟨e, herror, hloads⟩ | ⟨id, hok, hcreates⟩
      · have hfetched := h.retells_loads hget hloads
        rw [handing_nil] at hfetched
        rw [herror]
        exact (handing_nil a .created).symm ▸ hfetched
      · rw [hok]
        exact h.retells_creates hget hcreates
  exact hkept _ rfl

theorem Kept.save (h : a.Kept) (model : Model) (hid : (a.tale id).isSome = true) :
    (a.request model (.save id)).Kept := by
  refine h.within (·.save id) (fun hfails => ?_) fun source _ hresult => ?_
  · rw [tell, Cache.save, hfails]
    rfl
  · rw [tell, Cache.save, hresult]
    exact h.retells_commits hid (Scope.commits_save _ id)

theorem Kept.sync (h : a.Kept) (model : Model) (hid : (a.tale id).isSome = true) :
    (a.request model (.sync id)).Kept := by
  have hsave : ∀ {source}, a.cache.source model model.record.ns = .ok source →
      (a.cache.save model id).1.toOption = ((a.cache.scope source).save id).1.toOption := by
    intro source hsource
    simp only [Cache.save, Cache.within, hsource, toOption_mapError]
  cases hsource : a.cache.source model model.record.ns with
  | error e =>
      have htold : a.tell model (.sync id) = a.tale := by
        simp only [tell, Cache.save, Cache.within, hsource]
        rfl
      simp only [request, Cache.request, Cache.sync, Cache.within, hsource, htold]
      exact h
  | ok source =>
      obtain ⟨hget, -⟩ := source_eq_ok hsource
      simp only [request, Cache.request, Cache.sync, Cache.within, hsource, tell,
        hsave hsource]
      exact h.adopt hget (h.retells_commits hid (Scope.commits_sync _ id))

theorem Kept.edit (h : a.Kept) (model : Model) (hid : (a.tale id).isSome = true) (e : Edit) :
    (a.request model (.edit id e)).Kept := by
  obtain ⟨t, ht⟩ := Option.isSome_iff_exists.mp hid
  obtain ⟨i, hi, htells⟩ := h.issued id t ht
  have htold : a.tell model (.edit id e) = a.continuing id (·.edit i.record e) := by
    simp only [tell, hi]
  rw [request, Cache.request, edit_of_some hi, htold]
  refine ⟨fun id' t' ht' => h.issued_set ht (htells.edit e) ht', ?_⟩
  intro ns source key id' hget hlive hnone
  have huntold := continuing_eq_none_iff.mp hnone
  obtain ⟨x, hx, hfetched⟩ := h.live ns source key id' hget hlive huntold
  exact ⟨x, by rw [List.getElem?_set_ne (ne_of_untold ht huntold), hx], hfetched⟩

/-! ## Upkeep -/

theorem Kept.onSource (h : a.Kept) {op : Scope → Scope}
    (hop : ∀ s, Scope.SameInstances s (op s)) (ns : String) :
    Kept ⟨a.cache.onSource ns op, a.tale⟩ := by
  cases hget : a.cache.sources.get? ns with
  | none =>
      simp only [Cache.onSource, hget]
      exact h
  | some source =>
      simp only [Cache.onSource, hget]
      exact h.adopt hget (h.retells_same (hop _))

theorem Kept.syncNamespaces {c : Cache} {tale : Nat → Option Tale} (h : Kept ⟨c, tale⟩)
    (nss : List String) : Kept ⟨(syncNamespaces nss c).2, tale⟩ := by
  induction nss generalizing c with
  | nil => exact h
  | cons ns rest ih =>
      cases hget : c.sources.get? ns with
      | none =>
          simp only [Cache.syncNamespaces, hget]
          exact ih h
      | some source =>
          have hadopt : Kept ⟨c.adopt ns (c.scope source).syncAll.2, tale⟩ :=
            h.adopt hget (h.retells_same (Scope.sameInstances_syncAll _))
          cases hsync : (c.scope source).syncAll with
          | mk result s =>
              rw [hsync] at hadopt
              cases result with
              | error e =>
                  simp only [Cache.syncNamespaces, hget, hsync]
                  exact hadopt
              | ok u =>
                  simp only [Cache.syncNamespaces, hget, hsync]
                  exact ih hadopt

theorem Kept.elapse (h : a.Kept) (milliseconds : Nat) :
    Kept ⟨a.cache.elapse milliseconds, a.tale⟩ := by
  refine List.foldlRecOn (motive := fun c => Kept ⟨c, a.tale⟩) _ _ h fun c hc e _ => ?_
  obtain ⟨ns, source⟩ := e
  dsimp only
  split
  · exact hc.onSource Scope.sameInstances_elapse ns
  · exact hc

theorem Kept.stop (h : a.Kept) : Kept ⟨a.cache.stop, a.tale⟩ := by
  rw [Cache.stop]
  split
  · exact h
  · have hclosed : Kept ⟨a.cache.namespaces.foldl (fun c ns => c.onSource ns Scope.close) a.cache,
        a.tale⟩ :=
      List.foldlRecOn (motive := fun c => Kept ⟨c, a.tale⟩) _ _ h fun c hc ns _ =>
        hc.onSource Scope.sameInstances_close ns
    exact ⟨hclosed.issued, hclosed.live⟩

theorem Kept.request (h : a.Kept) (model : Model) {call : SourceCall}
    (hadmits : a.Admits call) : (a.request model call).Kept := by
  cases call with
  | create data flags => exact h.create model data flags
  | get key => exact h.fetch model (·.join.toList) rfl fun s => s.loads_get key
  | getByParts parts =>
      refine h.fetch model (·.join.toList) rfl fun s => ?_
      cases hkey : model.record.key.ofParts model.record.ns parts with
      | error e => exact .refl s
      | ok key => exact s.loads_get key
  | getMulti keys => exact h.fetch model (·.getD []) rfl fun s => s.loads_getMulti keys
  | find filter => exact h.fetch model (·.getD []) rfl fun s => s.loads_find filter
  | stray record => exact hadmits.elim
  | edit id e => exact h.edit model hadmits.1 e
  | save id => exact h.save model hadmits
  | sync id => exact h.sync model hadmits
  | expire key =>
      have hexpired : Kept ⟨(a.cache.expire model key).2, a.tale⟩ :=
        h.within _ (fun _ => rfl) fun source _ _ => h.retells_expire key
      exact hexpired.of_silent
  | syncAll => exact (h.onSource Scope.sameInstances_syncAll _).of_silent
  | deliver n step => exact (h.onSource (fun s => s.sameInstances_deliver n step) _).of_silent
  | elapse => exact (h.onSource Scope.sameInstances_elapse _).of_silent
  | close => exact (h.onSource Scope.sameInstances_close _).of_silent

/-! ## Runs -/

theorem Told.requests {c : Cache} {after : Annals} {calls : List SourceCall} (h : Told c a)
    (hcalls : a.requests model calls = some after) : Told c after := by
  induction calls generalizing a with
  | nil => exact Option.some.inj hcalls ▸ h
  | cons call calls ih =>
      rw [Annals.requests] at hcalls
      split at hcalls
      next hadmits => exact ih (h.request model hadmits) hcalls
      · cases hcalls

theorem Told.kept {c : Cache} (h : Told c a) (hstart : Kept ⟨c, fun _ => none⟩) : a.Kept := by
  induction h with
  | start => exact hstart
  | request _ model hadmits ih => exact ih.request model hadmits
  | syncAll _ ih => exact ih.syncNamespaces _
  | elapse _ milliseconds ih => exact ih.elapse milliseconds
  | stop _ ih => exact ih.stop

end Kept

section Setups

variable {r : Registry} {c : Configurator} {journal : Journal} {storage : Storage}
  {start : Cache} {a : Annals} {id : Nat} {t : Tale}

theorem exists_plan_of_get? {dryRun : Bool} {tables : SortedMap TableRef}
    {plans : List SourcePlan} {sources : SortedMap Source}
    (h : startSources dryRun tables plans = .ok sources) {ns : String} {source : Source}
    (hget : sources.get? ns = some source) : ∃ p, startSource dryRun tables p = .ok source := by
  induction plans generalizing sources with
  | nil =>
      obtain rfl := Except.ok.inj h
      cases hget
  | cons p plans ih =>
      rw [startSources] at h
      split at h
      next own others hown hothers =>
        obtain rfl := Except.ok.inj h
        rw [SortedMap.get?_insert] at hget
        split at hget
        · exact ⟨p, Option.some.inj hget ▸ hown⟩
        · exact ih hothers hget
      · cases h
      · cases h

/-- Nothing is live after a setup. -/
theorem kept_of_setup (hsetup : setup r c journal storage = .ok start) :
    Kept ⟨start, fun _ => none⟩ := by
  obtain ⟨plan, final, hbuilt⟩ := exists_built hsetup
  refine ⟨fun id t ht => (Option.some_ne_none t ht.symm).elim, ?_⟩
  intro ns source key id hget hlive _
  obtain ⟨p, hstart⟩ := exists_plan_of_get? hbuilt.started hget
  obtain ⟨-, hrepo, -, -⟩ := startSource_eq_ok hstart
  rw [(Repo.get_of_create hrepo key).2] at hlive
  cases hlive

/-- The callbacks of an instance that was handed out are its birth and then those of its
saves: one for each commit of changes of a stored record, with what was marked since the
commit before, and perhaps one for its removal, after which there are no more. -/
theorem callbacks_of_told (hsetup : setup r c journal storage = .ok start)
    (htold : Told start a) (ht : a.tale id = some t) :
    ∃ i, a.cache.instances[id]? = some i ∧ i.events = t.birth :: t.saves ∧
      t.birth.isBirth = true ∧ (Tale.Word t.saves [] ∨ Tale.Word t.saves [.delete]) := by
  obtain ⟨i, hi, htells⟩ := (htold.kept (kept_of_setup hsetup)).issued id t ht
  exact ⟨i, hi, htells.events, htells.birth, htells.stage.word⟩

end Setups

end Cache.Annals

namespace Sample

/-- A hero is stored, renamed, saved twice and removed. -/
def heroRequests : List SourceCall :=
  [.create (heroOf 7 3) {}, .save 0, .edit 0 (.mark [1]), .save 0, .save 0, .edit 0 .delete, .save 0]

/-- The hero is created, changed once and removed, and so say its callbacks. -/
theorem callbacks_heroRequests :
    Cache.setup mixedRegistry oneDao noJournal {} = .ok mixedCache ∧
      ∃ a, Cache.Annals.Told mixedCache a ∧ (a.cache.instances[0]?).map (·.events) =
        some [.create, .update (FieldSet.empty.insert 1), .delete] := by
  have hcalls : ((⟨mixedCache, fun _ => none⟩ : Cache.Annals).requests hero heroRequests).bind
      (fun a => (a.tale 0).map fun t => t.birth :: t.saves) =
        some [.create, .update (FieldSet.empty.insert 1), .delete] := by
    decide +kernel
  obtain ⟨a, ha, htale⟩ := Option.bind_eq_some_iff.mp hcalls
  obtain ⟨t, ht, hevents⟩ := Option.map_eq_some_iff.mp htale
  have htold := Cache.Annals.Told.start.requests ha
  obtain ⟨i, hi, htells, -⟩ := Cache.Annals.callbacks_of_told setup_mixed htold ht
  refine ⟨setup_mixed, a, htold, ?_⟩
  rw [hi, Option.map_some, htells, hevents]

end Sample

end WriteBehind
