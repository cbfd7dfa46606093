import WriteBehind.Batch
import WriteBehind.Proofs.Replay
import WriteBehind.Proofs.StoredForm

/-!
# What merging does to the row of a key

A snapshot that is merged into the entry of its predecessor does to the row of
their key what the two do one after the other (`Snapshot.onRow_merge`).  In a batch
this needs more: the entry must be the last one of its key, and it must stand for
the predecessor (`Latest`).  A record instance keeps the place of its last
snapshot, and `Tracks` says that whatever stands there, if it has the key of the
instance at all, is such an entry.  `Batch.replay_put` is the specification of
`Batch.put` under these conditions.
-/

namespace WriteBehind

/-! ## Snapshots and rows -/

namespace Snapshot

/-- The data of a snapshot are data of its type. -/
def Sound (s : Snapshot) : Prop := s.type.Holds s.data

/-- A snapshot that one instance takes after another one: the earlier one leaves
the record in storage, and the later one says what has changed since. -/
structure Follows (p c : Snapshot) : Prop where
  alive : p.pending.lifecycle.isGone = false
  next : c.pending.lifecycle = .normal ∨ c.pending.lifecycle = .deleted
  type : c.type = p.type
  key : c.key = p.key
  marked : c.pending.lifecycle = .normal → p.type.Marks c.pending.changes p.data c.data

theorem keyText_snapshot (s : Snapshot) : (Commitment.snapshot s).keyText = s.key.text := rfl

theorem onRow_of_new {s : Snapshot} (h : s.pending.lifecycle = .new)
    (row : Option Document) :
    (Commitment.snapshot s).onRow row =
      match toDocument s.data with
      | .ok doc => some (project doc s.type.fields fun _ => true)
      | .error _ => row := by
  cases hdoc : toDocument s.data with
  | error e =>
      simp [Commitment.onRow, Commitment.prepareWrite, prepareWrite, writtenFields, h, hdoc,
        Except.map]
  | ok doc =>
      simp [Commitment.onRow, Commitment.prepareWrite, prepareWrite, writtenFields, h, hdoc,
        Except.map, PreparedWrite.onRow]

theorem onRow_of_normal {s : Snapshot} (h : s.pending.lifecycle = .normal)
    (row : Option Document) :
    (Commitment.snapshot s).onRow row =
      match toDocument s.data with
      | .ok doc =>
        row.map (·.overlay (project doc s.type.fields fun d => s.pending.changes.mem d.code))
      | .error _ => row := by
  cases hdoc : toDocument s.data with
  | error e =>
      simp [Commitment.onRow, Commitment.prepareWrite, prepareWrite, writtenFields, h, hdoc,
        Except.map]
  | ok doc =>
      simp [Commitment.onRow, Commitment.prepareWrite, prepareWrite, writtenFields, h, hdoc,
        Except.map, PreparedWrite.onRow]

theorem onRow_of_deleted {s : Snapshot} (h : s.pending.lifecycle = .deleted)
    (row : Option Document) :
    (Commitment.snapshot s).onRow row = none := by
  simp [Commitment.onRow, Commitment.prepareWrite, prepareWrite, writtenFields, h, Except.map,
    PreparedWrite.onRow]

theorem onRow_of_unavailable {s : Snapshot} (h : s.pending.lifecycle = .unavailable)
    (row : Option Document) :
    (Commitment.snapshot s).onRow row = row := by
  simp [Commitment.onRow, Commitment.prepareWrite, prepareWrite, writtenFields, h, Except.map,
    PreparedWrite.onRow]

/-- Data that are no document are not written. -/
theorem onRow_of_error {s : Snapshot} {e : Error} (h : toDocument s.data = .error e)
    (halive : s.pending.lifecycle.isGone = false) (row : Option Document) :
    (Commitment.snapshot s).onRow row = row := by
  rcases Lifecycle.isGone_eq_false_iff.mp halive with hl | hl
  · rw [onRow_of_new hl, h]
  · rw [onRow_of_normal hl, h]

/-- What has to be there for a merge, and what comes of it. -/
theorem merge_eq_some {s later m : Snapshot} (h : s.merge later = some m) :
    later.type = s.type ∧ later.key = s.key ∧ s.pending.lifecycle.isGone = false ∧
      m.type = s.type ∧ m.key = s.key ∧
      s.pending.merge later.pending = some m.pending ∧
      m.data = if later.pending.lifecycle.isGone then s.data else later.data := by
  rw [merge] at h
  split at h
  next hsame =>
    rw [Option.map_eq_some_iff] at h
    obtain ⟨pending, hp, rfl⟩ := h
    simp only [Bool.and_eq_true, beq_iff_eq] at hsame
    have halive : s.pending.lifecycle.isGone = false := by
      have hsome := Pending.isSome_merge s.pending later.pending
      rw [hp] at hsome
      simpa using hsome.symm
    exact ⟨hsame.1.symm, hsame.2.symm, halive, rfl, rfl, hp, rfl⟩
  · cases h

end Snapshot

/-- Commitments that merge have one key, and what comes of them has it, too. -/
theorem Commitment.keyText_of_merge {c later m : Commitment} (h : c.merge later = some m) :
    c.keyText = later.keyText ∧ m.keyText = later.keyText := by
  cases c with
  | foreign f => simp [merge] at h
  | snapshot s =>
      cases later with
      | foreign f => simp [merge] at h
      | snapshot later =>
          simp only [merge, Option.map_eq_some_iff] at h
          obtain ⟨n, hn, rfl⟩ := h
          obtain ⟨-, hkey, -, -, hnkey, -⟩ := Snapshot.merge_eq_some hn
          exact ⟨congrArg Key.text hkey.symm, congrArg Key.text (hnkey.trans hkey.symm)⟩

namespace Snapshot

/-- Changes merged into a new record make a new record of the later data. -/
theorem onRow_merge_of_new {s later m : Snapshot} (hm : s.merge later = some m)
    (hs : s.Sound) (hlater : later.Sound) (hnew : s.pending.lifecycle = .new)
    (hnormal : later.pending.lifecycle = .normal)
    (hmarks : s.type.Marks later.pending.changes s.data later.data)
    (row : Option Document) :
    (Commitment.snapshot m).onRow row =
      (Commitment.snapshot later).onRow ((Commitment.snapshot s).onRow row) := by
  obtain ⟨htype, -, -, hmtype, -, hpending, hdata⟩ := merge_eq_some hm
  have hlater' : s.type.Holds later.data := htype ▸ hlater
  have hmdata : m.data = later.data := by simpa [hnormal] using hdata
  have hmnew : m.pending.lifecycle = .new := by
    rw [Pending.lifecycle_of_merge hpending (by rw [hnormal]; rfl), hnew]
  rw [onRow_of_new hmnew, onRow_of_normal hnormal, onRow_of_new hnew, hmdata, hmtype, htype]
  rcases RecordType.Holds.toDocument_cases hs hlater' with
    ⟨e, e', hdoc, hdoc'⟩ | ⟨doc, doc', hdoc, hdoc'⟩
  · simp [hdoc, hdoc']
  · have hover := RecordType.overlay_project (p := fun _ => true) hs hlater' hdoc hdoc' hmarks
    simp only [Bool.true_or] at hover
    simp [hdoc, hdoc', hover]

/-- Changes merged into changes are the changes of both. -/
theorem onRow_merge_of_normal {s later m : Snapshot} (hm : s.merge later = some m)
    (hs : s.Sound) (hlater : later.Sound) (hold : s.pending.lifecycle = .normal)
    (hnormal : later.pending.lifecycle = .normal)
    (hmarks : s.type.Marks later.pending.changes s.data later.data)
    (row : Option Document) :
    (Commitment.snapshot m).onRow row =
      (Commitment.snapshot later).onRow ((Commitment.snapshot s).onRow row) := by
  obtain ⟨htype, -, -, hmtype, -, hpending, hdata⟩ := merge_eq_some hm
  have hlater' : s.type.Holds later.data := htype ▸ hlater
  have hmdata : m.data = later.data := by simpa [hnormal] using hdata
  have hmnormal : m.pending.lifecycle = .normal := by
    rw [Pending.lifecycle_of_merge hpending (by rw [hnormal]; rfl), hold]
  have hmchanges : m.pending.changes = s.pending.changes.union later.pending.changes :=
    Pending.changes_of_merge hpending hold (by rw [hnormal]; rfl)
  rw [onRow_of_normal hmnormal, onRow_of_normal hnormal, onRow_of_normal hold, hmdata,
    hmtype, htype, hmchanges]
  rcases RecordType.Holds.toDocument_cases hs hlater' with
    ⟨e, e', hdoc, hdoc'⟩ | ⟨doc, doc', hdoc, hdoc'⟩
  · simp [hdoc, hdoc']
  · have hover := RecordType.overlay_project
      (p := fun d => s.pending.changes.mem d.code) hs hlater' hdoc hdoc'
      fun name hp hq => hmarks name (carries_mono (fun _ _ => rfl) hp) hq
    cases row with
    | none => simp [hdoc, hdoc']
    | some r => simp [hdoc, hdoc', FieldSet.mem_union, SortedMap.overlay_assoc, hover]

/-- A removal merged into a new record leaves no trace, into changes it is a removal. -/
theorem onRow_merge_of_deleted {s later m : Snapshot} (hm : s.merge later = some m)
    (hdeleted : later.pending.lifecycle = .deleted) (row : Option Document) :
    (Commitment.snapshot m).onRow row = if s.pending.lifecycle = .new then row else none := by
  obtain ⟨-, -, halive, -, -, hpending, -⟩ := merge_eq_some hm
  rcases Lifecycle.isGone_eq_false_iff.mp halive with hnew | hold
  · have hmgone : m.pending.lifecycle = .unavailable := by
      simp only [Pending.merge, hnew, hdeleted, Lifecycle.isGone_deleted, if_true,
        Option.some.injEq] at hpending
      rw [← hpending]
    rw [onRow_of_unavailable hmgone, if_pos hnew]
  · have hmgone : m.pending.lifecycle = .deleted := by
      simp only [Pending.merge, hold, hdeleted, Lifecycle.isGone_deleted, if_true,
        Option.some.injEq] at hpending
      rw [← hpending]
    rw [onRow_of_deleted hmgone, hold, if_neg (by decide)]

/-- Two snapshots merged do to a row what they do one after the other.  A new record
that is gone again leaves no trace, so there must not be a row when it comes. -/
theorem onRow_merge {s later m : Snapshot} (hm : s.merge later = some m)
    (hs : s.Sound) (hlater : later.Sound)
    (hnext : later.pending.lifecycle = .normal ∨ later.pending.lifecycle = .deleted)
    (hmarked : later.pending.lifecycle = .normal →
      s.type.Marks later.pending.changes s.data later.data)
    {row : Option Document} (hfresh : s.pending.lifecycle = .new → row = none) :
    (Commitment.snapshot m).onRow row =
      (Commitment.snapshot later).onRow ((Commitment.snapshot s).onRow row) := by
  rcases hnext with hnormal | hdeleted
  · have halive := (merge_eq_some hm).2.2.1
    rcases Lifecycle.isGone_eq_false_iff.mp halive with hnew | hold
    · exact onRow_merge_of_new hm hs hlater hnew hnormal (hmarked hnormal) row
    · exact onRow_merge_of_normal hm hs hlater hold hnormal (hmarked hnormal) row
  · rw [onRow_merge_of_deleted hm hdeleted, onRow_of_deleted hdeleted]
    split
    next hnew => exact hfresh hnew
    · rfl

end Snapshot

namespace Snapshot

theorem Sound.merge {s later m : Snapshot} (hs : s.Sound) (hlater : later.Sound)
    (hm : s.merge later = some m) : m.Sound := by
  obtain ⟨htype, -, -, hmtype, -, -, hdata⟩ := merge_eq_some hm
  have hlater' : s.type.Holds later.data := htype ▸ hlater
  rw [Sound, hmtype, hdata]
  split
  · exact hs
  · exact hlater'

end Snapshot

/-! ## Places in a batch -/

/-- The entry at an index stands for the snapshot that an instance took last.  It is
the last entry of its key, and if it is that of a new record, no row was there when
it came. -/
structure Latest (entries : List Commitment) (row : Option Document) (p : Snapshot)
    (i : Nat) (s : Snapshot) : Prop where
  entry : entries[i]? = some (.snapshot s)
  type : s.type = p.type
  key : s.key = p.key
  data : s.data = p.data
  last : ∀ e ∈ entries.drop (i + 1), e.keyText ≠ p.key.text
  fresh : s.pending.lifecycle = .new → replay p.key.text (entries.take i) row = none

/-- What stands at the place of an instance is the entry of its last snapshot, unless
it belongs to another key.  A place may be out of date. -/
def Tracks (entries : List Commitment) (row : Option Document) (p : Snapshot)
    (place : Option Nat) : Prop :=
  ∀ i e, place = some i → entries[i]? = some e → e.keyText = p.key.text →
    ∃ s, e = .snapshot s ∧ Latest entries row p i s

/-- Only type, key and data of the last snapshot count. -/
theorem Tracks.congr {entries : List Commitment} {row : Option Document} {p q : Snapshot}
    {place : Option Nat} (h : Tracks entries row p place) (htype : q.type = p.type)
    (hkey : q.key = p.key) (hdata : q.data = p.data) : Tracks entries row q place := by
  intro i e hplace hentry hname
  rw [hkey] at hname
  obtain ⟨s, rfl, hs⟩ := h i e hplace hentry hname
  refine ⟨s, rfl, hs.entry, hs.type.trans htype.symm, hs.key.trans hkey.symm,
    hs.data.trans hdata.symm, ?_, ?_⟩
  · rw [hkey]
    exact hs.last
  · rw [hkey]
    exact hs.fresh

theorem Tracks.none (entries : List Commitment) (row : Option Document) (p : Snapshot) :
    Tracks entries row p none := by
  intro i e hplace
  cases hplace

/-- Nothing stands in an empty batch. -/
theorem Tracks.nil (row : Option Document) (p : Snapshot) (place : Option Nat) :
    Tracks [] row p place := by
  intro i e _ hentry
  simp at hentry

/-- A snapshot that is merged into the entry of its predecessor acts as if it came
after all entries. -/
theorem Latest.replay_set {entries : List Commitment} {row : Option Document}
    {p c s m : Snapshot} {i : Nat} (h : Latest entries row p i s) (hp : p.Sound)
    (hc : c.Sound) (hfollows : p.Follows c) (hm : s.merge c = some m) :
    replay p.key.text (entries.set i (.snapshot m)) row =
      (Commitment.snapshot c).onRow (replay p.key.text entries row) := by
  obtain ⟨-, -, -, -, hmkey, -, -⟩ := Snapshot.merge_eq_some hm
  have hlt : i < entries.length := (List.getElem?_eq_some_iff.mp h.entry).1
  have hset : (entries.set i (.snapshot m))[i]? = some (.snapshot m) := by simp [hlt]
  have hkey : (Commitment.snapshot s).keyText = p.key.text := congrArg Key.text h.key
  have hmkeyText : (Commitment.snapshot m).keyText = p.key.text :=
    congrArg Key.text (hmkey.trans h.key)
  have hs : s.Sound := by
    have hdata : p.type.Holds p.data := hp
    rw [Snapshot.Sound, h.type, h.data]
    exact hdata
  have hmarked : c.pending.lifecycle = .normal →
      s.type.Marks c.pending.changes s.data c.data := by
    rw [h.type, h.data]
    exact hfollows.marked
  rw [replay_split hset, replay_split h.entry, List.take_set_of_le (Nat.le_refl i),
    List.drop_set_of_lt (Nat.lt_succ_self i), replay_eq_self h.last, replay_eq_self h.last,
    replay_singleton_of_eq hmkeyText, replay_singleton_of_eq hkey]
  exact Snapshot.onRow_merge hm hs hc hfollows.next hmarked h.fresh

/-- Entries of other keys at the end do not matter. -/
theorem Latest.append {entries : List Commitment} {row : Option Document} {p s : Snapshot}
    {i : Nat} (h : Latest entries row p i s) {c : Commitment} (hc : c.keyText ≠ p.key.text) :
    Latest (entries ++ [c]) row p i s := by
  have hlt : i < entries.length := (List.getElem?_eq_some_iff.mp h.entry).1
  refine ⟨?_, h.type, h.key, h.data, fun e he => ?_, fun hnew => ?_⟩
  · rw [List.getElem?_append_left hlt]
    exact h.entry
  · rw [List.drop_append_of_le_length hlt] at he
    rcases List.mem_append.mp he with he | he
    · exact h.last e he
    · rw [List.mem_singleton.mp he]
      exact hc
  · rw [List.take_append_of_le_length (Nat.le_of_lt hlt)]
    exact h.fresh hnew

/-- An entry of another key may be replaced. -/
theorem Latest.set {entries : List Commitment} {row : Option Document} {p s : Snapshot}
    {i : Nat} (h : Latest entries row p i s) {j : Nat} {old c : Commitment}
    (hj : entries[j]? = some old) (hold : old.keyText ≠ p.key.text)
    (hc : c.keyText ≠ p.key.text) :
    Latest (entries.set j c) row p i s := by
  have hne : j ≠ i := by
    rintro rfl
    rw [h.entry, Option.some.injEq] at hj
    exact hold (hj ▸ congrArg Key.text h.key)
  refine ⟨?_, h.type, h.key, h.data, fun e he => ?_, fun hnew => ?_⟩
  · rw [List.getElem?_set_ne hne]
    exact h.entry
  · rw [List.drop_set] at he
    split at he
    · exact h.last e he
    · rcases List.mem_or_eq_of_mem_set he with he | rfl
      · exact h.last e he
      · exact hc
  · rw [List.take_set]
    by_cases hlt : j < i
    · rw [replay_set_of_ne (by rw [List.getElem?_take_of_lt hlt]; exact hj) hold hc]
      exact h.fresh hnew
    · rw [List.set_eq_of_length_le (by rw [List.length_take]; omega)]
      exact h.fresh hnew

theorem Tracks.append {entries : List Commitment} {row : Option Document} {p : Snapshot}
    {place : Option Nat} (h : Tracks entries row p place) {c : Commitment}
    (hc : c.keyText ≠ p.key.text) :
    Tracks (entries ++ [c]) row p place := by
  intro i e hplace hentry hkey
  by_cases hlt : i < entries.length
  · rw [List.getElem?_append_left hlt] at hentry
    obtain ⟨s, rfl, hs⟩ := h i e hplace hentry hkey
    exact ⟨s, rfl, hs.append hc⟩
  · rw [List.getElem?_append_right (Nat.le_of_not_lt hlt)] at hentry
    have hin : e ∈ [c] := List.mem_of_getElem? hentry
    rw [List.mem_singleton.mp hin] at hkey
    exact absurd hkey hc

theorem Tracks.set {entries : List Commitment} {row : Option Document} {p : Snapshot}
    {place : Option Nat} (h : Tracks entries row p place) {j : Nat} {old c : Commitment}
    (hj : entries[j]? = some old) (hold : old.keyText ≠ p.key.text)
    (hc : c.keyText ≠ p.key.text) :
    Tracks (entries.set j c) row p place := by
  intro i e hplace hentry hkey
  by_cases hne : j = i
  · subst hne
    have hlt : j < entries.length := (List.getElem?_eq_some_iff.mp hj).1
    rw [List.getElem?_set_self hlt, Option.some.injEq] at hentry
    rw [← hentry] at hkey
    exact absurd hkey hc
  · rw [List.getElem?_set_ne hne] at hentry
    obtain ⟨s, rfl, hs⟩ := h i e hplace hentry hkey
    exact ⟨s, rfl, hs.set hj hold hc⟩

/-! ## Putting a snapshot into a batch -/

/-- A snapshot comes without a place, or with the place of the snapshot that it
follows. -/
def Continues (entries : List Commitment) (row : Option Document) (c : Snapshot)
    (place : Option Nat) : Prop :=
  place = none ∨ ∃ p : Snapshot, p.Sound ∧ p.Follows c ∧ Tracks entries row p place

/-- Either way its place is tracked. -/
theorem Continues.tracks {entries : List Commitment} {row : Option Document} {c : Snapshot}
    {place : Option Nat} (h : Continues entries row c place) :
    ∃ p : Snapshot, c.type = p.type ∧ c.key = p.key ∧ Tracks entries row p place := by
  rcases h with rfl | ⟨p, -, hfollows, htracks⟩
  · exact ⟨c, rfl, rfl, .none _ _ c⟩
  · exact ⟨p, hfollows.type, hfollows.key, htracks⟩

namespace Batch

variable {b b' : Batch} {c : Snapshot} {place : Option Nat} {i : Nat}

/-- A snapshot goes to the end, or into the entry of the one that it follows. -/
theorem put_snapshot_cases (h : b.put (.snapshot c) place = .ok (i, b'))
    {row : Option Document} (hplace : Continues b.entries row c place) :
    (i = b.entries.length ∧ b'.entries = b.entries ++ [.snapshot c]) ∨
      ∃ p s m : Snapshot, p.Sound ∧ p.Follows c ∧ Latest b.entries row p i s ∧
        s.merge c = some m ∧ b'.entries = b.entries.set i (.snapshot m) := by
  rcases put_eq_ok h with ⟨-, hi, rfl⟩ | ⟨rfl, entry, merged, hentry, hmerge, rfl⟩
  · exact .inl ⟨hi, rfl⟩
  · cases entry with
    | foreign f => simp [Commitment.merge] at hmerge
    | snapshot s =>
        simp only [Commitment.merge, Option.map_eq_some_iff] at hmerge
        obtain ⟨m, hm, rfl⟩ := hmerge
        rcases hplace with hnone | ⟨p, hp, hfollows, htracks⟩
        · cases hnone
        · obtain ⟨-, hkey, -⟩ := Snapshot.merge_eq_some hm
          have hkeyText : (Commitment.snapshot s).keyText = p.key.text :=
            congrArg Key.text (hkey.symm.trans hfollows.key)
          obtain ⟨s', heq, hlatest⟩ := htracks i _ rfl hentry hkeyText
          cases heq
          exact .inr ⟨p, s, m, hp, hfollows, hlatest, hm, rfl⟩

/-- What a put adds to a batch has the key of its snapshot. -/
theorem mem_put (h : b.put (.snapshot c) place = .ok (i, b')) {e : Commitment}
    (he : e ∈ b'.entries) :
    e ∈ b.entries ∨ ∃ s : Snapshot, e = .snapshot s ∧ s.key = c.key := by
  rcases put_eq_ok h with ⟨-, -, rfl⟩ | ⟨-, entry, merged, -, hmerge, rfl⟩
  · rcases List.mem_append.mp he with he | he
    · exact .inl he
    · exact .inr ⟨c, List.mem_singleton.mp he, rfl⟩
  · rcases List.mem_or_eq_of_mem_set he with he | rfl
    · exact .inl he
    · cases entry with
      | foreign f => simp [Commitment.merge] at hmerge
      | snapshot s =>
          simp only [Commitment.merge, Option.map_eq_some_iff] at hmerge
          obtain ⟨m, hm, rfl⟩ := hmerge
          obtain ⟨-, hkey, -, -, hmkey, -⟩ := Snapshot.merge_eq_some hm
          exact .inr ⟨m, rfl, hmkey.trans hkey.symm⟩

/-- Whatever the place, the row of its key sees a snapshot as the last one. -/
theorem replay_put_self (h : b.put (.snapshot c) place = .ok (i, b')) (hc : c.Sound)
    {row : Option Document} (hplace : Continues b.entries row c place) :
    replay c.key.text b'.entries row =
      (Commitment.snapshot c).onRow (replay c.key.text b.entries row) := by
  rcases put_snapshot_cases h hplace with
    ⟨-, hentries⟩ | ⟨p, s, m, hp, hfollows, hlatest, hm, hentries⟩
  · rw [hentries, replay_concat, if_pos (Snapshot.keyText_snapshot c)]
  · rw [hentries, hfollows.key]
    exact hlatest.replay_set hp hc hfollows hm

/-- The rows of other keys do not see it. -/
theorem replay_put_of_ne (h : b.put (.snapshot c) place = .ok (i, b')) {key : String}
    (hkey : c.key.text ≠ key) (row : Option Document) :
    replay key b'.entries row = replay key b.entries row := by
  rcases put_eq_ok h with ⟨-, -, rfl⟩ | ⟨-, entry, merged, hentry, hmerge, rfl⟩
  · rw [replay_concat, if_neg (by rwa [Snapshot.keyText_snapshot])]
  · obtain ⟨hold, hnew⟩ := Commitment.keyText_of_merge hmerge
    have hne : (Commitment.snapshot c).keyText ≠ key := hkey
    exact replay_set_of_ne hentry (by rwa [hold]) (by rwa [hnew]) row

/-- The place that a snapshot got leads to its entry, whatever it changes. -/
theorem tracks_put (h : b.put (.snapshot c) place = .ok (i, b'))
    (halive : c.pending.lifecycle.isGone = false) {row : Option Document} {p : Snapshot}
    (htype : c.type = p.type) (hkey : c.key = p.key) (hplace : Tracks b.entries row p place)
    (hnew : c.pending.lifecycle = .new → replay c.key.text b.entries row = none) :
    Tracks b'.entries row c (some i) := by
  intro j e hj hentry _
  obtain rfl : i = j := Option.some.inj hj
  rcases put_eq_ok h with ⟨-, hi, rfl⟩ | ⟨rfl, entry, merged, hold, hmerge, rfl⟩
  · subst hi
    obtain rfl : e = .snapshot c := by simpa using hentry.symm
    refine ⟨c, rfl, by simp, rfl, rfl, rfl, by simp, fun hl => ?_⟩
    rw [List.take_left]
    exact hnew hl
  · cases entry with
    | foreign f => simp [Commitment.merge] at hmerge
    | snapshot s =>
        simp only [Commitment.merge, Option.map_eq_some_iff] at hmerge
        obtain ⟨m, hm, rfl⟩ := hmerge
        obtain ⟨-, hskey, -, hmtype, hmkey, hmpending, hmdata⟩ := Snapshot.merge_eq_some hm
        have hkeyText : (Commitment.snapshot s).keyText = p.key.text :=
          congrArg Key.text (hskey.symm.trans hkey)
        obtain ⟨s', heq, hlatest⟩ := hplace i _ rfl hold hkeyText
        cases heq
        have hlt : i < b.entries.length := (List.getElem?_eq_some_iff.mp hold).1
        obtain rfl : e = .snapshot m := by simpa [hlt] using hentry.symm
        refine ⟨m, rfl, by simp [hlt], ?_, ?_, ?_, ?_, fun hl => ?_⟩
        · rw [hmtype, hlatest.type, htype]
        · rw [hmkey, hlatest.key, hkey]
        · simpa [halive] using hmdata
        · rw [List.drop_set_of_lt (Nat.lt_succ_self i), hkey]
          exact hlatest.last
        · have hs : s.pending.lifecycle = .new := Pending.eq_new_of_merge hmpending hl
          rw [List.take_set_of_le (Nat.le_refl i), hkey]
          exact hlatest.fresh hs

/-- The place that a snapshot got leads to its entry. -/
theorem tracks_put_self (h : b.put (.snapshot c) place = .ok (i, b'))
    (halive : c.pending.lifecycle.isGone = false) {row : Option Document}
    (hplace : Continues b.entries row c place)
    (hnew : c.pending.lifecycle = .new → replay c.key.text b.entries row = none) :
    Tracks b'.entries row c (some i) := by
  obtain ⟨p, htype, hkey, htracks⟩ := hplace.tracks
  exact tracks_put h halive htype hkey htracks hnew

/-- Instances of other keys keep their places. -/
theorem tracks_put_of_ne (h : b.put (.snapshot c) place = .ok (i, b')) {q : Snapshot}
    (hkey : c.key.text ≠ q.key.text) {row : Option Document} {other : Option Nat}
    (hq : Tracks b.entries row q other) :
    Tracks b'.entries row q other := by
  have hne : (Commitment.snapshot c).keyText ≠ q.key.text := hkey
  rcases put_eq_ok h with ⟨-, -, rfl⟩ | ⟨-, entry, merged, hentry, hmerge, rfl⟩
  · exact hq.append hne
  · obtain ⟨hold, hnew⟩ := Commitment.keyText_of_merge hmerge
    exact hq.set hentry (by rwa [hold]) (by rwa [hnew])

end Batch

end WriteBehind
