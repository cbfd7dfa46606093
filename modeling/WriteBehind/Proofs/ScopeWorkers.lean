import WriteBehind.Proofs.ScopeUpkeep

/-!
# Workers of a source

Whatever the workers of a source do keeps the invariant of its ledger: single steps at any
moment, a turn of one worker or of all that somebody waits for, and the last turn of each
when the source is closed.
-/

namespace WriteBehind

namespace Scope

section Workers

variable {p : Deposit} {stopped : Bool} {kept : Nat → Json} {s : Scope}

theorem Kept.deliver (h : s.Kept p stopped kept) (hp : p.type.Stores p.inUse) (n : Nat)
    (a : DeliveryStep) :
    (s.deliver n a).Kept p stopped kept ∧ (s.Quiet → (s.deliver n a).Quiet) := by
  obtain ⟨hworks, hmoves⟩ := h.works.deliver (fun _ _ => hp.distinct) n a
  exact ⟨h.of_moves hworks hmoves, hmoves.quiet⟩

/-- An instance is saved, and its worker is waited for. -/
theorem Kept.sync (h : s.Kept p false kept) (hp : p.type.Stores p.inUse) {id : Nat}
    (htype : ∀ i, s.instances[id]? = some i → i.record.type = p.type)
    (hmarked : ∀ i, s.instances[id]? = some i → i.record.lifecycle = .normal →
      i.record.Marked (kept id)) :
    (s.sync id).2.Kept p false (settle kept s.instances (s.sync id).2.instances) := by
  have hsaved := h.save hp htype hmarked
  obtain ⟨hworks, hmoves⟩ := hsaved.works.sync fun _ _ => hp.distinct
  have hinstances : (s.sync id).2.instances = (s.save id).2.instances := hmoves.instances
  rw [hinstances]
  exact hsaved.of_moves hworks hmoves

/-- All workers are waited for.  If that succeeds, nothing is pending. -/
theorem Kept.syncAll (h : s.Kept p stopped kept) (hp : p.type.Stores p.inUse) :
    s.syncAll.2.Kept p stopped kept ∧ s.syncAll.2.instances = s.instances ∧
      (s.Quiet → s.syncAll.2.Quiet) ∧
      (stopped = false → s.syncAll.1 = .ok () → s.syncAll.2.Quiet) := by
  obtain ⟨hworks, hmoves, hquiet⟩ := h.works.syncAll fun _ _ => hp.distinct
  exact ⟨h.of_moves hworks hmoves, hmoves.instances, hmoves.quiet, hquiet⟩

/-- The source is closed.  If no worker had anything in its hands, nothing is pending. -/
theorem Kept.close (h : s.Kept p stopped kept) (hp : p.type.Stores p.inUse) :
    s.close.Kept p true kept ∧ s.close.instances = s.instances ∧
      ((∀ w ∈ s.ledger.workers, w.consumer = .waiting ∨ w.pending = []) → s.close.Quiet) := by
  obtain ⟨hworks, hmoves, hquiet⟩ := h.works.close fun _ _ => hp.distinct
  exact ⟨h.of_moves hworks hmoves, hmoves.instances, hquiet⟩

end Workers

end Scope

end WriteBehind
