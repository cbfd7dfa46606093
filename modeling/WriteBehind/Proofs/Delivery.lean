import WriteBehind.Saver
import WriteBehind.Proofs.Merging
import WriteBehind.Proofs.OpenedBatches

/-!
# Deliveries to a table

Commitments that a worker has taken in and the table has not are pending: those of
the batch that is on its way to the table, then those of the receiving batch.  On a
table that takes whatever it is given (`Takes`), the steps of consumer and clock move
pending commitments into the rows from the front.  `Advance` says so: the rows that
come out in the end stay the same, and the receiving batch is left alone or was
swapped for an empty one.
-/

namespace WriteBehind

variable {σ : Type}

/-- Commitments with data of their type. -/
def Commitment.Sound : Commitment → Prop
  | .snapshot s => s.Sound
  | .foreign _ => False

/-- A sound snapshot keeps the entries of a batch sound. -/
theorem Batch.sound_put {b b' : Batch} {c : Snapshot} {index : Option Nat} {i : Nat}
    (hput : b.put (.snapshot c) index = .ok (i, b')) (hc : c.Sound)
    (hb : ∀ d ∈ b.entries, d.Sound) : ∀ d ∈ b'.entries, d.Sound := by
  intro d hd
  rcases Batch.put_eq_ok hput with ⟨-, -, rfl⟩ | ⟨-, entry, merged, hentry, hmerge, rfl⟩
  · rcases List.mem_append.mp hd with hd | hd
    · exact hb d hd
    · rw [List.mem_singleton.mp hd]
      exact hc
  · rcases List.mem_or_eq_of_mem_set hd with hd | rfl
    · exact hb d hd
    · cases entry with
      | foreign f => simp [Commitment.merge] at hmerge
      | snapshot e =>
          simp only [Commitment.merge, Option.map_eq_some_iff] at hmerge
          obtain ⟨m, hm, rfl⟩ := hmerge
          have he : e.Sound := hb _ (List.mem_of_getElem? hentry)
          exact he.merge hc hm

/-- A table that takes every batch of sound commitments, as long as it is in good
order, and stays so.  Its rows are what the writes make of them. -/
structure Takes (save : Save σ) (rowsOf : σ → Rows) (Good : σ → Prop) : Prop where
  accepts : ∀ {cs : List Commitment} {running : Bool} {t : σ}, Good t →
    (∀ c ∈ cs, c.Sound) → (save cs running t).1 = true
  good : ∀ {cs : List Commitment} {running : Bool} {t : σ}, Good t →
    (∀ c ∈ cs, c.Sound) → Good (save cs running t).2
  rows : ∀ {cs : List Commitment} {running : Bool} {t : σ}, Good t →
    (∀ c ∈ cs, c.Sound) → rowsOf (save cs running t).2 = (rowsOf t).applyAll (prepareAll cs)

/-- A table that is nothing but its rows. -/
def saveRows : Save Rows := fun cs _ rows => (true, rows.applyAll (prepareAll cs))

theorem takes_saveRows : Takes saveRows id fun _ => True :=
  ⟨fun _ _ => rfl, fun _ _ => trivial, fun _ _ => rfl⟩

namespace Worker

/-- The commitments on their way to the table. -/
def leaving (w : Worker) : List Commitment :=
  match w.consumer with
  | .saving batch _ => batch.entries
  | _ => []

/-- The commitments of the receiving batch. -/
def incoming (w : Worker) : List Commitment :=
  match w.receiving with
  | some batch => batch.entries
  | none => []

/-- The commitments that the table has not been given yet. -/
def pending (w : Worker) : List Commitment := w.leaving ++ w.incoming

/-- The consumer gives its batch to the table. -/
def deliver (save : Save σ) (w : Worker) (table : σ) : Worker × σ :=
  match w.consumer with
  | .saving batch _ =>
    let (ok, table) := save batch.entries w.running table
    (w.saved ok, table)
  | _ => (w, table)

theorem flush_eq (save : Save σ) (w : Worker) (table : σ) :
    w.flush save table = ((w.deliver save table).1.recycle, (w.deliver save table).2) := by
  cases hc : w.consumer with
  | saving batch final => simp [flush, deliver, hc]
  | recycling batch aborted final => simp [flush, deliver, hc]
  | resting | waiting | closing | ended => simp [flush, deliver, recycle, hc]

theorem incoming_of_receiving {w : Worker} {b : Batch} (h : w.receiving = some b) :
    w.incoming = b.entries := by
  simp [incoming, h]

/-! ## Advancing -/

/-- How pending commitments move into the rows of a table. -/
structure Advance (rowsOf : σ → Rows) (w : Worker) (t : σ) (w' : Worker) (t' : σ) : Prop where
  /-- The rows will be the same when everything was delivered. -/
  settled : (rowsOf t').applyAll (prepareAll w'.pending) =
    (rowsOf t).applyAll (prepareAll w.pending)
  /-- The receiving batch is empty, or it is the same and the rows before it are. -/
  incoming : w'.incoming = [] ∨ w'.incoming = w.incoming ∧
    (rowsOf t').applyAll (prepareAll w'.leaving) = (rowsOf t).applyAll (prepareAll w.leaving)
  subset : ∀ c ∈ w'.pending, c ∈ w.pending
  /-- Rows of other keys are the same already. -/
  others : ∀ k, (∀ c ∈ w.pending, c.keyText ≠ k) → (rowsOf t').get? k = (rowsOf t).get? k

section Advance

variable {rowsOf : σ → Rows} {w w' w'' : Worker} {t t' t'' : σ}

theorem Advance.of_same (hleaving : w'.leaving = w.leaving)
    (hincoming : w'.incoming = w.incoming) (hrows : rowsOf t' = rowsOf t) :
    Advance rowsOf w t w' t' := by
  have hpending : w'.pending = w.pending := by rw [pending, pending, hleaving, hincoming]
  refine ⟨?_, .inr ⟨hincoming, ?_⟩, ?_, ?_⟩
  · rw [hpending, hrows]
  · rw [hleaving, hrows]
  · intro c hc
    rw [← hpending]
    exact hc
  · intro k _
    rw [hrows]

theorem Advance.refl (rowsOf : σ → Rows) (w : Worker) (t : σ) : Advance rowsOf w t w t :=
  .of_same rfl rfl rfl

theorem Advance.trans (h : Advance rowsOf w t w' t') (h' : Advance rowsOf w' t' w'' t'') :
    Advance rowsOf w t w'' t'' := by
  refine ⟨h'.settled.trans h.settled, ?_, ?_, ?_⟩
  · rcases h'.incoming with hempty | ⟨hsame, hrows⟩
    · exact .inl hempty
    · rcases h.incoming with hempty | ⟨hsame', hrows'⟩
      · exact .inl (hsame.trans hempty)
      · exact .inr ⟨hsame.trans hsame', hrows.trans hrows'⟩
  · intro c hc
    exact h.subset c (h'.subset c hc)
  · intro k hk
    have hk' : ∀ c ∈ w'.pending, c.keyText ≠ k := fun c hc => hk c (h.subset c hc)
    rw [h'.others k hk', h.others k hk]

end Advance

/-! ## Steps of consumer and clock -/

theorem leaving_of_take {w : Worker} {b : Batch} {final : Bool}
    (h : w.consumer = take b final) : w.leaving = b.entries := by
  cases hb : b.isEmpty with
  | true =>
      have hnil : b.entries = [] := by simpa [Batch.isEmpty] using hb
      simp [leaving, h, take, hb, hnil]
  | false => simp [leaving, h, take, hb]

theorem advance_poll {w : Worker} (rowsOf : σ → Rows) (hw : w.Orderly) (t : σ) :
    Advance rowsOf w t w.poll t := by
  have hrotated : ∀ w' : Worker, w.leaving = [] → w'.leaving = w.incoming →
      w'.incoming = [] → Advance rowsOf w t w' t := by
    intro w' hnone hleaving hincoming
    have hpending : w'.pending = w.pending := by
      simp [pending, hnone, hleaving, hincoming]
    refine ⟨?_, .inl hincoming, ?_, fun _ _ => rfl⟩
    · rw [hpending]
    · intro c hc
      rw [← hpending]
      exact hc
  rcases poll_cases w with hpoll | ⟨b, hb, hpoll⟩ | ⟨b, hc, -, hb, -, hpoll⟩ |
    ⟨b, hc, -, hb, hpoll⟩ | ⟨hc, -, hb, hpoll⟩
  · rw [hpoll]
    exact .refl rowsOf w t
  · rw [hpoll]
    refine .of_same rfl ?_ rfl
    rw [incoming_of_receiving hb, incoming_of_receiving rfl, entries_due]
  · rw [hpoll]
    apply hrotated
    · simp [leaving, hc]
    · rw [leaving_of_take rfl, incoming_of_receiving hb]
      exact entries_due w b
    · rw [incoming_of_receiving rfl]
      exact (freshBatch_spec hw.spare_empty).1
  · rw [hpoll]
    apply hrotated
    · simp [leaving, hc]
    · rw [leaving_of_take rfl, incoming_of_receiving hb]
      rfl
    · rfl
  · rw [hpoll]
    refine .of_same ?_ ?_ rfl
    · simp [leaving, hc]
    · simp [incoming, hb]

theorem recycle_leaving (w : Worker) : w.recycle.leaving = w.leaving := by
  rcases recycle_cases w with hsame | ⟨b, aborted, final, hc, hrecycle⟩
  · rw [hsame]
  · rw [hrecycle]
    cases final <;> cases aborted <;> simp [leaving, hc]

theorem recycle_incoming (w : Worker) : w.recycle.incoming = w.incoming := by
  rw [incoming, incoming, receiving_recycle]

theorem advance_recycle (rowsOf : σ → Rows) (w : Worker) (t : σ) :
    Advance rowsOf w t w.recycle t :=
  .of_same (recycle_leaving w) (recycle_incoming w) rfl

theorem deliver_of_saving {save : Save σ} {w : Worker} {b : Batch} {final : Bool}
    (h : w.consumer = .saving b final) (t : σ) :
    w.deliver save t =
      (w.saved (save b.entries w.running t).1, (save b.entries w.running t).2) := by
  simp [deliver, h]

theorem saved_of_saving {w : Worker} {b : Batch} {final : Bool}
    (h : w.consumer = .saving b final) (ok : Bool) :
    w.saved ok = { w with consumer := .recycling b (!ok) final } := by
  simp [saved, h]

theorem deliver_of_not_saving {save : Save σ} {w : Worker}
    (h : ∀ b final, w.consumer ≠ .saving b final) (t : σ) : w.deliver save t = (w, t) := by
  cases hc : w.consumer with
  | saving b final => exact absurd hc (h b final)
  | resting | waiting | recycling b aborted final | closing | ended => simp [deliver, hc]

section Table

variable {save : Save σ} {rowsOf : σ → Rows} {Good : σ → Prop} {w : Worker} {t : σ}

/-- What a worker and its table keep to. -/
structure Fit (Good : σ → Prop) (w : Worker) (t : σ) : Prop where
  orderly : w.Orderly
  sound : ∀ c ∈ w.pending, c.Sound
  good : Good t

theorem Fit.leaving_sound (h : Fit Good w t) : ∀ c ∈ w.leaving, c.Sound :=
  fun c hc => h.sound c (List.mem_append_left _ hc)

theorem advance_deliver (hsave : Takes save rowsOf Good) (h : Fit Good w t) :
    Advance rowsOf w t (w.deliver save t).1 (w.deliver save t).2 := by
  by_cases hsaving : ∃ b final, w.consumer = .saving b final
  · obtain ⟨b, final, hc⟩ := hsaving
    have hleaving : w.leaving = b.entries := by simp [leaving, hc]
    have hsound := h.leaving_sound
    rw [hleaving] at hsound
    have hrows : rowsOf (save b.entries w.running t).2 =
        (rowsOf t).applyAll (prepareAll w.leaving) := by
      rw [hleaving]
      exact hsave.rows h.good hsound
    rw [deliver_of_saving hc, saved_of_saving hc]
    refine ⟨?_, .inr ⟨rfl, ?_⟩, ?_, ?_⟩
    · have hafter : (rowsOf (save b.entries w.running t).2).applyAll (prepareAll w.incoming) =
          (rowsOf t).applyAll (prepareAll w.pending) := by
        rw [pending, prepareAll_append, Rows.applyAll_append, hrows]
      exact hafter
    · exact hrows
    · intro c hc
      exact List.mem_append_right _ hc
    · intro k hk
      rw [hrows, Rows.get?_applyAll_prepareAll]
      exact replay_eq_self (fun c hc => hk c (List.mem_append_left _ hc)) _
  · have hnot : ∀ b final, w.consumer ≠ .saving b final :=
      fun b final hc => hsaving ⟨b, final, hc⟩
    rw [deliver_of_not_saving hnot]
    exact .refl rowsOf w t

theorem Fit.deliver (hsave : Takes save rowsOf Good) (h : Fit Good w t) :
    Fit Good (w.deliver save t).1 (w.deliver save t).2 := by
  have hadvance := advance_deliver hsave h
  by_cases hsaving : ∃ b final, w.consumer = .saving b final
  · obtain ⟨b, final, hc⟩ := hsaving
    have hleaving : w.leaving = b.entries := by simp [leaving, hc]
    have hsound := h.leaving_sound
    rw [hleaving] at hsound
    refine ⟨?_, fun c hc => h.sound c (hadvance.subset c hc), ?_⟩
    · rw [deliver_of_saving hc]
      exact h.orderly.saved hc _
    · rw [deliver_of_saving hc]
      exact hsave.good h.good hsound
  · have hnot : ∀ b final, w.consumer ≠ .saving b final :=
      fun b final hc => hsaving ⟨b, final, hc⟩
    rw [deliver_of_not_saving hnot]
    exact h

theorem Fit.of_advance (h : Fit Good w t) {w' : Worker} {t' : σ} (hw : w'.Orderly)
    (hadvance : Advance rowsOf w t w' t') (ht : Good t') : Fit Good w' t' :=
  ⟨hw, fun c hc => h.sound c (hadvance.subset c hc), ht⟩

theorem Fit.put (h : Fit Good w t) {w' : Worker} {c : Snapshot} {index : Option Nat} {i : Nat}
    (hput : w.put (.snapshot c) index = .placed i w') (hc : c.Sound) : Fit Good w' t := by
  refine ⟨h.orderly.put hput, ?_, h.good⟩
  obtain ⟨b, b', hb, hok, rfl⟩ := put_eq_placed hput
  intro d hd
  rcases List.mem_append.mp hd with hd | hd
  · exact h.leaving_sound d hd
  · rw [incoming_of_receiving rfl] at hd
    apply Batch.sound_put hok hc _ d hd
    intro e he
    apply h.sound e (List.mem_append_right _ _)
    rw [incoming_of_receiving hb]
    exact he

/-- A flush advances a worker, -/
theorem advance_flush (hsave : Takes save rowsOf Good) (h : Fit Good w t) :
    Advance rowsOf w t (w.flush save t).1 (w.flush save t).2 ∧
      Fit Good (w.flush save t).1 (w.flush save t).2 := by
  rw [flush_eq]
  have hdeliver := h.deliver hsave
  have hadvance := (advance_deliver hsave h).trans
    (advance_recycle rowsOf (w.deliver save t).1 (w.deliver save t).2)
  exact ⟨hadvance, h.of_advance hdeliver.orderly.recycle hadvance hdeliver.good⟩

/-- and so does a turn. -/
theorem advance_turn (hsave : Takes save rowsOf Good) (h : Fit Good w t) :
    Advance rowsOf w t (w.turn save t).1 (w.turn save t).2 ∧
      Fit Good (w.turn save t).1 (w.turn save t).2 := by
  have hpoll := advance_poll rowsOf h.orderly t
  have hfit := h.of_advance h.orderly.poll hpoll h.good
  obtain ⟨hflush, hfit'⟩ := advance_flush hsave hfit
  exact ⟨hpoll.trans hflush, hfit'⟩

end Table

end Worker

/-! ## Single steps -/

/-- A step of the clock, of the consumer, of the table, or of someone who asks for a
flush. -/
inductive DeliveryStep where
  | expire
  | poll
  | deliver
  | recycle
  | request

namespace Worker

/-- A worker that is asked for a flush. -/
def request (w : Worker) : Worker :=
  match w.sync with
  | some (_, w) => w
  | none => w

/-- A worker and its table after a step. -/
def advance (save : Save σ) (w : Worker) (table : σ) : DeliveryStep → Worker × σ
  | .expire => (w.expire, table)
  | .poll => (w.poll, table)
  | .deliver => w.deliver save table
  | .recycle => (w.recycle, table)
  | .request => (w.request, table)

theorem request_cases (w : Worker) :
    w.request = w ∨ ∃ b, w.receiving = some b ∧
      w.request = { w with receiving := some b.waiter.2 } := by
  cases hs : w.sync with
  | none => exact .inl (by simp [request, hs])
  | some r =>
      obtain ⟨waiter, w'⟩ := r
      obtain ⟨b, hb, -, rfl⟩ := sync_eq_some hs
      exact .inr ⟨b, hb, by simp [request, hs]⟩

theorem advance_request (rowsOf : σ → Rows) (w : Worker) (t : σ) :
    Advance rowsOf w t w.request t := by
  rcases request_cases w with hsame | ⟨b, hb, hrequest⟩
  · rw [hsame]
    exact .refl rowsOf w t
  · rw [hrequest]
    refine .of_same rfl ?_ rfl
    rw [incoming_of_receiving hb, incoming_of_receiving rfl]
    rfl

theorem Orderly.request {w : Worker} (hw : w.Orderly) : w.request.Orderly := by
  rcases request_cases w with hsame | ⟨b, hb, hrequest⟩
  · rw [hsame]
    exact hw
  · rw [hrequest]
    exact hw.setReceiving hb rfl

/-- Every step advances a worker. -/
theorem advance_spec {save : Save σ} {rowsOf : σ → Rows} {Good : σ → Prop} {w : Worker} {t : σ}
    (hsave : Takes save rowsOf Good) (h : Fit Good w t) (a : DeliveryStep) :
    Advance rowsOf w t (w.advance save t a).1 (w.advance save t a).2 ∧
      Fit Good (w.advance save t a).1 (w.advance save t a).2 := by
  cases a with
  | expire =>
      have hadvance : Advance rowsOf w t w.expire t := .of_same rfl rfl rfl
      exact ⟨hadvance, h.of_advance h.orderly.expire hadvance h.good⟩
  | poll =>
      have hadvance := advance_poll rowsOf h.orderly t
      exact ⟨hadvance, h.of_advance h.orderly.poll hadvance h.good⟩
  | deliver => exact ⟨advance_deliver hsave h, h.deliver hsave⟩
  | recycle =>
      have hadvance := advance_recycle rowsOf w t
      exact ⟨hadvance, h.of_advance h.orderly.recycle hadvance h.good⟩
  | request =>
      have hadvance := advance_request rowsOf w t
      exact ⟨hadvance, h.of_advance h.orderly.request hadvance h.good⟩

/-! ## Running workers -/

/-- A running worker: it takes commitments in, and its consumer has neither abandoned a
batch nor taken the final one. -/
structure Live (w : Worker) : Prop where
  running : w.running = true
  receiving : w.receiving.isSome = true
  stage : w.consumer = .waiting ∨ (∃ b, w.consumer = .saving b false) ∨
    ∃ b, w.consumer = .recycling b false false

theorem live_start : ({} : Worker).start.Live := ⟨rfl, rfl, .inl rfl⟩

section Live

variable {save : Save σ} {rowsOf : σ → Rows} {Good : σ → Prop} {w : Worker} {t : σ}

theorem Live.put {w' : Worker} {c : Commitment} {index : Option Nat} {i : Nat} (h : w.Live)
    (hput : w.put c index = .placed i w') : w'.Live := by
  obtain ⟨b, b', -, -, rfl⟩ := put_eq_placed hput
  exact ⟨h.running, rfl, h.stage⟩

theorem Live.request (h : w.Live) : w.request.Live := by
  rcases request_cases w with hsame | ⟨b, -, hrequest⟩
  · rw [hsame]
    exact h
  · rw [hrequest]
    exact ⟨h.running, rfl, h.stage⟩

theorem Live.poll (h : w.Live) : w.poll.Live := by
  rcases poll_cases w with hpoll | ⟨b, -, hpoll⟩ | ⟨b, -, -, -, -, hpoll⟩ |
    ⟨b, -, hr, -, -⟩ | ⟨-, hr, -, -⟩
  · rw [hpoll]
    exact h
  · rw [hpoll]
    exact ⟨h.running, rfl, h.stage⟩
  · rw [hpoll]
    refine ⟨h.running, rfl, .inr ?_⟩
    dsimp only [take]
    split
    · exact .inr ⟨_, rfl⟩
    · exact .inl ⟨_, rfl⟩
  · rw [h.running] at hr
    cases hr
  · rw [h.running] at hr
    cases hr

/-- A batch that is taken leaves the worker running. -/
theorem Live.deliver_of_taken (h : w.Live)
    (htaken : ∀ b, w.consumer = .saving b false → (save b.entries w.running t).1 = true) :
    (w.deliver save t).1.Live := by
  rcases h.stage with hc | ⟨b, hc⟩ | ⟨b, hc⟩
  · rw [deliver_of_not_saving (by simp [hc])]
    exact h
  · rw [deliver_of_saving hc, htaken b hc, saved_of_saving hc]
    exact ⟨h.running, h.receiving, .inr (.inr ⟨b, rfl⟩)⟩
  · rw [deliver_of_not_saving (by simp [hc])]
    exact h

theorem Live.deliver (hsave : Takes save rowsOf Good) (hfit : Fit Good w t) (h : w.Live) :
    (w.deliver save t).1.Live := by
  refine h.deliver_of_taken fun b hc => ?_
  have hsound := hfit.leaving_sound
  simp only [leaving, hc] at hsound
  exact hsave.accepts hfit.good hsound

theorem Live.recycle (h : w.Live) : w.recycle.Live := by
  rcases recycle_cases w with hsame | ⟨b, aborted, final, hc, hrecycle⟩
  · rw [hsame]
    exact h
  · rw [hrecycle]
    refine ⟨h.running, h.receiving, .inl ?_⟩
    rcases h.stage with hc' | ⟨b', hc'⟩ | ⟨b', hc'⟩
    · rw [hc] at hc'
      cases hc'
    · rw [hc] at hc'
      cases hc'
    · rw [hc] at hc'
      cases hc'
      rfl

theorem Live.flush (hsave : Takes save rowsOf Good) (hfit : Fit Good w t) (h : w.Live) :
    (w.flush save t).1.Live := by
  rw [flush_eq]
  exact (h.deliver hsave hfit).recycle

theorem Live.turn (hsave : Takes save rowsOf Good) (hfit : Fit Good w t) (h : w.Live) :
    (w.turn save t).1.Live := by
  have hpoll := advance_poll rowsOf hfit.orderly t
  exact h.poll.flush hsave (hfit.of_advance hfit.orderly.poll hpoll hfit.good)

theorem Live.advance (hsave : Takes save rowsOf Good) (hfit : Fit Good w t) (h : w.Live)
    (a : DeliveryStep) : (w.advance save t a).1.Live := by
  cases a with
  | expire => exact ⟨h.running, h.receiving, h.stage⟩
  | poll => exact h.poll
  | deliver => exact h.deliver hsave hfit
  | recycle => exact h.recycle
  | request => exact h.request

end Live

/-! ## Emptying a worker -/

theorem leaving_flush (save : Save σ) (w : Worker) (t : σ) :
    (w.flush save t).1.leaving = [] := by
  rw [flush_eq, recycle_leaving]
  by_cases hsaving : ∃ b final, w.consumer = .saving b final
  · obtain ⟨b, final, hc⟩ := hsaving
    rw [deliver_of_saving hc, saved_of_saving hc]
    rfl
  · have hnot : ∀ b final, w.consumer ≠ .saving b final :=
      fun b final hc => hsaving ⟨b, final, hc⟩
    rw [deliver_of_not_saving hnot]
    cases hc : w.consumer with
    | saving b final => exact absurd hc (hnot b final)
    | resting | waiting | recycling b aborted final | closing | ended => simp [leaving, hc]

theorem incoming_flush (save : Save σ) (w : Worker) (t : σ) :
    (w.flush save t).1.incoming = w.incoming := by
  rw [flush_eq, recycle_incoming]
  by_cases hsaving : ∃ b final, w.consumer = .saving b final
  · obtain ⟨b, final, hc⟩ := hsaving
    rw [deliver_of_saving hc, saved_of_saving hc]
    rfl
  · rw [deliver_of_not_saving fun b final hc => hsaving ⟨b, final, hc⟩]

theorem not_busy_flush (save : Save σ) (w : Worker) (t : σ) :
    (w.flush save t).1.inFlight? = none := by
  rw [flush_eq]
  by_cases hsaving : ∃ b final, w.consumer = .saving b final
  · obtain ⟨b, final, hc⟩ := hsaving
    rw [deliver_of_saving hc, saved_of_saving hc]
    cases final <;> cases (save b.entries w.running t).1 <;> rfl
  · have hnot : ∀ b final, w.consumer ≠ .saving b final :=
      fun b final hc => hsaving ⟨b, final, hc⟩
    rw [deliver_of_not_saving hnot]
    cases hc : w.consumer with
    | saving b final => exact absurd hc (hnot b final)
    | recycling b aborted final => cases final <;> cases aborted <;> simp [recycle, inFlight?, hc]
    | resting | waiting | closing | ended => simp [recycle, inFlight?, hc]

theorem waiting_of_live {w : Worker} (h : w.Live) (hnone : w.inFlight? = none) :
    w.consumer = .waiting := by
  rcases h.stage with hc | ⟨b, hc⟩ | ⟨b, hc⟩
  · exact hc
  · simp [inFlight?, hc] at hnone
  · simp [inFlight?, hc] at hnone

theorem pending_turn (save : Save σ) (w : Worker) (t : σ) :
    (w.turn save t).1.pending = w.poll.incoming := by
  rw [pending, turn, leaving_flush, incoming_flush, List.nil_append]

/-- A due batch leaves an empty one behind. -/
theorem incoming_poll_of_consumable {w : Worker} (hw : w.Orderly) (hc : w.consumer = .waiting)
    {b : Batch} (hb : w.receiving = some b) (hdue : (w.due b).consumable = true) :
    w.poll.incoming = [] := by
  cases hr : w.running with
  | true =>
      have hfresh := (freshBatch_spec hw.spare_empty).1
      simpa [poll, hc, hr, hb, hdue, incoming] using hfresh
  | false => simp [poll, hc, hr, incoming]

theorem consumable_due (w : Worker) {b : Batch} (h : b.consumable = true) :
    (w.due b).consumable = true := by
  rw [due]
  split
  · simp [Batch.markOvertime, Batch.consumable]
  · exact h

end Worker

end WriteBehind
