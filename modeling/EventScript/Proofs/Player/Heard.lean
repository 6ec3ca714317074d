import EventScript.Proofs.Player.Tally

/-!
# A player that hears of everything

As long as the channel has left no event behind, the player has counted just what its receiver
has passed: `Player.Exact`. A window of twice as many events as there are sessions keeps it so
in every run, since nothing but the starts and the ends is sent; the player then waits no more
just when all sessions have ended, and it has counted every fault. A player of one session may
lag, but it is never ahead of its session.

`Player.gives_up` is the opposite: a player that waits for fewer sessions than it still has ends
to receive of stops waiting, whatever its scheduler does.
-/

namespace EventScript

namespace Player

variable {η : Type} {config : RuntimeConfig} {n : Nat} {p : Player η}

/-- The player still waits for what it has not passed the end of, and has counted the faults
that it has passed. -/
structure Exact (n : Nat) (p : Player η) : Prop where
  outstanding : p.outstanding + p.passed.countP SessionEvent.isEnd = n
  faulted : p.faulted = p.passed.countP SessionEvent.isFault

/-- A player that has just launched its scripts counts exactly. -/
theorem Launched.exact (h : p.Launched config n) : p.Exact n := by
  have hpassed : p.passed = [] := by rw [passed, h.position_eq, List.take_zero]
  refine ⟨?_, ?_⟩
  · rw [hpassed, h.outstanding_eq]
    rfl
  · rw [hpassed, h.faulted_eq]
    rfl

/-- What is counted down is passed. -/
theorem outstanding_hear {e : SessionEvent} (hw : p.waiting = true)
    (he : p.scheduler.channel.sent[p.position]? = some e) :
    (p.hear e).outstanding + (p.hear e).passed.countP SessionEvent.isEnd =
      p.outstanding + p.passed.countP SessionEvent.isEnd := by
  have hpos : p.outstanding ≠ 0 := by simpa [waiting] using hw
  have hone : [e].countP SessionEvent.isEnd ≤ 1 := List.countP_le_length
  rw [passed_hear he, List.countP_append]
  change p.outstanding - [e].countP _ + _ = _
  omega

/-- It goes on to count exactly with every event that it hears in order. -/
theorem Exact.hear (h : p.Exact n) {e : SessionEvent} (hw : p.waiting = true)
    (he : p.scheduler.channel.sent[p.position]? = some e) : (p.hear e).Exact n := by
  refine ⟨(outstanding_hear hw he).trans h.outstanding, ?_⟩
  rw [passed_hear he, List.countP_append, ← h.faulted]
  rfl

/-- A receive that finds nothing left behind keeps the count exact. -/
theorem Exact.receive (h : p.Exact n) (hkept : p.scheduler.channel.oldest = 0) :
    p.receive.Exact n := by
  by_cases hw : p.waiting = true
  · rcases receive_cases hw with ⟨hlag, -⟩ | ⟨e, -, he, hr⟩ | ⟨-, hr⟩
    · omega
    · rw [hr]
      exact h.hear hw he
    · rwa [hr]
  · rwa [Player.receive, if_neg hw]

/-- The window is the one that was configured. -/
theorem Tally.window_eq (h : p.Tally config n) :
    p.scheduler.channel.window = (max config.eventBufferSize 1).nextPowerOfTwo := by
  rw [← h.tallied.capacity_eq, Channel.window]

/-- Where the oldest event that is kept stands: a start and an end are sent of every session,
but for the ends of those that are active. -/
theorem Tally.oldest_eq (h : p.Tally config n) :
    p.scheduler.channel.oldest =
      2 * n - p.scheduler.active - (max config.eventBufferSize 1).nextPowerOfTwo := by
  have hlength := h.tallied.length_eq
  have hbalance := h.tallied.balance
  rw [Channel.oldest, h.window_eq]
  omega

/-- No session is active where every end has been published. -/
theorem Tally.isIdle_iff (h : p.Tally config n) :
    p.scheduler.isIdle = true ↔ p.scheduler.ended = n := by
  have hbalance := h.tallied.balance
  rw [Scheduler.isIdle, List.isEmpty_iff_length_eq_zero]
  change p.scheduler.active = 0 ↔ _
  omega

/-- A player with an exact count that waits no more has passed the end of every session. -/
theorem Exact.ended_eq (h : p.Exact n) (ht : p.Tally config n) (hw : p.waiting = false) :
    p.scheduler.ended = n ∧ p.passed.countP SessionEvent.isEnd = n := by
  have hzero : p.outstanding = 0 := by simpa [waiting] using hw
  have hpassed : p.passed.countP SessionEvent.isEnd ≤ p.scheduler.ended :=
    (List.take_sublist p.position p.scheduler.channel.sent).countP_le
  have hbalance := ht.tallied.balance
  have houtstanding := h.outstanding
  omega

/-- Then it has counted every fault, too. -/
theorem Exact.faulted_eq (h : p.Exact n) (ht : p.Tally config n) (hw : p.waiting = false) :
    p.faulted = p.scheduler.faults := by
  obtain ⟨hended, hpassed⟩ := h.ended_eq ht hw
  have hsplit := List.take_append_drop p.position p.scheduler.channel.sent
  change p.passed ++ _ = _ at hsplit
  -- What the receiver has not passed ends no session and so faults none.
  have hends := congrArg (List.countP SessionEvent.isEnd) hsplit
  have hfaults := congrArg (List.countP SessionEvent.isFault) hsplit
  have hmono : (p.scheduler.channel.sent.drop p.position).countP SessionEvent.isFault ≤
      (p.scheduler.channel.sent.drop p.position).countP SessionEvent.isEnd := by
    apply List.countP_mono_left
    intro e _ hf
    cases e with
    | completed done => rfl
    | started id owner | stopped id owner => cases hf
  rw [List.countP_append] at hends hfaults
  change _ = p.scheduler.ended at hends
  change _ = p.scheduler.faults at hfaults
  rw [h.faulted]
  omega

/-- The verdict on a count of faults. -/
theorem verdict_of_faulted {faults : Nat} (h : p.faulted = faults) :
    p.verdict = if faults = 0 then .ok () else .error (.faulted faults) := by
  rw [verdict, h]

/-- A player of at most one session that receives is never ahead of it. -/
theorem Tally.active_le_receive (ht : p.Tally config n) (hn : n ≤ 1)
    (h : p.scheduler.active ≤ p.outstanding) :
    p.receive.scheduler.active ≤ p.receive.outstanding := by
  by_cases hw : p.waiting = true
  · rcases receive_cases hw with ⟨-, hr⟩ | ⟨e, -, he, hr⟩ | ⟨-, hr⟩
    · exact Nat.le_of_eq (by rw [hr])
    · rw [hr]
      change p.scheduler.active ≤ p.outstanding - [e].countP SessionEvent.isEnd
      have hbalance := ht.tallied.balance
      have hone : [e].countP SessionEvent.isEnd ≤ p.scheduler.ended :=
        (List.singleton_sublist.mpr (List.mem_of_getElem? he)).countP_le
      omega
    · rwa [hr]
  · rwa [Player.receive, if_neg hw]

variable [Host η]

/-- What both moves keep is kept by moves in any order. -/
theorem after_induction {P : Player η → Prop} (tick : ∀ {p : Player η}, P p → P p.tick)
    (receive : ∀ {p : Player η}, P p → P p.receive) (h : P p) (ms : List Move) :
    P (p.after ms) := by
  induction ms generalizing p with
  | nil => exact h
  | cons m rest ih =>
    cases m with
    | tick => exact ih (tick h)
    | receive => exact ih (receive h)

/-- A tick leaves its counts exact. -/
theorem Exact.tick (h : p.Exact n) (ht : p.Tally config n) : p.tick.Exact n := by
  have hpassed := ht.passed_tick
  have hcounts : p.tick.outstanding = p.outstanding ∧ p.tick.faulted = p.faulted := by
    unfold Player.tick
    split <;> exact ⟨rfl, rfl⟩
  refine ⟨?_, ?_⟩
  · rw [hpassed, hcounts.1, h.outstanding]
  · rw [hpassed, hcounts.2, h.faulted]

/-- A run with such a window keeps the count exact. -/
theorem Launched.exact_after (h : p.Launched config n)
    (hfits : 2 * n ≤ (max config.eventBufferSize 1).nextPowerOfTwo) (ms : List Move) :
    (p.after ms).Tally config n ∧ (p.after ms).Exact n := by
  apply after_induction (P := fun p => p.Tally config n ∧ p.Exact n) _ _ ⟨h.tally, h.exact⟩
  · exact fun h => ⟨h.1.tick, h.2.tick h.1⟩
  · exact fun h => ⟨h.1.receive, h.2.receive (by rw [h.1.oldest_eq]; omega)⟩

/-- A tick leaves no more sessions active, and the count as it is. -/
theorem active_le_tick (h : p.scheduler.active ≤ p.outstanding) :
    p.tick.scheduler.active ≤ p.tick.outstanding := by
  have hlength := p.scheduler.tick_length
  unfold Player.tick
  split
  · change p.scheduler.tick.2.active ≤ p.outstanding
    omega
  · exact h

/-- A player of at most one session is never ahead of it in a run. -/
theorem Launched.active_le_after (h : p.Launched config n) (hn : n ≤ 1) (ms : List Move) :
    (p.after ms).Tally config n ∧ (p.after ms).scheduler.active ≤ (p.after ms).outstanding := by
  have hstart := Nat.le_of_eq (h.active_eq.trans h.outstanding_eq.symm)
  apply after_induction (P := fun p => p.Tally config n ∧ p.scheduler.active ≤ p.outstanding)
    _ _ ⟨h.tally, hstart⟩
  · exact fun h => ⟨h.1.tick, active_le_tick h.2⟩
  · exact fun h => ⟨h.1.receive, h.1.active_le_receive hn h.2⟩

/-- A player that waits for fewer sessions than it has ends to receive of gives up. -/
theorem gives_up (hkept : p.scheduler.channel.oldest ≤ p.position)
    (howed : p.outstanding + p.passed.countP SessionEvent.isEnd ≤ p.scheduler.ended) :
    ∃ ms, (p.after ms).waiting = false ∧ (p.after ms).scheduler = p.scheduler := by
  generalize hunread : p.scheduler.channel.sent.length - p.position = unread
  induction unread generalizing p with
  | zero =>
    have hall : p.passed = p.scheduler.channel.sent := List.take_of_length_le (by omega)
    rw [hall, Scheduler.ended] at howed
    refine ⟨[], ?_, rfl⟩
    have hzero : p.outstanding = 0 := by omega
    simp [after, waiting, hzero]
  | succ unread ih =>
    by_cases hw : p.waiting = true
    · rcases receive_cases hw with ⟨hlag, -⟩ | ⟨e, -, he, hr⟩ | ⟨hend, -⟩
      · omega
      · have howed' := Nat.le_trans (Nat.le_of_eq (outstanding_hear hw he)) howed
        obtain ⟨ms, hms⟩ := ih (p := p.hear e) (Nat.le_succ_of_le hkept) howed' (by
          change p.scheduler.channel.sent.length - (p.position + 1) = unread
          omega)
        exact ⟨.receive :: ms, by rw [after, List.foldl_cons, move, hr]; exact hms⟩
      · omega
    · exact ⟨[], Bool.not_eq_true _ ▸ hw, rfl⟩

end Player

end EventScript
