import EventScript.Proofs.Command.Holding
import EventScript.Proofs.Session.InFlight

/-!
# What a session holds of a recording host

A session holds what its command in flight holds. A step of a tidy session replaces that by
what the command at the cursor holds afterwards; a session that is cut short gives it up.
-/

namespace EventScript

namespace Session

/-- What the command at the cursor holds. -/
def held (s : Session) : Option Holding :=
  (s.program.get? s.cursor).bind fun c => s.pending.bind c.action.held

/-- The command at the cursor is in flight, and remembers the handle. -/
def Holds (s : Session) (a : Action) (handle : Handle) : Prop :=
  ∃ c, s.program.get? s.cursor = some c ∧ c.action = a ∧ c.phase = .executing ∧
    c.memory.handle = some handle

/-- Between two worlds the command at the cursor has shown a message that it does not wait
for. -/
def ShowsUnawaited (s : Session) (w w' : World Stage) (handle : Handle) : Prop :=
  ∃ c, s.program.get? s.cursor = some c ∧ c.action.ShowsUnawaited w w' handle

variable {s s' : Session}

/-- Without a token nothing is held. -/
theorem held_of_pending (h : s.pending = none) : s.held = none := by
  rw [held, h]
  cases s.program.get? s.cursor <;> rfl

private theorem handle_of_held {a : Action} {token : Token} {x : Holding}
    (h : a.held token = some x) : x.handle = token := by
  cases a <;> cases h <;> rfl

private theorem waitingMemory_of_held {a : Action} {handle : Handle} {x : Holding}
    (h : a.held handle = some x) (token : Token) :
    (a.waitingMemory token).handle = some token := by
  cases a <;> cases h <;> rfl

/-- A tidy session holds what its command in flight remembers, and that command waits. -/
theorem Tidy.held_iff (ht : s.Tidy) {x : Holding} :
    s.held = some x ↔
      ∃ a, a.mayWait = true ∧ a.held x.handle = some x ∧ s.Holds a x.handle := by
  constructor
  · intro h
    obtain ⟨c, hc, h⟩ := Option.bind_eq_some_iff.mp h
    obtain ⟨token, hp, h⟩ := Option.bind_eq_some_iff.mp h
    have hready := ht.here c hc
    rw [hp] at hready
    obtain rfl := handle_of_held h
    refine ⟨c.action, hready.mayWait, h, c, hc, rfl, hready.phase, ?_⟩
    rw [hready.memory]
    exact waitingMemory_of_held h _
  · rintro ⟨a, -, ha, c, hc, rfl, hphase, hmemory⟩
    have hready := ht.here c hc
    cases hp : s.pending with
    | none =>
      rw [hp] at hready
      rw [hready.phase] at hphase
      cases hphase
    | some token =>
      rw [hp] at hready
      rw [hready.memory, waitingMemory_of_held ha] at hmemory
      obtain rfl := Option.some.inj hmemory
      rw [held, hc, hp]
      exact ha

variable {w w' : World Stage} {owner : Owner} {rest : List Holding} {passing : Handle → Prop}

private theorem held_eq {c : Command} (hc : s.program.get? s.cursor = some c) :
    s.held = s.pending.bind c.action.held := by
  rw [held, hc]
  rfl

/-- A session that is cut short gives up what it holds. -/
theorem abortInFlight_accounts (ht : s.Tidy) (h : w.Accounts (s.held.toList ++ rest) passing) :
    (s.abortInFlight w).2.Accounts rest passing := by
  unfold abortInFlight
  cases hc : s.program.get? s.cursor with
  | none =>
    rw [held, hc] at h
    exact h
  | some c =>
    rw [held_eq hc] at h
    exact Command.abort_accounts (ht.here c hc) h

private theorem ran_accounts {c : Command} {ran : Ran Stage} (ht : s.Tidy)
    (hc : s.program.get? s.cursor = some c) (hran : ran = runCommand c s.pending owner w)
    (h : w.Accounts (s.held.toList ++ rest) passing) :
    ran.world.Accounts ((c.action.awaited ran.result).toList ++ rest) fun handle =>
      passing handle ∨ s.ShowsUnawaited w ran.world handle := by
  rw [runCommand_of_ready (ht.here c hc)] at hran
  subst hran
  rw [held_eq hc] at h
  apply (Action.perform_accounts owner h).mono
  exact fun handle => Or.imp_right fun hshown => ⟨c, hc, hshown⟩

private theorem reported_accounts {c : Command} {ran : Ran Stage} (ht : s.Tidy)
    (hc : s.program.get? s.cursor = some c) (hran : ran = runCommand c s.pending owner w)
    (hr : ∀ token, ran.result ≠ .ok (.suspended token))
    (h : w.Accounts (s.held.toList ++ rest) passing) :
    (s.reported owner c ran).Accounts rest fun handle =>
      passing handle ∨ s.ShowsUnawaited w (s.reported owner c ran) handle := by
  have hafter := ran_accounts ht hc hran h
  have hnone : c.action.awaited ran.result = none := by
    unfold Action.awaited
    split
    · next token heq => exact absurd heq (hr token)
    · rfl
  rw [hnone] at hafter
  unfold reported
  split
  · exact hafter
  · exact hafter.report _

/-- A step of a tidy session replaces what it held by what it holds now. A message that it
does not wait for is passing from then on. -/
theorem Steps.accounts {st : Step} (hs : s.Steps owner w st s' w') (ht : s.Tidy)
    (h : w.Accounts (s.held.toList ++ rest) passing) :
    w'.Accounts (s'.held.toList ++ rest) fun handle =>
      passing handle ∨ s.ShowsUnawaited w w' handle := by
  cases hs with
  | ended => exact h.mono fun _ => .inl
  | skipped hc hd =>
    -- A disabled command has left no token, and the next one has not run yet.
    have hnone := ht.pending_of_disabled hc hd
    have hafter : Session.held { s with cursor := s.cursor + 1 } = none := held_of_pending hnone
    rw [held_of_pending hnone] at h
    rw [hafter]
    exact h.mono fun _ => .inl
  | @suspended c token ran hc he hran hr =>
    have hafter := ran_accounts ht hc hran h
    have haction : ran.command.action = c.action := by
      subst hran
      exact Command.action_eq_of_reset_eq (reset_runCommand ..)
    rw [held_eq (Program.get?_set_self hc _), haction]
    rw [hr] at hafter
    exact hafter
  | executed hc _ hran hr | exited hc _ hran hr =>
    rw [held_of_pending (by rfl)]
    exact reported_accounts ht hc hran hr h
  | faulted hc _ hran hr =>
    rw [held_of_pending (by rfl)]
    exact (reported_accounts ht hc hran hr h).report _

/-- A session that completes holds nothing. -/
theorem Steps.held_of_complete {reason : CompletionReason}
    (hs : s.Steps owner w (.complete reason) s' w') : s'.held = none := by
  cases hs with
  | ended hc => rw [held, hc]; rfl
  | exited | faulted => exact held_of_pending rfl

end Session

end EventScript
