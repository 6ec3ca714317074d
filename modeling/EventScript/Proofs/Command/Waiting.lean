import EventScript.Proofs.Session.Step

/-!
# Commands between two ticks

A command is ready for a tick in one of two states. It is at rest, idle and without memory,
and is then executed; or it waits for a token, and is then resumed with it. A waiting message
or prompt remembers the handle in its token, and nothing else remembers anything. A tick of a
ready command is let through, and one that suspends leaves it ready for its new token.
-/

namespace EventScript

/-- What an action remembers while it waits for a token: a message or prompt its handle. -/
def Action.waitingMemory (a : Action) (token : Token) : Memory :=
  match a with
  | .showMessage _ | .showChoices _ => { handle := some token }
  | _ => .clear

/-- What waits for a handle remembers it. -/
theorem Action.handle_waitingMemory {a : Action}
    (ha : a.kind = .showMessage ∨ a.kind = .showChoices) (token : Token) :
    (a.waitingMemory token).handle = some token := by
  cases a with
  | showMessage | showChoices => rfl
  | _ => simp [kind] at ha

/-- The action may wait: a message only if it waits for the player. -/
def Action.mayWait : Action → Bool
  | .showMessage p => p.waitForInput
  | _ => true

namespace Command

/-- Idle and without memory. -/
structure AtRest (c : Command) : Prop where
  phase : c.phase = .idle
  memory : c.memory = .clear

/-- Suspended with a token. -/
structure Waiting (c : Command) (token : Token) : Prop where
  enabled : c.enabled = true
  mayWait : c.action.mayWait = true
  phase : c.phase = .executing
  memory : c.memory = c.action.waitingMemory token

/-- Ready for a tick: at rest without a token, waiting with one. -/
def Ready (c : Command) : Option Token → Prop
  | none => c.AtRest
  | some token => c.Waiting token

/-- A ready message or prompt remembers the handle in the token that it waits for. -/
theorem Ready.handle_eq {c : Command} {pending : Option Token} (h : c.Ready pending)
    (hk : c.kind = .showMessage ∨ c.kind = .showChoices) : c.memory.handle = pending := by
  cases pending with
  | none => rw [h.memory]; rfl
  | some token =>
    rw [h.memory]
    exact Action.handle_waitingMemory hk token

/-- A reset command is at rest. -/
theorem atRest_reset (c : Command) : c.reset.AtRest := ⟨rfl, rfl⟩

end Command

/-! ### One tick of an action -/

namespace Action

variable {η : Type} [Host η]

/-- The tick of an action that is ready. -/
def perform (a : Action) (pending : Option Token) (owner : Owner) (w : World η) : Performed η :=
  match pending with
  | none => a.start owner .clear w
  | some token => a.resume token (a.waitingMemory token) w

/-- A poll of a message completes, or waits for it. -/
theorem pollMessage_cases (handle : Handle) (memory : Memory) (w : World η) :
    (pollMessage handle memory w).result = .ok .completed ∨
    (pollMessage handle memory w).result = .ok (.suspended handle) ∧
      (pollMessage handle memory w).memory = { memory with handle := some handle } := by
  unfold pollMessage
  rcases Host.messageClosed handle w.host with ⟨closed, host⟩
  cases closed with
  | true => exact .inl rfl
  | false => exact .inr ⟨rfl, rfl⟩

/-- A poll of a prompt completes or fails by its answer, or waits for one. -/
theorem poll_cases (p : ShowChoices) (handle : Handle) (memory : Memory) (w : World η) :
    (p.poll handle memory w).result = .ok .completed ∨
    (∃ answer e, p.valueOf answer = .error e ∧ (p.poll handle memory w).result = .error e) ∨
    (p.poll handle memory w).result = .ok (.suspended handle) ∧
      (p.poll handle memory w).memory = { memory with handle := some handle } := by
  unfold ShowChoices.poll
  rcases Host.choiceAnswer handle w.host with ⟨answer, host⟩
  cases answer with
  | none => exact .inr (.inr ⟨rfl, rfl⟩)
  | some answer =>
    dsimp only
    cases hvalue : p.valueOf answer with
    | ok value => exact .inl rfl
    | error e => exact .inr (.inl ⟨answer, e, hvalue, rfl⟩)

private theorem pollMessage_suspended {handle : Handle} {memory : Memory} {w : World η}
    {token : Token} (h : (pollMessage handle memory w).result = .ok (.suspended token)) :
    (pollMessage handle memory w).memory = { memory with handle := some token } := by
  rcases pollMessage_cases handle memory w with hr | ⟨hr, hm⟩ <;> rw [hr] at h <;> cases h
  exact hm

private theorem poll_suspended {p : ShowChoices} {handle : Handle} {memory : Memory}
    {w : World η} {token : Token}
    (h : (p.poll handle memory w).result = .ok (.suspended token)) :
    (p.poll handle memory w).memory = { memory with handle := some token } := by
  rcases poll_cases p handle memory w with hr | ⟨_, _, _, hr⟩ | ⟨hr, hm⟩ <;> rw [hr] at h <;>
    cases h
  exact hm

/-- An action that suspends at its first tick remembers what it has to. -/
theorem start_suspended {a : Action} {owner : Owner} {w : World η} {token : Token}
    (h : (a.start owner .clear w).result = .ok (.suspended token)) :
    a.mayWait = true ∧ (a.start owner .clear w).memory = a.waitingMemory token := by
  cases a with
  | showMessage p =>
    simp only [start] at h ⊢
    split at h
    · next hwait =>
      rw [if_pos hwait]
      exact ⟨hwait, pollMessage_suspended h⟩
    · cases h
  | showChoices p =>
    simp only [start] at h ⊢
    split at h
    · cases h
    · next hsome =>
      rw [if_neg hsome]
      exact ⟨rfl, poll_suspended h⟩
  | controlVariables p =>
    simp only [start] at h
    split at h <;> cases h
  | wait | fadeScreen | shakeScreen => exact ⟨rfl, rfl⟩
  | _ => cases h

/-- An action that suspends again remembers what it has to. -/
theorem resume_suspended {a : Action} {token token' : Token} {w : World η}
    (h : (a.resume token (a.waitingMemory token) w).result = .ok (.suspended token')) :
    (a.resume token (a.waitingMemory token) w).memory = a.waitingMemory token' := by
  cases a with
  | showMessage p => exact pollMessage_suspended h
  | showChoices p => exact poll_suspended h
  | wait | fadeScreen | shakeScreen => rfl
  | _ => cases h

/-- An action that suspends remembers what it has to. -/
theorem perform_suspended {a : Action} {pending : Option Token} {owner : Owner} {w : World η}
    {token : Token} (hpending : pending.isSome → a.mayWait = true)
    (h : (a.perform pending owner w).result = .ok (.suspended token)) :
    a.mayWait = true ∧ (a.perform pending owner w).memory = a.waitingMemory token := by
  cases pending with
  | none => exact start_suspended h
  | some _ => exact ⟨hpending rfl, resume_suspended h⟩

private theorem pollMessage_ne_notRunnable (handle : Handle) (memory : Memory) (w : World η)
    (name : String) (phase : Phase) :
    (pollMessage handle memory w).result ≠ .error (.notRunnable name phase) := by
  rcases pollMessage_cases handle memory w with hr | ⟨hr, -⟩ <;> rw [hr] <;> simp

private theorem poll_ne_notRunnable (p : ShowChoices) (handle : Handle) (memory : Memory)
    (w : World η) (name : String) (phase : Phase) :
    (p.poll handle memory w).result ≠ .error (.notRunnable name phase) := by
  rcases poll_cases p handle memory w with hr | ⟨answer, e, hvalue, hr⟩ | ⟨hr, -⟩ <;> rw [hr]
  · simp
  · rintro ⟨⟩
    unfold ShowChoices.valueOf at hvalue
    split at hvalue
    · split at hvalue
      · split at hvalue <;> cases hvalue
      · cases hvalue
    · cases hvalue
  · simp

/-- No action fails at its start for want of an admissible phase. -/
theorem start_ne_notRunnable (a : Action) (owner : Owner) (memory : Memory) (w : World η)
    (name : String) (phase : Phase) :
    (a.start owner memory w).result ≠ .error (.notRunnable name phase) := by
  cases a with
  | showMessage p =>
    simp only [start]
    split
    · exact pollMessage_ne_notRunnable _ _ _ _ _
    · simp
  | showChoices p =>
    simp only [start]
    split
    · simp
    · exact poll_ne_notRunnable _ _ _ _ _ _
  | controlVariables p =>
    simp only [start]
    split
    · simp
    · next e he =>
      rintro ⟨⟩
      unfold ControlVariables.compute at he
      split at he <;> cases he
  | _ => rintro ⟨⟩

/-- Nor does it later. -/
theorem resume_ne_notRunnable (a : Action) (token : Token) (memory : Memory) (w : World η)
    (name : String) (phase : Phase) :
    (a.resume token memory w).result ≠ .error (.notRunnable name phase) := by
  cases a with
  | showMessage p => exact pollMessage_ne_notRunnable _ _ _ _ _
  | showChoices p => exact poll_ne_notRunnable _ _ _ _ _ _
  | _ => rintro ⟨⟩

/-- So no tick of an action does. -/
theorem perform_ne_notRunnable (a : Action) (pending : Option Token) (owner : Owner)
    (w : World η) (name : String) (phase : Phase) :
    (a.perform pending owner w).result ≠ .error (.notRunnable name phase) := by
  cases pending with
  | none => exact a.start_ne_notRunnable owner .clear w name phase
  | some token => exact a.resume_ne_notRunnable token (a.waitingMemory token) w name phase

end Action

/-! ### One tick of a command -/

namespace Session

variable {η : Type} [Host η] {c : Command} {pending : Option Token}

/-- A ready command is let through. -/
theorem runCommand_of_ready (h : c.Ready pending) (owner : Owner) (w : World η) :
    runCommand c pending owner w = c.settle (c.action.perform pending owner w) := by
  cases pending with
  | none => rw [runCommand, Command.execute, if_pos h.phase, h.memory, Action.perform]
  | some token => rw [runCommand, Command.resume, if_pos h.phase, h.memory, Action.perform]

/-- A tick of a ready command is not refused. -/
theorem runCommand_ne_notRunnable (h : c.Ready pending) (owner : Owner) (w : World η)
    (name : String) (phase : Phase) :
    (runCommand c pending owner w).result ≠ .error (.notRunnable name phase) := by
  rw [runCommand_of_ready h]
  exact c.action.perform_ne_notRunnable pending owner w name phase

/-- A command that suspends waits for the token that it left. -/
theorem ready_of_suspended (h : c.Ready pending) (he : c.enabled = true) {owner : Owner}
    {w : World η} {token : Token}
    (hr : (runCommand c pending owner w).result = .ok (.suspended token)) :
    (runCommand c pending owner w).command.Waiting token := by
  have hpending : pending.isSome → c.action.mayWait = true := by
    intro hsome
    obtain ⟨token, rfl⟩ := Option.isSome_iff_exists.mp hsome
    exact h.mayWait
  rw [runCommand_of_ready h] at hr ⊢
  obtain ⟨hwait, hmemory⟩ := Action.perform_suspended hpending hr
  refine ⟨he, hwait, ?_, hmemory⟩
  change (c.action.perform pending owner w).result = _ at hr
  rw [Command.settle, hr]
  rfl

end Session

end EventScript
