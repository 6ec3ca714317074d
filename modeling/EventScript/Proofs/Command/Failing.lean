import EventScript.Proofs.Command.Waiting

/-!
# Commands that fail

Two kinds of actions can fail: a prompt without choices or with an answer that it does not
offer, and arithmetic that divides by zero. Both fail before they write, so the game is as it
was, and neither wants more of the cursor than the next command. A call in the wrong phase
fails for any kind, and changes nothing at all.
-/

namespace EventScript

namespace Action

variable {η : Type} [Host η]

private theorem pollMessage_ne_error (handle : Handle) (memory : Memory) (w : World η)
    (e : CommandError) : (pollMessage handle memory w).result ≠ .error e := by
  rcases pollMessage_cases handle memory w with hr | ⟨hr, -⟩ <;> rw [hr] <;> simp

private theorem poll_failed {p : ShowChoices} {handle : Handle} {memory : Memory} {w : World η}
    {e : CommandError} (h : (p.poll handle memory w).result = .error e) :
    (p.poll handle memory w).world.game = w.game := by
  unfold ShowChoices.poll at h ⊢
  generalize Host.choiceAnswer handle w.host = answered at h ⊢
  rcases answered with ⟨_ | answer, host⟩
  · rfl
  · dsimp only at h ⊢
    cases hvalue : p.valueOf answer with
    | ok value =>
      rw [hvalue] at h
      cases h
    | error e' => rfl

/-- An action that fails at its first tick leaves the game as it was and wants to go on. -/
theorem start_failed {a : Action} {owner : Owner} {memory : Memory} {w : World η}
    {e : CommandError} (h : (a.start owner memory w).result = .error e) :
    (a.start owner memory w).world.game = w.game ∧ ∀ memory', a.motion memory' = .next := by
  cases a with
  | showMessage p =>
    simp only [start] at h
    split at h
    · exact absurd h (pollMessage_ne_error _ _ _ e)
    · cases h
  | showChoices p =>
    simp only [start] at h ⊢
    split at h
    · next hnone =>
      rw [if_pos hnone]
      exact ⟨rfl, fun _ => rfl⟩
    · next hsome =>
      rw [if_neg hsome]
      exact ⟨poll_failed h, fun _ => rfl⟩
  | controlVariables p =>
    simp only [start] at h ⊢
    split at h
    · cases h
    · exact ⟨rfl, fun _ => rfl⟩
  | _ => cases h

/-- So does one that fails at a later tick. -/
theorem resume_failed {a : Action} {token : Token} {memory : Memory} {w : World η}
    {e : CommandError} (h : (a.resume token memory w).result = .error e) :
    (a.resume token memory w).world.game = w.game ∧ ∀ memory', a.motion memory' = .next := by
  cases a with
  | showMessage p => exact absurd h (pollMessage_ne_error _ _ _ e)
  | showChoices p => exact ⟨poll_failed h, fun _ => rfl⟩
  | _ => cases h

end Action

namespace Command

/-- The phase that a command is in between two ticks, without and with a token. -/
def phaseFor : Option Token → Phase
  | none => .idle
  | some _ => .executing

/-- The command is in the phase of its token, and it is enabled where it has one. -/
structure InPhase (c : Command) (pending : Option Token) : Prop where
  phase : c.phase = phaseFor pending
  enabled : pending.isSome → c.enabled = true

variable {η : Type} [Host η] {c : Command} {w : World η} {e : CommandError}

/-- A failed start of a command leaves the game as it was, whatever phase the command is in. -/
theorem game_execute_failed {owner : Owner} (h : (c.execute owner w).result = .error e) :
    (c.execute owner w).world.game = w.game := by
  unfold execute at h ⊢
  split at h
  · next hidle =>
    rw [if_pos hidle]
    exact (Action.start_failed h).1
  · next hbusy =>
    rw [if_neg hbusy]
    rfl

/-- So does a failed continuation, whatever its token. -/
theorem game_resume_failed {token : Token} (h : (c.resume token w).result = .error e) :
    (c.resume token w).world.game = w.game := by
  unfold resume at h ⊢
  split at h
  · next hexecuting =>
    rw [if_pos hexecuting]
    exact (Action.resume_failed h).1
  · next hother =>
    rw [if_neg hother]
    rfl

end Command

namespace Session

variable {η : Type} [Host η]

/-- A command in its phase that fails leaves the game as it was and wants to go on. -/
theorem runCommand_failed {c : Command} {pending : Option Token} {owner : Owner} {w : World η}
    {e : CommandError} (hphase : c.InPhase pending)
    (h : (runCommand c pending owner w).result = .error e) :
    (runCommand c pending owner w).world.game = w.game ∧
      (runCommand c pending owner w).command.motion = .next := by
  cases pending with
  | none =>
    have hidle : c.phase = .idle := hphase.phase
    rw [runCommand, Command.execute, if_pos hidle] at h ⊢
    obtain ⟨hgame, hmotion⟩ := Action.start_failed h
    exact ⟨hgame, hmotion _⟩
  | some token =>
    have hexecuting : c.phase = .executing := hphase.phase
    rw [runCommand, Command.resume, if_pos hexecuting] at h ⊢
    obtain ⟨hgame, hmotion⟩ := Action.resume_failed h
    exact ⟨hgame, hmotion _⟩

/-- A command that suspends is executing. -/
theorem phase_of_suspended {c : Command} {pending : Option Token} {owner : Owner} {w : World η}
    {token : Token} (h : (runCommand c pending owner w).result = .ok (.suspended token)) :
    (runCommand c pending owner w).command.phase = .executing := by
  have hsettle {p : Performed η} (hp : p.result = .ok (.suspended token)) :
      (c.settle p).command.phase = .executing := by rw [Command.settle, hp]; rfl
  cases pending with
  | none =>
    rw [runCommand, Command.execute] at h ⊢
    split at h
    · next hidle =>
      rw [if_pos hidle]
      exact hsettle h
    · cases h
  | some token' =>
    rw [runCommand, Command.resume] at h ⊢
    split at h
    · next hexecuting =>
      rw [if_pos hexecuting]
      exact hsettle h
    · cases h

end Session

end EventScript
