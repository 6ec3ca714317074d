import EventScript.Proofs.Session.Failures

/-!
# Who asks the game

A game counts the condition sets that it was asked for. Only the start of a branch asks, once, and
a branch is decided in the tick that starts it; a call that is refused asks nothing.
`Command.Decides` is what a run keeps so that no branch is refused or continued.
-/

namespace EventScript

/-- Deciding a condition set is counted. -/
@[simp] theorem GameState.checks_evaluate (g : GameState) (owner : Owner) (set : ConditionSet) :
    (g.evaluate owner set).2.checks = g.checks + 1 := by
  obtain ⟨vars, switches, selfSwitches, checks, foretold⟩ := g
  unfold evaluate
  rcases foretold with _ | _ | ⟨outcome, rest⟩ <;> rfl

/-- No switch of a batch asks. -/
@[simp] theorem ControlSwitches.checks_run (p : ControlSwitches) (g : GameState) :
    (p.run g).checks = g.checks := by
  unfold run
  induction p.switches generalizing g with
  | nil => rfl
  | cons name rest ih => exact ih _

namespace Action

variable {η : Type} [Host η]

private theorem game_pollMessage (handle : Handle) (memory : Memory) (w : World η) :
    (pollMessage handle memory w).world.game = w.game := by
  unfold pollMessage
  dsimp only
  split <;> rfl

private theorem checks_poll (p : ShowChoices) (handle : Handle) (memory : Memory) (w : World η) :
    (p.poll handle memory w).world.game.checks = w.game.checks := by
  unfold ShowChoices.poll
  rcases Host.choiceAnswer handle w.host with ⟨_ | answer, host⟩
  · rfl
  · dsimp only
    split <;> rfl

/-- Only a branch asks when it starts, and it asks once. -/
theorem checks_start (a : Action) (owner : Owner) (memory : Memory) (w : World η) :
    (a.start owner memory w).world.game.checks =
      w.game.checks + if a.kind = .conditionalBranch then 1 else 0 := by
  cases a with
  | conditionalBranch conditions => exact w.game.checks_evaluate owner conditions
  | showMessage p =>
    simp only [start]
    split
    · exact congrArg GameState.checks (game_pollMessage ..)
    · rfl
  | showChoices p =>
    simp only [start]
    split
    · rfl
    · exact checks_poll ..
  | controlSwitches p => exact p.checks_run w.game
  | controlVariables p =>
    simp only [start]
    split <;> rfl
  | _ => rfl

/-- Nothing asks when it is continued. -/
theorem checks_resume (a : Action) (token : Token) (memory : Memory) (w : World η) :
    (a.resume token memory w).world.game.checks = w.game.checks := by
  cases a with
  | showMessage p => exact congrArg GameState.checks (game_pollMessage ..)
  | showChoices p => exact checks_poll ..
  | _ => rfl

end Action

/-- The command is in the phase of its token, and a branch has none. -/
structure Command.Decides (c : Command) (pending : Option Token) : Prop
    extends Command.InPhase c pending where
  decided : c.kind = .conditionalBranch → pending = none

namespace Session

variable {η : Type} [Host η] {c : Command} {pending : Option Token}

/-- A branch does not suspend. -/
theorem kind_of_suspended (h : c.Decides pending) {owner : Owner} {w : World η} {token : Token}
    (hr : (runCommand c pending owner w).result = .ok (.suspended token)) :
    c.kind ≠ .conditionalBranch := by
  intro hkind
  obtain rfl := h.decided hkind
  have hidle : c.phase = .idle := h.phase
  rw [runCommand, Command.execute, if_pos hidle] at hr
  cases haction : c.action with
  | conditionalBranch conditions =>
    rw [haction] at hr
    cases hr
  | _ =>
    rw [Command.kind, haction] at hkind
    cases hkind

/-- The ticks of a command keep that. -/
theorem decides_kept : KeptByTicks Command.Decides where
  disabled h := inPhase_kept.disabled h.toInPhase
  suspended {_ _ c pending owner w _} h he hr := by
    refine ⟨inPhase_kept.suspended h.toInPhase he hr, ?_⟩
    intro hkind
    rw [kind_runCommand] at hkind
    exact absurd hkind (kind_of_suspended h hr)
  reset h := ⟨inPhase_kept.reset h.toInPhase, fun _ => rfl⟩

/-- A tick asks once where it is that of a branch, else not at all. -/
theorem checks_runCommand (h : c.Decides pending) (owner : Owner) (w : World η) :
    (runCommand c pending owner w).world.game.checks =
      w.game.checks + if c.kind = .conditionalBranch then 1 else 0 := by
  cases pending with
  | none =>
    have hidle : c.phase = .idle := h.phase
    rw [runCommand, Command.execute, if_pos hidle]
    exact c.action.checks_start owner c.memory w
  | some token =>
    have hexecuting : c.phase = .executing := h.phase
    have hkind : c.kind ≠ .conditionalBranch := fun hkind => by cases h.decided hkind
    rw [runCommand, Command.resume, if_pos hexecuting, if_neg hkind]
    exact c.action.checks_resume token c.memory w

end Session

end EventScript
