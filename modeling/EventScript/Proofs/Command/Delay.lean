import EventScript.Proofs.Command.Failing

/-!
# Delays

A wait, and a screen effect that is waited for, count down one tick after the other. What is left
of the countdown stands in the token alone, so it is the delay of the action before the first tick
and the token afterwards. The effect is requested in the first tick and nothing is asked of the
host later.
-/

namespace EventScript

/-- An action that may wait for a number of ticks. -/
def Action.counts : Action → Bool
  | .wait _ | .fadeScreen _ | .shakeScreen _ => true
  | _ => false

namespace Action

/-- The ticks that an action waits for after its first one. -/
def delay : Action → Nat
  | wait ticks => ticks.toNat
  | fadeScreen p => if p.wait then p.durationTicks.toNat else 0
  | shakeScreen p => if p.wait then p.durationTicks.toNat else 0
  | _ => 0

/-- The screen effect that an action requests. -/
def effect? : Action → Option ScreenEffect
  | fadeScreen p => some (.fade p.direction p.durationTicks)
  | shakeScreen p => some (.shake p.power p.speed p.durationTicks)
  | _ => none

/-- The ticks that are left for an action to wait for, before it starts and with its token. -/
def left (a : Action) : Option Token → Nat
  | none => a.delay
  | some token => token

end Action

/-- What is left when a countdown is continued is treated like what there was at its start. -/
theorem continueCountdown_eq (token : Token) : continueCountdown token = countdown token := by
  cases token <;> rfl

section

variable {η : Type} [Host η]

/-- The world after a screen effect was requested, if there was one. -/
def World.requesting (w : World η) : Option ScreenEffect → World η
  | none => w
  | some effect => { w with host := Host.screenEffect effect w.host }

/-- A request does not touch the game. -/
@[simp] theorem World.game_requesting (w : World η) (effect : Option ScreenEffect) :
    (w.requesting effect).game = w.game := by
  cases effect <;> rfl

/-- The request of an action in a tick: all of it in the first one. -/
def Action.request? (a : Action) : Option Token → Option ScreenEffect
  | none => a.effect?
  | some _ => none

namespace Action

variable {a : Action}

/-- A counting action requests its effect and starts to count. -/
theorem start_of_counts (h : a.counts = true) (owner : Owner) (memory : Memory) (w : World η) :
    a.start owner memory w = ⟨.ok (countdown a.delay), memory, w.requesting a.effect?⟩ := by
  cases a with
  | wait ticks => rfl
  | fadeScreen p =>
    obtain ⟨direction, durationTicks, wait⟩ := p
    cases wait <;> rfl
  | shakeScreen p =>
    obtain ⟨power, speed, durationTicks, wait⟩ := p
    cases wait <;> rfl
  | _ => cases h

/-- Later it counts on. -/
theorem resume_of_counts (h : a.counts = true) (token : Token) (memory : Memory) (w : World η) :
    a.resume token memory w = ⟨.ok (countdown token), memory, w⟩ := by
  cases a with
  | wait | fadeScreen | shakeScreen =>
    rw [resume, continueCountdown_eq]
  | _ => cases h

/-- A counting action wants the next command. -/
theorem motion_of_counts (h : a.counts = true) (memory : Memory) : a.motion memory = .next := by
  cases a with
  | wait | fadeScreen | shakeScreen => rfl
  | _ => cases h

end Action

namespace Session

variable {c : Command} {pending : Option Token}

/-- A tick of a counting command in its phase takes one off what is left. -/
theorem runCommand_of_counts (hphase : c.InPhase pending) (h : c.action.counts = true)
    (owner : Owner) (w : World η) :
    runCommand c pending owner w = c.settle ⟨.ok (countdown (c.action.left pending)), c.memory,
      w.requesting (c.action.request? pending)⟩ := by
  cases pending with
  | none =>
    have hidle : c.phase = .idle := hphase.phase
    rw [runCommand, Command.execute, if_pos hidle, Action.start_of_counts h]
    rfl
  | some token =>
    have hexecuting : c.phase = .executing := hphase.phase
    rw [runCommand, Command.resume, if_pos hexecuting, Action.resume_of_counts h]
    rfl

end Session

end

end EventScript
