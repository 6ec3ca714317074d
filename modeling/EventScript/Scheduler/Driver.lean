import EventScript.Scheduler.Basic

/-!
# Tick drivers

A driver ticks a scheduler at a fixed period, the first time at once. It ends when it is
told to, or also after the first tick that leaves no session.

Specification: `SPEC_FULL.md` §10 (the tick driver).
-/

namespace EventScript

/-- When a driver ends on its own. -/
inductive DriverMode where
  | untilShutdown
  /-- After the first tick that leaves no session. -/
  | untilIdle
  deriving DecidableEq, Repr

/-- Ticks driven, whether the driver ended on its own, and the scheduler after them. -/
structure Driven (η : Type) where
  ticks : Nat
  finished : Bool
  scheduler : Scheduler η

namespace Scheduler

variable {η : Type} [Host η]

/-- Drive a scheduler for at most `budget` ticks. -/
def drive (mode : DriverMode) (s : Scheduler η) : Nat → Driven η
  | 0 => ⟨0, false, s⟩
  | budget + 1 =>
    let (_, s) := s.tick
    if mode = .untilIdle ∧ s.isIdle then ⟨1, true, s⟩
    else
      let later := drive mode s budget
      { later with ticks := later.ticks + 1 }

/-- Drive a scheduler at a period and shut the driver down at a time between two ticks,
both in milliseconds. -/
def driveUntil (mode : DriverMode) (s : Scheduler η) (period shutdown : Nat) : Driven η :=
  s.drive mode ((shutdown + period - 1) / period)

end Scheduler

end EventScript
