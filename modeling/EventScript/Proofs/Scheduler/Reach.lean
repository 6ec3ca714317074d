import EventScript.Proofs.Scheduler.Turn

/-!
# Where calls lead a scheduler

`Scheduler.Reaches` closes a scheduler under its calls, in any order, and under what others
do to the game, the host and the factory between two calls. It keeps account of the turns
that sessions have had. `Scheduler.Kept` names what has to be checked of a property for it to
hold in every state: all calls come down to starts, stops, pauses and single turns.
-/

namespace EventScript

namespace Scheduler

/-- A call that may change a scheduler. -/
inductive Operation where
  | spawn (owner : Owner) (ds : List Descriptor)
  | stop (id : SessionId)
  | stopAll
  | pause (id : SessionId)
  | resume (id : SessionId)
  | tick
  | runUntilIdle (maxTicks : Nat)

variable {η : Type} [Host η]

/-- The scheduler after a call. -/
def perform (s : Scheduler η) : Operation → Scheduler η
  | .spawn owner ds => (s.spawn owner ds).2
  | .stop id => (s.stop id).2
  | .stopAll => s.stopAll
  | .pause id => (s.pause id).2
  | .resume id => (s.resume id).2
  | .tick => s.tick.2
  | .runUntilIdle maxTicks => (s.runUntilIdle maxTicks).2

/-- The turns of at most `budget` ticks, as long as a session is left. -/
def turnsFor (s : Scheduler η) : Nat → List (Turn η)
  | 0 => []
  | budget + 1 => if s.isIdle then [] else s.turns ++ s.tick.2.turnsFor budget

/-- The turns that a call brings. -/
def turnsOf (s : Scheduler η) : Operation → List (Turn η)
  | .tick => s.turns
  | .runUntilIdle maxTicks => s.turnsFor maxTicks
  | .spawn _ _ | .stop _ | .stopAll | .pause _ | .resume _ => []

/-- Where calls lead, with the turns of sessions on the way. Between two calls, others may
change the services as `outside` says. -/
inductive Reaches (outside : Services η → Services η → Prop) (s : Scheduler η) :
    List (Turn η) → Scheduler η → Prop
  | refl : Reaches outside s [] s
  | perform {ts : List (Turn η)} {t : Scheduler η} (o : Operation) :
    Reaches outside s ts t → Reaches outside s (ts ++ t.turnsOf o) (t.perform o)
  | outside {ts : List (Turn η)} {t : Scheduler η} {services : Services η}
    (h : outside t.services services) :
    Reaches outside s ts t → Reaches outside s ts { t with services }

/-- A property of a scheduler and of the turns so far that everything keeps. -/
structure Kept (outside : Services η → Services η → Prop)
    (P : List (Turn η) → Scheduler η → Prop) : Prop where
  outside {ts : List (Turn η)} {s : Scheduler η} {services : Services η}
    (h : outside s.services services) : P ts s → P ts { s with services }
  clock {ts : List (Turn η)} {s : Scheduler η} (n : Nat) : P ts s → P ts { s with ticks := n }
  spawn {ts : List (Turn η)} {s : Scheduler η} (owner : Owner) (ds : List Descriptor) :
    P ts s → P ts (s.spawn owner ds).2
  stop {ts : List (Turn η)} {s : Scheduler η} (id : SessionId) : P ts s → P ts (s.stop id).2
  setPaused {ts : List (Turn η)} {s : Scheduler η} (id : SessionId) (paused : Bool) :
    P ts s → P ts (s.modify id fun i => i.setPaused paused).2
  turn {ts : List (Turn η)} {s s' : Scheduler η} {t : Turn η} (h : s.Turned t s') :
    P ts s → P (ts ++ [t]) s'

namespace Kept

variable {outside : Services η → Services η → Prop} {P : List (Turn η) → Scheduler η → Prop}
  {s : Scheduler η} {ts : List (Turn η)}

/-- A tick keeps what everything keeps. -/
theorem tick (hk : Kept outside P) (h : P ts s) : P (ts ++ s.turns) s.tick.2 :=
  tick_induction hk.clock hk.turn h

/-- So do all stops. -/
theorem stopAll (hk : Kept outside P) (h : P ts s) : P ts s.stopAll := by
  unfold Scheduler.stopAll
  generalize s.sessions = l
  induction l generalizing s with
  | nil => exact h
  | cons e rest ih => exact ih (hk.stop e.1 h)

/-- So do the ticks up to the end of all sessions. -/
theorem runFor (hk : Kept outside P) (total budget : Nat) (h : P ts s) :
    P (ts ++ s.turnsFor budget) (s.runFor total budget).2 := by
  induction budget generalizing s ts with
  | zero =>
    rw [turnsFor, List.append_nil, Scheduler.runFor]
    split <;> exact h
  | succ budget ih =>
    rw [turnsFor, Scheduler.runFor]
    split
    · rwa [List.append_nil]
    · have hlater := ih (hk.tick h)
      rw [List.append_assoc] at hlater
      dsimp only
      split <;> next hr => rw [hr] at hlater; exact hlater

/-- So does every call. -/
theorem perform (hk : Kept outside P) (o : Operation) (h : P ts s) :
    P (ts ++ s.turnsOf o) (s.perform o) := by
  cases o with
  | tick => exact hk.tick h
  | runUntilIdle maxTicks => exact hk.runFor maxTicks maxTicks h
  | spawn owner ds => rw [turnsOf, List.append_nil]; exact hk.spawn owner ds h
  | stop id => rw [turnsOf, List.append_nil]; exact hk.stop id h
  | stopAll => rw [turnsOf, List.append_nil]; exact hk.stopAll h
  | pause id => rw [turnsOf, List.append_nil]; exact hk.setPaused id true h
  | resume id => rw [turnsOf, List.append_nil]; exact hk.setPaused id false h

/-- What everything keeps holds wherever calls lead. -/
theorem of_reaches (hk : Kept outside P) {t : Scheduler η} (h : P [] s)
    (hr : s.Reaches outside ts t) : P ts t := by
  induction hr with
  | refl => exact h
  | perform o _ ih => exact hk.perform o ih
  | outside h _ ih => exact hk.outside h ih

end Kept

end Scheduler

end EventScript
