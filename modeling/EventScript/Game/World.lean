import EventScript.Game.State
import EventScript.Host.Basic

/-!
# Worlds

A world is all that a command may touch: the state of the game and the host. Commands of
every session see the same world, and a write is seen by the next reader at once.

Specification: `SPEC_FULL.md` §9 (Collaborator interfaces).
-/

namespace EventScript

/-- The game and its host. -/
structure World (η : Type) where
  game : GameState
  host : η
  deriving Repr

namespace World

variable {η : Type} [Host η]

/-- Hand a diagnostic to the host. -/
def report (w : World η) (d : Diagnostic) : World η := { w with host := Host.report d w.host }

/-- Hand diagnostics to the host in order. -/
def reportAll (w : World η) (ds : List Diagnostic) : World η :=
  { w with host := Host.reportAll ds w.host }

end World

end EventScript
