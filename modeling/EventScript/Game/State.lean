import EventScript.Game.Condition
import EventScript.Owner
import EventScript.Table

/-!
# State of the game

Switches and variables that commands read and write. An unset variable reads as zero and
an unset switch as off. The state counts the condition sets it was asked for, and a list
of outcomes fixed in advance may take the place of evaluation.

Specification: `SPEC_FULL.md` §9 (the game state and its in-memory implementation).
-/

namespace EventScript

/-- Switches and variables shared by every session of a game (`InMemoryGameState`). -/
structure GameState where
  vars : Table String Int32 := .empty
  switches : Table String Bool := .empty
  selfSwitches : Table (Owner × String) Bool := .empty
  /-- Number of condition sets evaluated so far. -/
  checks : Nat := 0
  /-- Outcomes that replace the evaluation of condition sets. -/
  foretold : Option (List Bool) := none
  deriving DecidableEq, Repr, Inhabited

namespace GameState

/-- The value of a variable. -/
def getVariable (g : GameState) (name : String) : Int32 := g.vars.findD name 0

/-- Set a variable. -/
def setVariable (g : GameState) (name : String) (value : Int32) : GameState :=
  { g with vars := g.vars.insert name value }

/-- The position of a switch. -/
def getSwitch (g : GameState) (name : String) : Bool := g.switches.findD name false

/-- Set a switch. -/
def setSwitch (g : GameState) (name : String) (value : Bool) : GameState :=
  { g with switches := g.switches.insert name value }

/-- The position of a self switch of an event. -/
def getSelfSwitch (g : GameState) (owner : Owner) (name : String) : Bool :=
  g.selfSwitches.findD (owner, name) false

/-- Set a self switch of an event. -/
def setSelfSwitch (g : GameState) (owner : Owner) (name : String) (value : Bool) : GameState :=
  { g with selfSwitches := g.selfSwitches.insert (owner, name) value }

/-- A condition holds for an event. -/
def holds (g : GameState) (owner : Owner) : Condition → Bool
  | .switch name expected => g.getSwitch name == expected
  | .variable name comparison value => comparison.compare (g.getVariable name) value
  | .selfSwitch name expected => g.getSelfSwitch owner name == expected

/-- Decide a condition set for a branch that an event enters (`evaluate_conditions`). -/
def evaluate (g : GameState) (owner : Owner) (set : ConditionSet) : Bool × GameState :=
  let g := { g with checks := g.checks + 1 }
  match g.foretold with
  | none => (set.evaluate (g.holds owner), g)
  | some [] => (false, g)
  | some (outcome :: rest) => (outcome, { g with foretold := some rest })

end GameState

end EventScript
