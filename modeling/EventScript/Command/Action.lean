import EventScript.Command.Kind
import EventScript.Game.Condition

/-!
# Actions

An action is a command as it is written: its kind with the parameters of that kind. What
a command remembers while it runs is kept apart from it, so running never touches an
action. The defaults of the fields are the parameters of an entry that gives none.

Specification: `SPEC_FULL.md` §2.1 (Variant set).
-/

namespace EventScript

/-- Which way a fade goes. -/
inductive FadeDirection where
  /-- The picture disappears. -/
  | outward
  /-- The picture comes back. -/
  | inward
  deriving DecidableEq, Repr, Inhabited

/-- What happens to the switches of a batch. -/
inductive SwitchOperation where
  | on
  | off
  | toggle
  deriving DecidableEq, Repr, Inhabited

/-- The new position of a switch. -/
def SwitchOperation.apply : SwitchOperation → Bool → Bool
  | on, _ => true
  | off, _ => false
  | toggle, current => !current

/-- How a variable is updated. -/
inductive VariableOperation where
  | set
  | add
  | sub
  | mul
  | div
  | mod
  deriving DecidableEq, Repr, Inhabited

/-- The right-hand side of an update. -/
inductive Operand where
  | constant (value : Int32)
  | variable (name : String)
  deriving DecidableEq, Repr

instance : Inhabited Operand := ⟨.constant 0⟩

/-- Open a message window, and hold the program until it is closed if asked to. -/
structure ShowMessage where
  speaker : Option String := none
  text : String := ""
  waitForInput : Bool := false
  deriving DecidableEq, Repr, Inhabited

/-- Offer choices and store the index of the chosen one. -/
structure ShowChoices where
  choices : List String := []
  resultVariable : String := ""
  /-- What a cancelled prompt stores; `-1` where there is none. -/
  cancelIndex : Option Int32 := none
  deriving DecidableEq, Repr, Inhabited

/-- Apply one operation to a batch of switches. -/
structure ControlSwitches where
  switches : List String := []
  operation : SwitchOperation := .on
  deriving DecidableEq, Repr, Inhabited

/-- Update one variable. -/
structure ControlVariables where
  target : String := ""
  operation : VariableOperation := .set
  operand : Operand := .constant 0
  deriving DecidableEq, Repr, Inhabited

/-- Set a self switch of the owning event. -/
structure ControlSelfSwitch where
  name : String := ""
  value : Bool := false
  deriving DecidableEq, Repr, Inhabited

/-- Move the player to another place. -/
structure TransferPlayer where
  mapId : UInt32 := 0
  x : Int32 := 0
  y : Int32 := 0
  fade : Bool := false
  deriving DecidableEq, Repr, Inhabited

/-- Fade the screen. -/
structure FadeScreen where
  direction : FadeDirection := .outward
  durationTicks : UInt32 := 0
  /-- Hold the program until the fade is over. -/
  wait : Bool := false
  deriving DecidableEq, Repr, Inhabited

/-- Shake the screen. -/
structure ShakeScreen where
  power : UInt8 := 0
  speed : UInt8 := 0
  durationTicks : UInt32 := 0
  /-- Hold the program until the shaking is over. -/
  wait : Bool := false
  deriving DecidableEq, Repr, Inhabited

/-- A command as it is written. -/
inductive Action where
  | showMessage (p : ShowMessage)
  | showChoices (p : ShowChoices)
  | controlSwitches (p : ControlSwitches)
  | controlVariables (p : ControlVariables)
  | controlSelfSwitch (p : ControlSelfSwitch)
  | conditionalBranch (conditions : ConditionSet)
  | elseBranch
  | endIf
  | loop
  | breakLoop
  | endLoop
  | label (name : String)
  | jumpToLabel (label : String)
  | exitEventProcessing
  | comment (text : String)
  | wait (ticks : UInt32)
  | transferPlayer (p : TransferPlayer)
  | fadeScreen (p : FadeScreen)
  | shakeScreen (p : ShakeScreen)
  deriving DecidableEq, Repr

namespace Action

/-- The kind of an action. -/
def kind : Action → Kind
  | showMessage _ => .showMessage
  | showChoices _ => .showChoices
  | controlSwitches _ => .controlSwitches
  | controlVariables _ => .controlVariables
  | controlSelfSwitch _ => .controlSelfSwitch
  | conditionalBranch _ => .conditionalBranch
  | elseBranch => .elseBranch
  | endIf => .endIf
  | loop => .loop
  | breakLoop => .breakLoop
  | endLoop => .endLoop
  | label _ => .label
  | jumpToLabel _ => .jumpToLabel
  | exitEventProcessing => .exitEventProcessing
  | comment _ => .comment
  | wait _ => .wait
  | transferPlayer _ => .transferPlayer
  | fadeScreen _ => .fadeScreen
  | shakeScreen _ => .shakeScreen

/-- The action of a kind with the parameters of an entry that gives none. -/
def default : Kind → Action
  | .showMessage => showMessage {}
  | .showChoices => showChoices {}
  | .controlSwitches => controlSwitches {}
  | .controlVariables => controlVariables {}
  | .controlSelfSwitch => controlSelfSwitch {}
  | .conditionalBranch => conditionalBranch {}
  | .elseBranch => elseBranch
  | .endIf => endIf
  | .loop => loop
  | .breakLoop => breakLoop
  | .endLoop => endLoop
  | .label => label ""
  | .jumpToLabel => jumpToLabel ""
  | .exitEventProcessing => exitEventProcessing
  | .comment => comment ""
  | .wait => wait 0
  | .transferPlayer => transferPlayer {}
  | .fadeScreen => fadeScreen {}
  | .shakeScreen => shakeScreen {}

/-- The default action of a kind has that kind. -/
@[simp] theorem kind_default (k : Kind) : (default k).kind = k := by
  cases k <;> rfl

end Action

/-! ### Actions an author starts from -/

/-- A message that waits for the player. -/
def ShowMessage.waiting (text : String) : ShowMessage := { text, waitForInput := true }

/-- A fade that holds the program. -/
def FadeScreen.waiting (direction : FadeDirection) (durationTicks : UInt32) : FadeScreen :=
  { direction, durationTicks, wait := true }

/-- A shake that does not hold the program. -/
def ShakeScreen.passing (power speed : UInt8) (durationTicks : UInt32) : ShakeScreen :=
  { power, speed, durationTicks }

/-- A transfer with a fade. -/
def TransferPlayer.fading (mapId : UInt32) (x y : Int32) : TransferPlayer :=
  { mapId, x, y, fade := true }

end EventScript
