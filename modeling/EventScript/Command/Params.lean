import EventScript.Command.Action

/-!
# Actions as JSON

The parameters of each kind as a record of its fields. A marker has no parameters and is
written `null`.

Specification: `SPEC_FULL.md` §3 (`from_params`).
-/

namespace EventScript

/-- Operations on switches by name. -/
def SwitchOperation.cases : List (String × SwitchOperation) :=
  [("On", .on), ("Off", .off), ("Toggle", .toggle)]

/-- The name of an operation on switches. -/
def SwitchOperation.name : SwitchOperation → String
  | on => "On"
  | off => "Off"
  | toggle => "Toggle"

/-- Operations on variables by name. -/
def VariableOperation.cases : List (String × VariableOperation) :=
  [("Set", .set), ("Add", .add), ("Sub", .sub), ("Mul", .mul), ("Div", .div), ("Mod", .mod)]

/-- The name of an operation on variables. -/
def VariableOperation.name : VariableOperation → String
  | set => "Set"
  | add => "Add"
  | sub => "Sub"
  | mul => "Mul"
  | div => "Div"
  | mod => "Mod"

/-- Directions of a fade by name. -/
def FadeDirection.cases : List (String × FadeDirection) := [("Out", .outward), ("In", .inward)]

/-- The name of a direction. -/
def FadeDirection.name : FadeDirection → String
  | outward => "Out"
  | inward => "In"

namespace Operand

/-- The operand as JSON. -/
def toJson : Operand → Json
  | constant value => .object [("Constant", .int value.toInt)]
  | .variable name => .object [("Variable", .string name)]

/-- Read an operand. -/
def ofJson? (j : Json) : Option Operand :=
  match j.variant? with
  | some ("Constant", some contents) => contents.int32?.map constant
  | some ("Variable", some contents) => contents.string?.map .variable
  | _ => none

end Operand

namespace ShowMessage

/-- The parameters as JSON. -/
def toJson (p : ShowMessage) : Json :=
  .object [("speaker", .ofOption .string p.speaker), ("text", .string p.text),
    ("wait_for_input", .bool p.waitForInput)]

/-- Read the parameters. -/
def ofJson? (j : Json) : Option ShowMessage := do
  match ← j.slots ["speaker", "text", "wait_for_input"] with
  | [speaker, text, waitForInput] =>
    return { speaker := ← speaker.optional (Json.nullable Json.string?)
             text := ← text.required Json.string?
             waitForInput := ← waitForInput.required Json.bool? }
  | _ => none

end ShowMessage

namespace ShowChoices

/-- The parameters as JSON. -/
def toJson (p : ShowChoices) : Json :=
  .object [("choices", .array (p.choices.map .string)),
    ("result_variable", .string p.resultVariable),
    ("cancel_index", .ofOption (fun n => .int n.toInt) p.cancelIndex)]

/-- Read the parameters. -/
def ofJson? (j : Json) : Option ShowChoices := do
  match ← j.slots ["choices", "result_variable", "cancel_index"] with
  | [choices, resultVariable, cancelIndex] =>
    return { choices := ← choices.required (Json.listOf? Json.string?)
             resultVariable := ← resultVariable.required Json.string?
             cancelIndex := ← cancelIndex.optional (Json.nullable Json.int32?) }
  | _ => none

end ShowChoices

namespace ControlSwitches

/-- The parameters as JSON. -/
def toJson (p : ControlSwitches) : Json :=
  .object [("switches", .array (p.switches.map .string)),
    ("operation", .string p.operation.name)]

/-- Read the parameters. -/
def ofJson? (j : Json) : Option ControlSwitches := do
  match ← j.slots ["switches", "operation"] with
  | [switches, operation] =>
    return { switches := ← switches.required (Json.listOf? Json.string?)
             operation := ← operation.required (Json.enum? SwitchOperation.cases) }
  | _ => none

end ControlSwitches

namespace ControlVariables

/-- The parameters as JSON. -/
def toJson (p : ControlVariables) : Json :=
  .object [("variable", .string p.target), ("operation", .string p.operation.name),
    ("operand", p.operand.toJson)]

/-- Read the parameters. -/
def ofJson? (j : Json) : Option ControlVariables := do
  match ← j.slots ["variable", "operation", "operand"] with
  | [target, operation, operand] =>
    return { target := ← target.required Json.string?
             operation := ← operation.required (Json.enum? VariableOperation.cases)
             operand := ← operand.required Operand.ofJson? }
  | _ => none

end ControlVariables

namespace ControlSelfSwitch

/-- The parameters as JSON. -/
def toJson (p : ControlSelfSwitch) : Json :=
  .object [("name", .string p.name), ("value", .bool p.value)]

/-- Read the parameters. -/
def ofJson? (j : Json) : Option ControlSelfSwitch := do
  match ← j.slots ["name", "value"] with
  | [name, value] =>
    return { name := ← name.required Json.string?, value := ← value.required Json.bool? }
  | _ => none

end ControlSelfSwitch

namespace TransferPlayer

/-- The parameters as JSON. -/
def toJson (p : TransferPlayer) : Json :=
  .object [("map_id", .ofNat p.mapId.toNat), ("x", .int p.x.toInt), ("y", .int p.y.toInt),
    ("fade", .bool p.fade)]

/-- Read the parameters. -/
def ofJson? (j : Json) : Option TransferPlayer := do
  match ← j.slots ["map_id", "x", "y", "fade"] with
  | [mapId, x, y, fade] =>
    return { mapId := ← mapId.required Json.uint32?
             x := ← x.required Json.int32?
             y := ← y.required Json.int32?
             fade := ← fade.required Json.bool? }
  | _ => none

end TransferPlayer

namespace FadeScreen

/-- The parameters as JSON. -/
def toJson (p : FadeScreen) : Json :=
  .object [("direction", .string p.direction.name),
    ("duration_ticks", .ofNat p.durationTicks.toNat), ("wait", .bool p.wait)]

/-- Read the parameters. -/
def ofJson? (j : Json) : Option FadeScreen := do
  match ← j.slots ["direction", "duration_ticks", "wait"] with
  | [direction, durationTicks, wait] =>
    return { direction := ← direction.required (Json.enum? FadeDirection.cases)
             durationTicks := ← durationTicks.required Json.uint32?
             wait := ← wait.required Json.bool? }
  | _ => none

end FadeScreen

namespace ShakeScreen

/-- The parameters as JSON. -/
def toJson (p : ShakeScreen) : Json :=
  .object [("power", .ofNat p.power.toNat), ("speed", .ofNat p.speed.toNat),
    ("duration_ticks", .ofNat p.durationTicks.toNat), ("wait", .bool p.wait)]

/-- Read the parameters. -/
def ofJson? (j : Json) : Option ShakeScreen := do
  match ← j.slots ["power", "speed", "duration_ticks", "wait"] with
  | [power, speed, durationTicks, wait] =>
    return { power := ← power.required Json.uint8?
             speed := ← speed.required Json.uint8?
             durationTicks := ← durationTicks.required Json.uint32?
             wait := ← wait.required Json.bool? }
  | _ => none

end ShakeScreen

namespace Action

/-- Read a record of one field. -/
def field? {α : Type} (name : String) (read : Json → Option α) (j : Json) : Option α := do
  match ← j.slots [name] with
  | [slot] => slot.required read
  | _ => none

/-- The parameters as JSON. -/
def toParams : Action → Json
  | showMessage p => p.toJson
  | showChoices p => p.toJson
  | controlSwitches p => p.toJson
  | controlVariables p => p.toJson
  | controlSelfSwitch p => p.toJson
  | conditionalBranch conditions => .object [("conditions", conditions.toJson)]
  | elseBranch | endIf | loop | breakLoop | endLoop | exitEventProcessing => .null
  | label name => .object [("name", .string name)]
  | jumpToLabel target => .object [("label", .string target)]
  | comment text => .object [("text", .string text)]
  | wait ticks => .object [("ticks", .ofNat ticks.toNat)]
  | transferPlayer p => p.toJson
  | fadeScreen p => p.toJson
  | shakeScreen p => p.toJson

/-- A marker admits `null` alone. -/
def marker? (a : Action) : Json → Option Action
  | .null => some a
  | _ => none

/-- The action of a kind with the parameters of a JSON value (`from_params`). -/
def ofParams? (k : Kind) (j : Json) : Option Action :=
  match k with
  | .showMessage => (ShowMessage.ofJson? j).map showMessage
  | .showChoices => (ShowChoices.ofJson? j).map showChoices
  | .controlSwitches => (ControlSwitches.ofJson? j).map controlSwitches
  | .controlVariables => (ControlVariables.ofJson? j).map controlVariables
  | .controlSelfSwitch => (ControlSelfSwitch.ofJson? j).map controlSelfSwitch
  | .conditionalBranch => (field? "conditions" ConditionSet.ofJson? j).map conditionalBranch
  | .elseBranch => marker? elseBranch j
  | .endIf => marker? endIf j
  | .loop => marker? loop j
  | .breakLoop => marker? breakLoop j
  | .endLoop => marker? endLoop j
  | .label => (field? "name" Json.string? j).map label
  | .jumpToLabel => (field? "label" Json.string? j).map jumpToLabel
  | .exitEventProcessing => marker? exitEventProcessing j
  | .comment => (field? "text" Json.string? j).map comment
  | .wait => (field? "ticks" Json.uint32? j).map wait
  | .transferPlayer => (TransferPlayer.ofJson? j).map transferPlayer
  | .fadeScreen => (FadeScreen.ofJson? j).map fadeScreen
  | .shakeScreen => (ShakeScreen.ofJson? j).map shakeScreen

end Action

end EventScript
