import EventScript.Blob.Codec
import EventScript.Command.Action

/-!
# Actions as blobs

The binary form of the parameters of each kind: the fields in declaration order. The
kind itself is not part of the blob, and bytes after the last field are ignored.

Specification: `SPEC_FULL.md` §2 (parameters of a descriptor).
-/

namespace EventScript

/-- Operations on switches by index. -/
def SwitchOperation.codec : Codec SwitchOperation := .oneOf [.on, .off, .toggle]

/-- Operations on variables by index. -/
def VariableOperation.codec : Codec VariableOperation :=
  .oneOf [.set, .add, .sub, .mul, .div, .mod]

/-- Directions of a fade by index. -/
def FadeDirection.codec : Codec FadeDirection := .oneOf [.outward, .inward]

/-- Comparisons by index. -/
def Comparison.codec : Codec Comparison :=
  .oneOf [.equal, .notEqual, .greater, .greaterOrEqual, .less, .lessOrEqual]

/-- Modes of a condition set by index. -/
def ConditionMode.codec : Codec ConditionMode := .oneOf [.all, .any]

/-- An operand: its variant and its value. -/
def Operand.codec : Codec Operand where
  write
    | .constant value => Codec.index.write 0 ++ Codec.int32.write value
    | .variable name => Codec.index.write 1 ++ Codec.string.write name
  read bytes :=
    Codec.continueWith (Codec.index.read bytes) fun i rest =>
      match i with
      | 0 => (Codec.int32.convert Operand.constant fun _ => 0).read rest
      | 1 => (Codec.string.convert Operand.variable fun _ => "").read rest
      | i => .error (.invalidVariant i 2)

namespace Condition

/-- A name and the value expected of it. -/
def expectedCodec : Codec (String × Bool) := Codec.string.seq Codec.bool

/-- A name, a comparison and a value. -/
def comparisonCodec : Codec (String × Comparison × Int32) :=
  Codec.string.seq (Comparison.codec.seq Codec.int32)

/-- A condition: its variant and its fields. -/
def codec : Codec Condition where
  write
    | switch name expected => Codec.index.write 0 ++ expectedCodec.write (name, expected)
    | .variable name comparison value =>
      Codec.index.write 1 ++ comparisonCodec.write (name, comparison, value)
    | selfSwitch name expected => Codec.index.write 2 ++ expectedCodec.write (name, expected)
  read bytes :=
    Codec.continueWith (Codec.index.read bytes) fun i rest =>
      match i with
      | 0 => Codec.continueWith (expectedCodec.read rest) fun r rest =>
        .ok (switch r.1 r.2, rest)
      | 1 => Codec.continueWith (comparisonCodec.read rest) fun r rest =>
        .ok (.variable r.1 r.2.1 r.2.2, rest)
      | 2 => Codec.continueWith (expectedCodec.read rest) fun r rest =>
        .ok (selfSwitch r.1 r.2, rest)
      | i => .error (.invalidVariant i 3)

end Condition

/-- A condition set. -/
def ConditionSet.codec : Codec ConditionSet :=
  ((Codec.list Condition.codec).seq ConditionMode.codec).convert
    (fun r => ⟨r.1, r.2⟩) (fun s => (s.conditions, s.mode))

/-- A message. -/
def ShowMessage.codec : Codec ShowMessage :=
  (Codec.string.option.seq (Codec.string.seq Codec.bool)).convert
    (fun r => ⟨r.1, r.2.1, r.2.2⟩) (fun p => (p.speaker, p.text, p.waitForInput))

/-- A prompt. -/
def ShowChoices.codec : Codec ShowChoices :=
  ((Codec.list Codec.string).seq (Codec.string.seq Codec.int32.option)).convert
    (fun r => ⟨r.1, r.2.1, r.2.2⟩) (fun p => (p.choices, p.resultVariable, p.cancelIndex))

/-- A batch of switches. -/
def ControlSwitches.codec : Codec ControlSwitches :=
  ((Codec.list Codec.string).seq SwitchOperation.codec).convert
    (fun r => ⟨r.1, r.2⟩) (fun p => (p.switches, p.operation))

/-- An update of a variable. -/
def ControlVariables.codec : Codec ControlVariables :=
  (Codec.string.seq (VariableOperation.codec.seq Operand.codec)).convert
    (fun r => ⟨r.1, r.2.1, r.2.2⟩) (fun p => (p.target, p.operation, p.operand))

/-- A self switch. -/
def ControlSelfSwitch.codec : Codec ControlSelfSwitch :=
  (Codec.string.seq Codec.bool).convert (fun r => ⟨r.1, r.2⟩) (fun p => (p.name, p.value))

/-- A transfer. -/
def TransferPlayer.codec : Codec TransferPlayer :=
  (Codec.uint32.seq (Codec.int32.seq (Codec.int32.seq Codec.bool))).convert
    (fun r => ⟨r.1, r.2.1, r.2.2.1, r.2.2.2⟩) (fun p => (p.mapId, p.x, p.y, p.fade))

/-- A fade. -/
def FadeScreen.codec : Codec FadeScreen :=
  (FadeDirection.codec.seq (Codec.uint32.seq Codec.bool)).convert
    (fun r => ⟨r.1, r.2.1, r.2.2⟩) (fun p => (p.direction, p.durationTicks, p.wait))

/-- A shake. -/
def ShakeScreen.codec : Codec ShakeScreen :=
  (Codec.uint8.seq (Codec.uint8.seq (Codec.uint32.seq Codec.bool))).convert
    (fun r => ⟨r.1, r.2.1, r.2.2.1, r.2.2.2⟩)
    (fun p => (p.power, p.speed, p.durationTicks, p.wait))

namespace Action

/-- The blob of the parameters. -/
def encode : Action → List UInt8
  | showMessage p => ShowMessage.codec.write p
  | showChoices p => ShowChoices.codec.write p
  | controlSwitches p => ControlSwitches.codec.write p
  | controlVariables p => ControlVariables.codec.write p
  | controlSelfSwitch p => ControlSelfSwitch.codec.write p
  | conditionalBranch conditions => ConditionSet.codec.write conditions
  | elseBranch | endIf | loop | breakLoop | endLoop | exitEventProcessing => []
  | label name => Codec.string.write name
  | jumpToLabel target => Codec.string.write target
  | comment text => Codec.string.write text
  | wait ticks => Codec.uint32.write ticks
  | transferPlayer p => TransferPlayer.codec.write p
  | fadeScreen p => FadeScreen.codec.write p
  | shakeScreen p => ShakeScreen.codec.write p

/-- The value at the front of a blob, as an action. -/
def front {α : Type} (c : Codec α) (make : α → Action) (bytes : List UInt8) :
    Except BlobDefect Action :=
  match c.read bytes with
  | .ok (a, _) => .ok (make a)
  | .error e => .error e

/-- The action of a kind with the parameters of a blob. -/
def decode (k : Kind) (bytes : List UInt8) : Except BlobDefect Action :=
  match k with
  | .showMessage => front ShowMessage.codec showMessage bytes
  | .showChoices => front ShowChoices.codec showChoices bytes
  | .controlSwitches => front ControlSwitches.codec controlSwitches bytes
  | .controlVariables => front ControlVariables.codec controlVariables bytes
  | .controlSelfSwitch => front ControlSelfSwitch.codec controlSelfSwitch bytes
  | .conditionalBranch => front ConditionSet.codec conditionalBranch bytes
  | .elseBranch => .ok elseBranch
  | .endIf => .ok endIf
  | .loop => .ok loop
  | .breakLoop => .ok breakLoop
  | .endLoop => .ok endLoop
  | .label => front Codec.string label bytes
  | .jumpToLabel => front Codec.string jumpToLabel bytes
  | .exitEventProcessing => .ok exitEventProcessing
  | .comment => front Codec.string comment bytes
  | .wait => front Codec.uint32 wait bytes
  | .transferPlayer => front TransferPlayer.codec transferPlayer bytes
  | .fadeScreen => front FadeScreen.codec fadeScreen bytes
  | .shakeScreen => front ShakeScreen.codec shakeScreen bytes

end Action

end EventScript
