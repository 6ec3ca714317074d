import EventScript.Command.Error
import EventScript.Game.World

/-!
# Performing an action

An action is started once and continued on later ticks until it completes or fails.
What it remembers between ticks is its `Memory`: the message or prompt that it opened,
or the outcome of the branch that it decided. A suspended action hands out a token and
gets it back when it is continued; a countdown keeps the ticks left in it, a message or
prompt its handle.

A failing action leaves the game as it was.

Specification: `SPEC_FULL.md` §2.1 (behaviour of the variants) and §4 (`execute`, `resume`,
`abort`).
-/

namespace EventScript

/-- What a suspended action wants back (`ResumeToken`). -/
abbrev Token := Nat

/-- What one tick brought (`Progress`). -/
inductive Progress where
  | suspended (token : Token)
  | completed
  deriving DecidableEq, Repr

/-- What a command remembers while it runs. -/
structure Memory where
  /-- The open message or prompt. -/
  handle : Option Handle := none
  /-- The outcome of a branch. -/
  outcome : Option Bool := none
  deriving DecidableEq, Repr, Inhabited

/-- Nothing remembered. -/
def Memory.clear : Memory := {}

/-- What a completed command wants of the cursor (`FlowControl`). -/
inductive Motion where
  /-- Go on with the next command. -/
  | next
  /-- Go past the matching `else` or `end_if`. -/
  | skipFalseBranch
  /-- Go past the `end_if` of this `else`. -/
  | skipToEndIf
  /-- Enter a loop. -/
  | enterLoop
  /-- Leave the innermost running loop. -/
  | breakLoop
  /-- Go back to the first command of the loop. -/
  | endLoop
  /-- Go past the label. -/
  | jump (label : String)
  /-- End the session. -/
  | halt
  deriving DecidableEq, Repr

/-- One tick of an action: its result, its memory and the world after it. -/
structure Performed (η : Type) where
  result : Except CommandError Progress
  memory : Memory
  world : World η

/-! ### Arithmetic -/

/-- The operation divides. -/
def VariableOperation.divides : VariableOperation → Bool
  | div | mod => true
  | _ => false

/-- The 32-bit value nearest to a 64-bit one. -/
def narrow (n : Int64) : Int32 :=
  if n < Int32.minValue.toInt64 then Int32.minValue
  else if Int32.maxValue.toInt64 < n then Int32.maxValue
  else n.toInt32

/-- An operation in 64 bits, where it does not overflow, and back to 32. -/
def saturating (f : Int64 → Int64 → Int64) (a b : Int32) : Int32 :=
  narrow (f a.toInt64 b.toInt64)

/-- The new value of the target. A quotient goes toward zero and saturates like the other
results; a remainder is taken in 32 bits. -/
def VariableOperation.apply (op : VariableOperation) (current operand : Int32) : Int32 :=
  match op with
  | set => operand
  | add => saturating (· + ·) current operand
  | sub => saturating (· - ·) current operand
  | mul => saturating (· * ·) current operand
  | div => saturating (· / ·) current operand
  | mod => current % operand

/-- The new value of the target, unless a division has no result. -/
def ControlVariables.compute (p : ControlVariables) (current operand : Int32) :
    Except CommandError Int32 :=
  if p.operation.divides && operand == 0 then .error (.divisionByZero p.target)
  else .ok (p.operation.apply current operand)

/-- The value of an operand. -/
def Operand.value (g : GameState) : Operand → Int32
  | constant value => value
  | .variable name => g.getVariable name

/-! ### Countdowns -/

/-- Start to wait for `n` more ticks. -/
def countdown (n : Nat) : Progress :=
  match n with
  | 0 => .completed
  | left + 1 => .suspended left

/-- Go on waiting with `token` ticks left. -/
def continueCountdown (token : Token) : Progress :=
  match token with
  | 0 => .completed
  | left + 1 => .suspended left

/-! ### Steps of single actions -/

section

variable {η : Type} [Host η]

/-- Complete if the message is closed, else wait for it. -/
def pollMessage (handle : Handle) (memory : Memory) (w : World η) : Performed η :=
  let (closed, host) := Host.messageClosed handle w.host
  if closed then ⟨.ok .completed, { memory with handle := none }, { w with host }⟩
  else ⟨.ok (.suspended handle), { memory with handle := some handle }, { w with host }⟩

/-- The value that an answer stores. -/
def ShowChoices.valueOf (p : ShowChoices) : ChoiceAnswer → Except CommandError Int32
  | .selected index =>
    if index < p.choices.length then
      if index ≤ 0x7FFF_FFFF then .ok (Int32.ofInt index) else .error (.choiceOutOfRange index)
    else .error (.noSuchChoice index p.choices.length)
  | .cancelled => .ok (p.cancelIndex.getD (-1))

/-- Store the answer if there is one, else wait for it. -/
def ShowChoices.poll (p : ShowChoices) (handle : Handle) (memory : Memory) (w : World η) :
    Performed η :=
  let (answer, host) := Host.choiceAnswer handle w.host
  let w := { w with host }
  match answer with
  | none => ⟨.ok (.suspended handle), { memory with handle := some handle }, w⟩
  | some answer =>
    let memory := { memory with handle := none }
    match p.valueOf answer with
    | .ok value =>
      ⟨.ok .completed, memory, { w with game := w.game.setVariable p.resultVariable value }⟩
    | .error e => ⟨.error e, memory, w⟩

/-- Apply the operation to every switch in order. -/
def ControlSwitches.run (p : ControlSwitches) (g : GameState) : GameState :=
  p.switches.foldl (fun g name => g.setSwitch name (p.operation.apply (g.getSwitch name))) g

/-- Request a screen effect, and wait for `ticks` if asked to. -/
def performEffect (effect : ScreenEffect) (wait : Bool) (ticks : UInt32) (memory : Memory)
    (w : World η) : Performed η :=
  let w := { w with host := Host.screenEffect effect w.host }
  ⟨.ok (if wait then countdown ticks.toNat else .completed), memory, w⟩

end

namespace Action

variable {η : Type} [Host η]

/-- Start an action on behalf of `owner`. -/
def start (a : Action) (owner : Owner) (memory : Memory) (w : World η) : Performed η :=
  match a with
  | showMessage p =>
    let (handle, host) := Host.showMessage ⟨owner, p.speaker, p.text⟩ w.host
    let w := { w with host }
    if p.waitForInput then pollMessage handle memory w else ⟨.ok .completed, memory, w⟩
  | showChoices p =>
    if p.choices.isEmpty then ⟨.error .noChoices, memory, w⟩
    else
      let (handle, host) :=
        Host.showChoices ⟨owner, p.choices, p.cancelIndex.isSome⟩ w.host
      p.poll handle memory { w with host }
  | controlSwitches p => ⟨.ok .completed, memory, { w with game := p.run w.game }⟩
  | controlVariables p =>
    match p.compute (w.game.getVariable p.target) (p.operand.value w.game) with
    | .ok value =>
      ⟨.ok .completed, memory, { w with game := w.game.setVariable p.target value }⟩
    | .error e => ⟨.error e, memory, w⟩
  | controlSelfSwitch p =>
    ⟨.ok .completed, memory, { w with game := w.game.setSelfSwitch owner p.name p.value }⟩
  | conditionalBranch conditions =>
    let (outcome, game) := w.game.evaluate owner conditions
    ⟨.ok .completed, { memory with outcome := some outcome }, { w with game }⟩
  | wait ticks => ⟨.ok (countdown ticks.toNat), memory, w⟩
  | transferPlayer p =>
    let request := ⟨owner, p.mapId, p.x, p.y, p.fade⟩
    ⟨.ok .completed, memory, { w with host := Host.transferPlayer request w.host }⟩
  | fadeScreen p =>
    performEffect (.fade p.direction p.durationTicks) p.wait p.durationTicks memory w
  | shakeScreen p =>
    performEffect (.shake p.power p.speed p.durationTicks) p.wait p.durationTicks memory w
  | elseBranch | endIf | loop | breakLoop | endLoop | label _ | jumpToLabel _
  | exitEventProcessing | comment _ => ⟨.ok .completed, memory, w⟩

/-- Continue a suspended action with its token. -/
def resume (a : Action) (token : Token) (memory : Memory) (w : World η) : Performed η :=
  match a with
  | showMessage _ => pollMessage token memory w
  | showChoices p => p.poll token memory w
  | wait _ | fadeScreen _ | shakeScreen _ => ⟨.ok (continueCountdown token), memory, w⟩
  | _ => ⟨.ok .completed, memory, w⟩

/-- What a completed action wants of the cursor. -/
def motion (a : Action) (memory : Memory) : Motion :=
  match a with
  | conditionalBranch _ => if memory.outcome = some false then .skipFalseBranch else .next
  | elseBranch => .skipToEndIf
  | loop => .enterLoop
  | breakLoop => .breakLoop
  | endLoop => .endLoop
  | jumpToLabel target => .jump target
  | exitEventProcessing => .halt
  | _ => .next

/-- Give up the open message or prompt. -/
def release (a : Action) (memory : Memory) (w : World η) : Memory × World η :=
  match a, memory.handle with
  | showMessage _, some handle =>
    ({ memory with handle := none }, { w with host := Host.closeMessage handle w.host })
  | showChoices _, some handle =>
    ({ memory with handle := none }, { w with host := Host.cancelChoices handle w.host })
  | _, _ => (memory, w)

end Action

end EventScript
