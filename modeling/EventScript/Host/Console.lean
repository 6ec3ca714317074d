import EventScript.Host.Basic

/-!
# Console host

A host that tells requests as lines of text. Messages close as soon as they are printed.
Prompts are answered from a preset queue, and with the first choice once it is empty.
A line that cannot be written is lost; the operation returns the reason for each.

Specification: `SPEC_FULL.md` §10.1 (the console host).
-/

namespace EventScript

/-- Where lines go. -/
inductive Sink where
  /-- Text written so far. -/
  | buffer (text : String)
  /-- Every write fails, with this reason. -/
  | broken (reason : String)
  deriving Repr

instance : Inhabited Sink := ⟨.buffer ""⟩

/-- State of a console host (`ConsoleHost`). -/
structure Console where
  sink : Sink := .buffer ""
  /-- Indices of choices, next first. -/
  answers : List Nat := []
  nextHandle : Nat := 1
  deriving Repr, Inhabited

namespace Console

/-- The text written so far. -/
def text (c : Console) : String :=
  match c.sink with
  | .buffer text => text
  | .broken _ => ""

/-- Write a line; the reasons of failed writes come with the new state. -/
def emit (c : Console) (line : String) : Console × List String :=
  match c.sink with
  | .buffer text => ({ c with sink := .buffer (text ++ line ++ "\n") }, [])
  | .broken reason => (c, [reason])

/-- Write lines in order. -/
def emitAll (c : Console) : List String → Console × List String
  | [] => (c, [])
  | line :: rest =>
    let (c, failed) := c.emit line
    let (c, later) := c.emitAll rest
    (c, failed ++ later)

/-- A fresh handle. -/
def allocate (c : Console) : Handle × Console :=
  (c.nextHandle, { c with nextHandle := c.nextHandle + 1 })

/-- The line of a message. -/
def messageLine (request : MessageRequest) : String :=
  match request.speaker with
  | some speaker => s!"[{request.owner.text}] {speaker}: {request.text}"
  | none => s!"[{request.owner.text}] {request.text}"

/-- The lines of the choices from `index` on. -/
def choiceLines (owner : Owner) (index : Nat) : List String → List String
  | [] => []
  | choice :: rest =>
    s!"[{owner.text}]   {index}) {choice}" :: choiceLines owner (index + 1) rest

/-- The line of a transfer. -/
def transferLine (request : TransferRequest) : String :=
  let x := request.x.toInt
  let y := request.y.toInt
  s!"[{request.owner.text}] -- transfer to map {request.mapId.toNat} at ({x}, {y})"

/-- The line of a screen effect. -/
def effectLine : ScreenEffect → String
  | .fade .outward ticks => s!"-- fade out ({ticks.toNat} ticks)"
  | .fade .inward ticks => s!"-- fade in ({ticks.toNat} ticks)"
  | .shake power speed ticks =>
    s!"-- shake power {power.toNat} speed {speed.toNat} ({ticks.toNat} ticks)"

/-- The next preset answer. -/
def nextAnswer (c : Console) : Nat × Console :=
  match c.answers with
  | [] => (0, c)
  | answer :: rest => (answer, { c with answers := rest })

end Console

end EventScript
