import EventScript.Program.Basic

/-!
# Moves of the cursor

What a completed command wants becomes a move of the cursor. Blocks are found by scans
that count the depth of nested blocks of one sort; the loops that run are kept on a
control stack, innermost first, each by the index of its opener.

A loop whose end is disabled is left without a word. Its frame stays behind and is
dropped here before the stack is consulted: `discardOutside` removes frames from the top
until one encloses the position in question.

Specification: `SPEC_FULL.md` §6 (Flow-Control Resolver). It asks for every frame to be discarded
whose loop does not contain the position; one below a frame that stays is kept here.
-/

namespace EventScript

/-- Where the cursor goes (`Resolution`). -/
inductive Resolution where
  | advance
  | moveTo (index : Nat)
  | halt
  deriving DecidableEq, Repr

/-- Openers of running loops, innermost first (the `start_index` of each `LoopFrame`). -/
abbrev ControlStack := List Nat

namespace Flow

/-- Past the closer that ends a block of which `depth` nested ones are open, in the kinds
from `index` on. -/
def closePast (opener closer : Kind) (depth index : Nat) : List Kind → Option Nat
  | [] => none
  | k :: rest =>
    if k = opener then closePast opener closer (depth + 1) (index + 1) rest
    else if k = closer then
      match depth with
      | 0 => some (index + 1)
      | depth + 1 => closePast opener closer depth (index + 1) rest
    else closePast opener closer depth (index + 1) rest

/-- Past the `else` of a branch or else past its `end_if`, in the kinds from `index` on. -/
def falseBranchPast (depth index : Nat) : List Kind → Option Nat
  | [] => none
  | k :: rest =>
    if k = .conditionalBranch then falseBranchPast (depth + 1) (index + 1) rest
    else if k = .elseBranch ∧ depth = 0 then some (index + 1)
    else if k = .endIf then
      match depth with
      | 0 => some (index + 1)
      | depth + 1 => falseBranchPast depth (index + 1) rest
    else falseBranchPast depth (index + 1) rest

/-- The opener of a loop of which `depth` nested ones are closed, among the kinds before
`index`, last first. -/
def openBefore (depth index : Nat) : List Kind → Option Nat
  | [] => none
  | k :: rest =>
    if k = .endLoop then openBefore (depth + 1) (index - 1) rest
    else if k = .loop then
      match depth with
      | 0 => some (index - 1)
      | depth + 1 => openBefore depth (index - 1) rest
    else openBefore depth (index - 1) rest

/-- A target, or the error of a scan that found none. -/
def target (start : Nat) (opener : Kind) : Option Nat → Except FlowError Nat
  | some index => .ok index
  | none => .error (.unterminatedScan start opener)

/-- The target of a branch at `cursor` whose condition is false (`skip_false_branch`). -/
def skipFalseBranch (kinds : List Kind) (cursor : Nat) : Except FlowError Nat :=
  target cursor .conditionalBranch (falseBranchPast 0 (cursor + 1) (kinds.drop (cursor + 1)))

/-- The target of an `else` that ends a true body (`skip_else_body`). -/
def skipElseBody (kinds : List Kind) (cursor : Nat) : Except FlowError Nat :=
  target cursor .elseBranch
    (closePast .conditionalBranch .endIf 0 (cursor + 1) (kinds.drop (cursor + 1)))

/-- Past the end of the loop that `cursor` opens or lies in (`find_loop_exit`). -/
def findLoopExit (kinds : List Kind) (cursor : Nat) : Except FlowError Nat :=
  target cursor .loop (closePast .loop .endLoop 0 (cursor + 1) (kinds.drop (cursor + 1)))

/-- The opener of the loop that ends at `cursor` (`find_loop_start`). -/
def findLoopStart (kinds : List Kind) (cursor : Nat) : Option Nat :=
  openBefore 0 cursor (kinds.take cursor).reverse

/-- Drop frames from the top until one encloses `position`. With an error the frames are
those not yet dropped. -/
def discardOutside (kinds : List Kind) (position : Nat) :
    ControlStack → Except FlowError Unit × ControlStack
  | [] => (.ok (), [])
  | start :: rest =>
    match findLoopExit kinds start with
    | .error e => (.error e, start :: rest)
    | .ok exit =>
      if start < position ∧ position < exit then (.ok (), start :: rest)
      else discardOutside kinds position rest

/-- Move to a target that was found. -/
def moveTo : Except FlowError Nat → Except FlowError Resolution
  | .ok index => .ok (.moveTo index)
  | .error e => .error e

/-- The move that the command at `cursor` wants, and the stack after it (`resolve`). -/
def resolve (motion : Motion) (kinds : List Kind) (labels : Labels) (cursor : Nat)
    (stack : ControlStack) : Except FlowError Resolution × ControlStack :=
  match motion with
  | .next => (.ok .advance, stack)
  | .skipFalseBranch => (moveTo (skipFalseBranch kinds cursor), stack)
  | .skipToEndIf => (moveTo (skipElseBody kinds cursor), stack)
  | .enterLoop => (.ok .advance, cursor :: stack)
  | .breakLoop =>
    match discardOutside kinds cursor stack with
    | (.error e, stack) => (.error e, stack)
    | (.ok _, []) => (moveTo (findLoopExit kinds cursor), [])
    | (.ok _, start :: rest) => (moveTo (findLoopExit kinds start), rest)
  | .endLoop =>
    match discardOutside kinds cursor stack with
    | (.error e, stack) => (.error e, stack)
    | (.ok _, []) => (.ok .advance, [])
    | (.ok _, start :: rest) =>
      if findLoopStart kinds cursor = some start then (.ok (.moveTo (start + 1)), start :: rest)
      else (.ok .advance, start :: rest)
  | .jump label =>
    match labels.find? label with
    | none => (.error (.unknownLabel label), stack)
    | some index =>
      match discardOutside kinds index stack with
      | (.error e, stack) => (.error e, stack)
      | (.ok _, stack) => (.ok (.moveTo (index + 1)), stack)
  | .halt => (.ok .halt, stack)

end Flow

namespace Program

/-- The move that the command at `cursor` of a program wants. -/
def resolve (p : Program) (motion : Motion) (cursor : Nat) (stack : ControlStack) :
    Except FlowError Resolution × ControlStack :=
  Flow.resolve motion p.kinds p.labels cursor stack

end Program

end EventScript
