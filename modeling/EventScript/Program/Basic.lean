import EventScript.Command.Basic
import EventScript.Program.Error

/-!
# Programs

A program is a list of commands whose structure was accepted: every branch and loop is
closed, blocks nest, every break is inside a loop, label names are distinct and every
jump has its label. `validate` checks this in one pass with the stack of open blocks and
returns where each label stands. Disabled commands count like the others.

Specification: `SPEC_FULL.md` §5 (Program builder & validator).
-/

namespace EventScript

/-- An open block. -/
inductive Block where
  /-- A branch, and where its `else` stands. -/
  | branch (index : Nat) (elseAt : Option Nat)
  | loop (index : Nat)
  deriving DecidableEq, Repr

namespace Block

/-- Where the block was opened. -/
def index : Block → Nat
  | branch i _ => i
  | loop i => i

/-- The kind of its opener. -/
def opener : Block → Kind
  | branch _ _ => .conditionalBranch
  | loop _ => .loop

/-- The block is a loop. -/
def isLoop : Block → Bool
  | loop _ => true
  | _ => false

end Block

/-- Where each label of a program stands. -/
abbrev Labels := Table String Nat

/-- What the check knows after some commands. -/
structure Outline where
  /-- Number of commands seen. -/
  index : Nat := 0
  /-- Open blocks, innermost first. -/
  blocks : List Block := []
  labels : Labels := .empty
  /-- Jumps seen with their labels, last first. -/
  jumps : List (Nat × String) := []
  deriving Repr

namespace Outline

/-- Count one command. -/
def advance (o : Outline) : Outline := { o with index := o.index + 1 }

/-- Open a block at the current command. -/
def openBlock (o : Outline) (b : Block) : Outline := { o with blocks := b :: o.blocks }.advance

/-- One command. -/
def step (o : Outline) (a : Action) : Except ProgramError Outline :=
  match a with
  | .conditionalBranch _ => .ok (o.openBlock (.branch o.index none))
  | .loop => .ok (o.openBlock (.loop o.index))
  | .elseBranch =>
    match o.blocks with
    | .branch i none :: rest =>
      .ok { o with blocks := .branch i (some o.index) :: rest }.advance
    | .branch i (some _) :: _ => .error (.duplicateElse o.index i)
    | _ => .error (.unmatchedMarker o.index .elseBranch)
  | .endIf =>
    match o.blocks with
    | .branch _ _ :: rest => .ok { o with blocks := rest }.advance
    | _ => .error (.unmatchedMarker o.index .endIf)
  | .endLoop =>
    match o.blocks with
    | .loop _ :: rest => .ok { o with blocks := rest }.advance
    | _ => .error (.unmatchedMarker o.index .endLoop)
  | .breakLoop =>
    if o.blocks.any Block.isLoop then .ok o.advance
    else .error (.breakOutsideLoop o.index)
  | .label name =>
    match o.labels.find? name with
    | some first => .error (.duplicateLabel o.index name first)
    | none => .ok { o with labels := o.labels.insert name o.index }.advance
  | .jumpToLabel label => .ok { o with jumps := (o.index, label) :: o.jumps }.advance
  | _ => .ok o.advance

/-- The end of the list: no block is open and every jump has its label. -/
def finish (o : Outline) : Except ProgramError Labels :=
  match o.blocks with
  | b :: _ => .error (.unterminatedBlock b.index b.opener)
  | [] =>
    match o.jumps.reverse.find? fun j => !o.labels.contains j.2 with
    | some (i, label) => .error (.unknownLabel i label)
    | none => .ok o.labels

/-- Check a list of actions from an outline on. -/
def check (o : Outline) : List Action → Except ProgramError Labels
  | [] => o.finish
  | a :: rest =>
    match o.step a with
    | .ok o => o.check rest
    | .error e => .error e

end Outline

/-- Commands of one run and where their labels stand. -/
structure Program where
  commands : List Command
  labels : Labels
  deriving Repr

namespace Program

/-- Check the structure of a command list and find its labels. -/
def validate (actions : List Action) : Except ProgramError Labels := Outline.check {} actions

/-- A program, if the structure of the commands is accepted (`from_commands`). -/
def ofCommands (commands : List Command) : Except ProgramError Program :=
  (validate (commands.map Command.action)).map fun labels => ⟨commands, labels⟩

/-- Number of commands. -/
def size (p : Program) : Nat := p.commands.length

/-- The command at an index. -/
def get? (p : Program) (index : Nat) : Option Command := p.commands[index]?

/-- Replace the command at an index. -/
def set (p : Program) (index : Nat) (c : Command) : Program :=
  { p with commands := p.commands.set index c }

/-- The kinds of the commands. -/
def kinds (p : Program) : List Kind := p.commands.map Command.kind

/-- Where a label stands (`label_index`). -/
def labelIndex? (p : Program) (name : String) : Option Nat := p.labels.find? name

end Program

end EventScript
