import EventScript.Command.Perform

/-!
# Commands

A command is an action in its envelope: a name for diagnostics, a mark that says whether
it runs at all, the phase it is in and what it remembers.

An idle command can be executed, an executing one resumed, and either of them aborted; a
complete or aborted one admits none of that until it is reset. Effects on the world are
never taken back: aborting only stops further progress.

Specification: `SPEC_FULL.md` §4 (Command).
-/

namespace EventScript

/-- An action in its envelope. -/
structure Command where
  name : String
  enabled : Bool := true
  phase : Phase := .idle
  action : Action
  memory : Memory := .clear
  deriving DecidableEq, Repr

/-- One call of a command: its result, the command and the world after it. -/
structure Ran (η : Type) where
  result : Except CommandError Progress
  command : Command
  world : World η

namespace Command

/-- An idle, enabled command under the name of its kind. -/
def ofAction (a : Action) : Command := { name := a.kind.displayName, action := a }

/-- The command does not run. -/
def disable (c : Command) : Command := { c with enabled := false }

/-- Replace the name. -/
def rename (c : Command) (name : String) : Command := { c with name }

/-- The kind of the action. -/
def kind (c : Command) : Kind := c.action.kind

/-- Idle again, with its configuration and without memory. -/
def reset (c : Command) : Command := { c with phase := .idle, memory := .clear }

/-- An independent idle command of the same configuration. -/
def clone (c : Command) : Command := c.reset

/-- Equal configuration, whatever the phases, memories and names. -/
def sameConfiguration (c d : Command) : Bool := c.enabled == d.enabled && c.action == d.action

/-- Give an instance a new configuration. -/
def configure (_c : Command) (a : Action) (enabled : Bool) : Command :=
  { name := a.kind.displayName, enabled, action := a }

/-- Erase every trace of an earlier use. -/
def recycle (c : Command) : Command := c.configure (.default c.kind) true

/-- The phase after a call that was let through. -/
def settledPhase : Except CommandError Progress → Phase
  | .ok (.suspended _) => .executing
  | _ => .complete

/-- The command and world after its action was performed. -/
def settle {η : Type} (c : Command) (p : Performed η) : Ran η :=
  ⟨p.result, { c with phase := settledPhase p.result, memory := p.memory }, p.world⟩

/-- Refuse a call. -/
def refuse {η : Type} (c : Command) (w : World η) : Ran η :=
  ⟨.error (.notRunnable c.name c.phase), c, w⟩

variable {η : Type} [Host η]

/-- Start an idle command. -/
def execute (c : Command) (owner : Owner) (w : World η) : Ran η :=
  if c.phase = .idle then c.settle (c.action.start owner c.memory w) else c.refuse w

/-- Continue an executing command with its token. -/
def resume (c : Command) (token : Token) (w : World η) : Ran η :=
  if c.phase = .executing then c.settle (c.action.resume token c.memory w) else c.refuse w

/-- What the command wants of the cursor (`post_execute`). -/
def motion (c : Command) : Motion := c.action.motion c.memory

/-- Stop a command that has not ended. An executing one gives up its message or prompt.
The answer tells whether there was something to stop. -/
def abort (c : Command) (w : World η) : Bool × Command × World η :=
  match c.phase with
  | .complete | .aborted => (false, c, w)
  | .executing =>
    let (memory, w) := c.action.release c.memory w
    (true, { c with phase := .aborted, memory }, w)
  | .idle => (true, { c with phase := .aborted }, w)

end Command

end EventScript
