import EventScript.Severity

/-!
# Phases and errors of commands

A command is idle, executing, complete or aborted. An error of a command never stops its
program: the session reports it and goes on with the next command.

Specification: `SPEC_FULL.md` §4 (Command) and §11.2 (Error handling).
-/

namespace EventScript

/-- Where a command stands (`ExecutionState`). -/
inductive Phase where
  | idle
  | executing
  | complete
  | aborted
  deriving DecidableEq, Repr, Inhabited

namespace Phase

/-- The word for a phase in error texts. -/
def word : Phase → String
  | idle => "Idle"
  | executing => "Executing"
  | complete => "Complete"
  | aborted => "Aborted"

/-- No call changes the phase any more. -/
def isTerminal : Phase → Bool
  | complete | aborted => true
  | _ => false

end Phase

/-- Why a command could not do its work. -/
inductive CommandError where
  | divisionByZero (target : String)
  /-- The host selected a choice that the prompt does not have. -/
  | noSuchChoice (selected : Nat) (count : Nat)
  /-- The index of the selected choice does not fit a variable. -/
  | choiceOutOfRange (selected : Nat)
  /-- A prompt without choices. -/
  | noChoices
  /-- The command was called in a phase that does not admit the call. -/
  | notRunnable (name : String) (phase : Phase)
  deriving DecidableEq, Repr

instance : Fault CommandError where
  code
    | .divisionByZero _ => "COMMAND_DIVISION_BY_ZERO"
    | .noSuchChoice _ _ | .choiceOutOfRange _ | .noChoices => "COMMAND_INVALID_PARAMETER"
    | .notRunnable _ _ => "COMMAND_NOT_RUNNABLE"
  message
    | .divisionByZero target => s!"division by zero while updating variable `{target}`"
    | .noSuchChoice selected count =>
      s!"invalid parameter: host selected choice {selected} of {count}"
    | .choiceOutOfRange selected =>
      s!"invalid parameter: choice index {selected} out of range"
    | .noChoices => "invalid parameter: show_choices requires at least one choice"
    | .notRunnable name phase => s!"command `{name}` cannot run from state {phase.word}"
  severity
    | .notRunnable _ _ => .internal
    | _ => .recoverable

end EventScript
