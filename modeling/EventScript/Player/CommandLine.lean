import EventScript.Factory.Mode
import EventScript.Text.Number

/-!
# Command line

What the arguments of the player say. They are taken from the left. An option has its
value after an equals sign or as the next argument, unless that one begins with a dash.
A value that is an argument of its own is read when the next argument is taken, so an
argument that is no option at all is reported before a value that does not parse.

Specification: `SPEC_FULL.md` §10.1 (the command line).
-/

namespace EventScript

/-- What the player is asked to do. -/
structure Invocation where
  /-- Paths of scripts, one session each. -/
  scripts : List String := []
  config : Option String := none
  mode : Option Mode := none
  tickMs : Option Nat := none
  maxTicks : Option Nat := none
  /-- Answers to prompts, in order. -/
  answers : List Nat := []
  vars : List (String × Int32) := []
  switches : List (String × Bool) := []
  /-- Print the game state at the end. -/
  dumpState : Bool := false
  deriving Repr

/-- Why a text is not an assignment `NAME=VALUE`. -/
inductive AssignmentDefect where
  | noValue (raw : String)
  | noName (raw : String)
  | number (name : String) (defect : NumberDefect)
  | truth (name : String)
  deriving DecidableEq, Repr

/-- The text of the defect. -/
def AssignmentDefect.message : AssignmentDefect → String
  | .noValue raw => s!"expected NAME=VALUE, got `{raw}`"
  | .noName raw => s!"missing name in `{raw}`"
  | .number name defect => s!"invalid value for `{name}`: {defect.message}"
  | .truth name => s!"invalid value for `{name}`: provided string was not `true` or `false`"

/-- An option with a value. -/
inductive OptionName where
  | config
  | mode
  | tickMs
  | maxTicks
  | answers
  | variable
  | switch
  deriving DecidableEq, Repr

/-- An option without a value. -/
inductive FlagName where
  | dumpState
  | version
  | help
  deriving DecidableEq, Repr

/-- Why arguments say nothing. -/
inductive UsageError where
  | assignment (defect : AssignmentDefect)
  | invalidValue (option : String) (raw : String)
  | missingValue (option : String)
  | needlessValue (flag : String)
  | repeated (option : String)
  | unknown (argument : String)
  | emptyPath
  | noScript
  deriving DecidableEq, Repr

/-- The text of the error. -/
def UsageError.message : UsageError → String
  | .assignment defect => defect.message
  | .invalidValue option raw => s!"invalid value `{raw}` for `--{option}`"
  | .missingValue option => s!"`--{option}` needs a value"
  | .needlessValue flag => s!"`--{flag}` takes no value"
  | .repeated option => s!"`--{option}` is given more than once"
  | .unknown argument => s!"unexpected argument `{argument}`"
  | .emptyPath => "the path of a script is empty"
  | .noScript => "no script is given"

/-- What a command line asks for. -/
inductive Request where
  | play (invocation : Invocation)
  | version
  | help
  deriving Repr

/-- Read an assignment; `read` is the reader of values and knows the name. -/
def Text.assignment {α : Type} (read : String → String → Except AssignmentDefect α)
    (raw : String) : Except AssignmentDefect (String × α) :=
  let cs := raw.toList
  match cs.takeWhile (· ≠ '='), cs.dropWhile (· ≠ '=') with
  | _, [] => .error (.noValue raw)
  | [], _ => .error (.noName raw)
  | name, _ :: value =>
    let name := String.ofList name
    (read name (String.ofList value)).map fun a => (name, a)

/-- Read the assignment of a variable. -/
def Text.variable (raw : String) : Except AssignmentDefect (String × Int32) :=
  let read (name value : String) : Except AssignmentDefect Int32 :=
    match Text.readInt 0x7FFF_FFFF value with
    | .ok n => .ok (Int32.ofInt n)
    | .error defect => .error (.number name defect)
  Text.assignment read raw

/-- Read the assignment of a switch. -/
def Text.switch (raw : String) : Except AssignmentDefect (String × Bool) :=
  let read (name value : String) : Except AssignmentDefect Bool :=
    match Text.readBool? value with
    | some b => .ok b
    | none => .error (.truth name)
  Text.assignment read raw

namespace OptionName

/-- The name after the dashes. -/
def text : OptionName → String
  | .config => "config"
  | .mode => "mode"
  | .tickMs => "tick-ms"
  | .maxTicks => "max-ticks"
  | .answers => "answers"
  | .variable => "var"
  | .switch => "switch"

/-- Every option with a value. -/
def all : List OptionName := [.config, .mode, .tickMs, .maxTicks, .answers, .variable, .switch]

/-- The option of a name. -/
def ofText? (s : String) : Option OptionName := all.find? fun o => o.text = s

end OptionName

namespace FlagName

/-- The name after the dashes. -/
def text : FlagName → String
  | .dumpState => "dump-state"
  | .version => "version"
  | .help => "help"

/-- Every option without a value. -/
def all : List FlagName := [.dumpState, .version, .help]

/-- The flag of a name. -/
def ofText? (s : String) : Option FlagName := all.find? fun f => f.text = s

end FlagName

namespace Invocation

/-- Set what may be set once. -/
def once {α : Type} (option : OptionName) (raw : String) (old : Option α) (read : Option α) :
    Except UsageError (Option α) :=
  match read with
  | none => .error (.invalidValue option.text raw)
  | some a => if old.isSome then .error (.repeated option.text) else .ok (some a)

/-- Read a 64-bit integer. -/
def word? (raw : String) : Option Nat := (Text.readNat maxWord raw).toOption

/-- Take the value of an option. -/
def store (i : Invocation) (option : OptionName) (raw : String) :
    Except UsageError Invocation :=
  match option with
  | .config => do
    let path ← once option raw i.config (if raw.isEmpty then none else some raw)
    return { i with config := path }
  | .mode => do
    let mode ← once option raw i.mode (Mode.ofText? raw)
    return { i with mode }
  | .tickMs => do
    let tickMs ← once option raw i.tickMs (word? raw)
    return { i with tickMs }
  | .maxTicks => do
    let maxTicks ← once option raw i.maxTicks (word? raw)
    return { i with maxTicks }
  | .answers =>
    match (raw.splitOn ",").mapM word? with
    | some answers => .ok { i with answers := i.answers ++ answers }
    | none => .error (.invalidValue option.text raw)
  | .variable =>
    match Text.variable raw with
    | .ok v => .ok { i with vars := i.vars ++ [v] }
    | .error defect => .error (.assignment defect)
  | .switch =>
    match Text.switch raw with
    | .ok v => .ok { i with switches := i.switches ++ [v] }
    | .error defect => .error (.assignment defect)

/-- Take the path of a script. -/
def addScript (i : Invocation) (path : String) : Except UsageError Invocation :=
  if path.isEmpty then .error .emptyPath else .ok { i with scripts := i.scripts ++ [path] }

end Invocation

namespace CommandLine

/-- An option that waits for its value, or whose value is not yet read. -/
structure Pending where
  option : OptionName
  value : Option String
  deriving Repr

/-- Read what is pending. -/
def settle (i : Invocation) : Option Pending → Except UsageError Invocation
  | none => .ok i
  | some ⟨option, some raw⟩ => i.store option raw
  | some ⟨option, none⟩ => .error (.missingValue option.text)

/-- What an argument is. -/
inductive Argument where
  /-- Two dashes alone: what follows are paths. -/
  | separator
  | option (option : OptionName) (value : Option String)
  | flag (flag : FlagName)
  /-- It has the form of an option but is none. -/
  | refused (cause : UsageError)
  | plain (text : String)
  deriving Repr

/-- Split a long option at its equals sign. -/
def splitLong (cs : List Char) : String × Option String :=
  let name := String.ofList (cs.takeWhile (· ≠ '='))
  match cs.dropWhile (· ≠ '=') with
  | [] => (name, none)
  | _ :: value => (name, some (String.ofList value))

/-- What an argument is. -/
def classify (argument : String) : Argument :=
  match argument.toList with
  | ['-', '-'] => .separator
  | '-' :: '-' :: cs =>
    let (name, value) := splitLong cs
    match OptionName.ofText? name, FlagName.ofText? name, value with
    | some option, _, value => .option option value
    | none, some flag, none => .flag flag
    | none, some flag, some _ => .refused (.needlessValue flag.text)
    | none, none, _ => .refused (.unknown argument)
  | '-' :: 'V' :: _ => .flag .version
  | '-' :: 'h' :: _ => .flag .help
  | '-' :: _ :: _ => .refused (.unknown argument)
  | _ => .plain argument

/-- Take the arguments that are left. -/
def take (i : Invocation) (pending : Option Pending) :
    List String → Except UsageError Request
  | [] => do
    let i ← settle i pending
    if i.scripts.isEmpty then .error .noScript else return .play i
  | argument :: rest =>
    match classify argument with
    | .separator => takePaths i pending rest
    | .option option (some value) => do
      let i ← settle i pending
      take (← i.store option value) none rest
    | .option option none => do
      let i ← settle i pending
      take i (some ⟨option, none⟩) rest
    | .flag .dumpState => do
      let i ← settle i pending
      if i.dumpState then .error (.repeated FlagName.dumpState.text)
      else take { i with dumpState := true } none rest
    | .flag .version => do
      let _ ← settle i pending
      return .version
    | .flag .help => do
      let _ ← settle i pending
      return .help
    | .refused cause => .error cause
    | .plain text =>
      match pending with
      | some ⟨option, none⟩ => take i (some ⟨option, some text⟩) rest
      | pending => do
        let i ← settle i pending
        take (← i.addScript text) none rest
where
  /-- Take paths only. -/
  takePaths (i : Invocation) (pending : Option Pending) (paths : List String) :
      Except UsageError Request := do
    let i ← settle i pending
    let i ← paths.foldlM Invocation.addScript i
    if i.scripts.isEmpty then .error .noScript else return .play i

/-- Read the arguments of a command line. -/
def parse (arguments : List String) : Except UsageError Request := take {} none arguments

end CommandLine

end EventScript
