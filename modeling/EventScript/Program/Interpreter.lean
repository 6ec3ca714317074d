import EventScript.Config.Basic
import EventScript.Factory.Basic
import EventScript.Program.Session

/-!
# Interpreters

An interpreter drives one program at a time, one command a tick. It is idle until a start
is accepted, runs or is paused while it has a session, and is completed from the end of
the session until the next start; stopping makes it idle.

A paused session is not touched by ticks, so pausing neither restarts nor repeats a
command in flight. A completion is announced once, to the starter of the session, and a
stopped session announces none.

Specification: `SPEC_FULL.md` §8 (Execution Engine / Interpreter).
-/

namespace EventScript

/-- What an interpreter works with: a factory and a world, which others may share. -/
structure Services (η : Type) where
  factory : Factory
  world : World η

/-- Why a session does not start. -/
inductive InterpreterError where
  | alreadyRunning
  | malformedProgram (cause : ProgramError)
  deriving DecidableEq, Repr

instance : Fault InterpreterError where
  code
    | .alreadyRunning => "INTERPRETER_ALREADY_RUNNING"
    | .malformedProgram cause => Fault.code cause
  message
    | .alreadyRunning => "interpreter is already running a session"
    | .malformedProgram cause => "malformed program: " ++ Fault.message cause
  severity _ := .validation

/-- What an interpreter is doing (`InterpreterStatus`). -/
inductive Status where
  | idle
  | running
  | paused
  | completed
  deriving DecidableEq, Repr

/-- The word for a status. -/
def Status.word : Status → String
  | idle => "idle"
  | running => "running"
  | paused => "paused"
  | completed => "completed"

/-- One program at a time, on behalf of an owner. -/
structure Interpreter where
  config : InterpreterConfig := {}
  owner : Owner := .global
  session : Option Session := none
  /-- The last session ran to its completion. -/
  completed : Bool := false
  deriving Repr

/-- The answer to a call, the completion announced in it, and what is left after it. -/
structure Reply (α η : Type) where
  result : α
  announced : Option Completion := none
  interpreter : Interpreter
  services : Services η

namespace Services

variable {η : Type}

/-- Put the commands of a program back into the pool. -/
def release (s : Services η) (p : Program) : Services η :=
  { s with factory := s.factory.release p.commands }

/-- Take over what a factory made. -/
def took [Host η] {α : Type} (s : Services η) (made : Made α) : Services η :=
  { factory := made.factory, world := s.world.reportAll made.diagnostics }

end Services

namespace Interpreter

variable {η : Type} [Host η]

/-- What the interpreter is doing. -/
def status (i : Interpreter) : Status :=
  match i.session with
  | some s => if s.paused then .paused else .running
  | none => if i.completed then .completed else .idle

/-- There is a session, paused or not. -/
def isRunning (i : Interpreter) : Bool := i.session.isSome

/-- The session is paused. -/
def isPaused (i : Interpreter) : Bool := i.session.any Session.paused

/-- The cursor of the session (`current_index`). -/
def cursor? (i : Interpreter) : Option Nat := i.session.map Session.cursor

/-- Begin to run a program. -/
def begin (i : Interpreter) (p : Program) (notify : Bool) : Interpreter :=
  { i with session := some (.start p notify), completed := false }

/-- Build a program and run it (`start_interpretation`). -/
def start (i : Interpreter) (ds : List Descriptor) (s : Services η) :
    Reply (Except InterpreterError Unit) η :=
  match i.session with
  | some _ => { result := .error .alreadyRunning, interpreter := i, services := s }
  | none =>
    let made := s.factory.build ds i.config.mode
    let s := s.took made
    match made.result with
    | .ok p => { result := .ok (), interpreter := i.begin p true, services := s }
    | .error e => { result := .error (.malformedProgram e), interpreter := i, services := s }

/-- Run a program that is built (`start_program`). A rejected program goes back to the pool. -/
def startProgram (i : Interpreter) (p : Program) (notify : Bool) (s : Services η) :
    Reply (Except InterpreterError Unit) η :=
  match i.session with
  | some _ => { result := .error .alreadyRunning, interpreter := i, services := s.release p }
  | none => { result := .ok (), interpreter := i.begin p notify, services := s }

/-- End a session that has run to its completion (`complete_interpretation`). -/
def complete (i : Interpreter) (session : Session) (reason : CompletionReason)
    (s : Services η) : Reply TickReport η :=
  let completion := session.completion i.owner reason
  { result := .completed completion
    announced := if session.notify then some completion else none
    interpreter := { i with session := none, completed := true }
    services := s.release session.program }

/-- The limit on ticks is passed (`max_ticks_per_session`). -/
def overLimit (i : Interpreter) (ticks : Nat) : Option Nat :=
  i.config.maxTicks.filter fun limit => limit < ticks

/-- Advance the session by one tick (`update`). -/
def update (i : Interpreter) (s : Services η) : Reply TickReport η :=
  match i.session with
  | none => { result := .inactive, interpreter := i, services := s }
  | some session =>
    if session.paused then { result := .paused, interpreter := i, services := s }
    else
      let session := { session with ticks := session.ticks + 1 }
      match i.overLimit session.ticks with
      | some limit =>
        let world := s.world.report (.tickLimitExceeded i.owner limit)
        let (session, world) := session.abortInFlight world
        i.complete session .faulted { s with world }
      | none =>
        let stepped := session.step i.owner s.world
        let s := { s with world := stepped.world }
        match stepped.step with
        | .report r =>
          { result := r
            interpreter := { i with session := some stepped.session }
            services := s }
        | .complete reason => i.complete stepped.session reason s

/-- Abort the command in flight and discard the session (`stop_interpretation`). The answer tells
whether there was one. -/
def stop (i : Interpreter) (s : Services η) : Reply Bool η :=
  match i.session with
  | none => { result := false, interpreter := i, services := s }
  | some session =>
    let (session, world) := session.abortInFlight s.world
    { result := true
      interpreter := { i with session := none, completed := false }
      services := Services.release { s with world } session.program }

/-- Pause or continue the session, if there is one (`set_paused`). -/
def setPaused (i : Interpreter) (paused : Bool) : Interpreter :=
  { i with session := i.session.map fun session => { session with paused } }

end Interpreter

end EventScript
