import EventScript.Program.Flow

/-!
# Sessions

A session is one run of a program. Each step runs exactly one command for one tick: the
command at the cursor is started, or resumed with the token that it left, and when it has
completed or failed its move is applied. A failed command is reported and counts as
completed; only a move without a target and the tick limit end a session as faulted.

Specification: `SPEC_FULL.md` §2 (sessions) and §8 (`update`).
-/

namespace EventScript

/-- Why a session ended. -/
inductive CompletionReason where
  /-- The cursor passed the last command. -/
  | endOfProgram
  /-- An exit command ran. -/
  | exited
  /-- A move had no target, or the tick limit was passed. -/
  | faulted
  deriving DecidableEq, Repr

/-- The word for a reason. -/
def CompletionReason.word : CompletionReason → String
  | endOfProgram => "end_of_program"
  | exited => "exited"
  | faulted => "faulted"

/-- The end of a session. -/
structure Completion where
  owner : Owner
  reason : CompletionReason
  /-- Ticks during which the session ran, the last one included. -/
  ticks : Nat
  /-- Commands that completed; disabled ones do not count. -/
  executed : Nat
  deriving DecidableEq, Repr

/-- What one tick did. -/
inductive TickReport where
  /-- There is no session. -/
  | inactive
  | paused
  /-- The command is disabled and was stepped over. -/
  | skipped (index : Nat)
  /-- The command needs more ticks. -/
  | suspended (index : Nat)
  /-- The command completed and the cursor went to `next`. -/
  | executed (index : Nat) (kind : Kind) (next : Nat)
  | completed (completion : Completion)
  deriving DecidableEq, Repr

/-- One run of a program. -/
structure Session where
  program : Program
  cursor : Nat := 0
  stack : ControlStack := []
  /-- The token of the suspended command at the cursor. -/
  pending : Option Token := none
  paused : Bool := false
  /-- Somebody wants to hear of the completion. -/
  notify : Bool := false
  ticks : Nat := 0
  executed : Nat := 0
  deriving Repr

/-- What a step leads to. -/
inductive Step where
  | report (r : TickReport)
  | complete (reason : CompletionReason)
  deriving DecidableEq, Repr

/-- A step, and the session and world after it. -/
structure Stepped (η : Type) where
  step : Step
  session : Session
  world : World η

namespace Session

/-- A session at the start of a program. -/
def start (program : Program) (notify : Bool) : Session := { program, notify }

/-- The end of the session, for a reason. -/
def completion (s : Session) (owner : Owner) (reason : CompletionReason) : Completion :=
  ⟨owner, reason, s.ticks, s.executed⟩

variable {η : Type} [Host η]

/-- Run the command for one tick, from its start or from the token it left. -/
def runCommand (c : Command) (pending : Option Token) (owner : Owner) (w : World η) : Ran η :=
  match pending with
  | some token => c.resume token w
  | none => c.execute owner w

/-- Apply the move of a command that has completed or failed. -/
def settle (s : Session) (owner : Owner) (c : Command) (w : World η) : Stepped η :=
  let index := s.cursor
  let (resolved, stack) := s.program.resolve c.motion index s.stack
  let s := { s with program := s.program.set index c.reset
                    stack
                    pending := none
                    executed := s.executed + 1 }
  match resolved with
  | .ok .advance =>
    ⟨.report (.executed index c.kind (index + 1)), { s with cursor := index + 1 }, w⟩
  | .ok (.moveTo next) =>
    ⟨.report (.executed index c.kind next), { s with cursor := next }, w⟩
  | .ok .halt => ⟨.complete .exited, s, w⟩
  | .error e => ⟨.complete .faulted, s, w.report (.flowFailed owner index e)⟩

/-- Run the command at the cursor for one tick. -/
def step (s : Session) (owner : Owner) (w : World η) : Stepped η :=
  match s.program.get? s.cursor with
  | none => ⟨.complete .endOfProgram, s, w⟩
  | some c =>
    if c.enabled then
      let ran := runCommand c s.pending owner w
      match ran.result with
      | .ok (.suspended token) =>
        let s := { s with program := s.program.set s.cursor ran.command, pending := some token }
        ⟨.report (.suspended s.cursor), s, ran.world⟩
      | .ok .completed => s.settle owner ran.command ran.world
      | .error e =>
        s.settle owner ran.command
          (ran.world.report (.commandFailed owner s.cursor c.name e))
    else ⟨.report (.skipped s.cursor), { s with cursor := s.cursor + 1 }, w⟩

/-- Abort the command at the cursor of a session that is cut short. -/
def abortInFlight (s : Session) (w : World η) : Session × World η :=
  match s.program.get? s.cursor with
  | none => (s, w)
  | some c =>
    let (_, c, w) := c.abort w
    ({ s with program := s.program.set s.cursor c }, w)

end Session

end EventScript
