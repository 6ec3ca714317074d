import EventScript.Program.Interpreter
import EventScript.Scheduler.Channel

/-!
# Schedulers

A scheduler runs many sessions over one game. A tick advances each of them once, in the
order of their ids, which are given out in the order of spawning and never again. What
begins and ends is published on a channel: every session is announced once when it
starts, and once when it completes or is stopped.

Specification: `SPEC_FULL.md` §10 (Runtime scheduler).
-/

namespace EventScript

/-- The number of a session. -/
structure SessionId where
  number : Nat
  deriving DecidableEq, Repr

/-- The text that names a session. -/
def SessionId.text (id : SessionId) : String := s!"session#{id.number}"

/-- A session that ran to its completion. -/
structure SessionCompleted where
  id : SessionId
  completion : Completion
  deriving DecidableEq, Repr

/-- An event in the life of a session. -/
inductive SessionEvent where
  | started (id : SessionId) (owner : Owner)
  | completed (done : SessionCompleted)
  /-- The session was cancelled; no completion follows. -/
  | stopped (id : SessionId) (owner : Owner)
  deriving DecidableEq, Repr

/-- The session that an event is about. -/
def SessionEvent.session : SessionEvent → SessionId
  | started id _ => id
  | completed done => done.id
  | stopped id _ => id

/-- Why the scheduler refuses a request. -/
inductive RuntimeError where
  | interpreter (cause : InterpreterError)
  | tooManySessions (limit : Nat)
  | unknownSession (id : SessionId)
  | tickBudgetExhausted (ticks : Nat) (active : Nat)
  deriving DecidableEq, Repr

instance : Fault RuntimeError where
  code
    | .interpreter cause => Fault.code cause
    | .tooManySessions _ => "RUNTIME_TOO_MANY_SESSIONS"
    | .unknownSession _ => "RUNTIME_UNKNOWN_SESSION"
    | .tickBudgetExhausted _ _ => "RUNTIME_TICK_BUDGET_EXHAUSTED"
  message
    | .interpreter cause => Fault.message cause
    | .tooManySessions limit => s!"session limit of {limit} reached"
    | .unknownSession id => s!"no session with id {id.text}"
    | .tickBudgetExhausted ticks active =>
      s!"{active} session(s) still running after {ticks} ticks"
  severity
    | .interpreter cause => Fault.severity cause
    | .tooManySessions _ | .unknownSession _ => .validation
    | .tickBudgetExhausted _ _ => .recoverable

/-- The sessions of a game. -/
structure Scheduler (η : Type) where
  config : RuntimeConfig
  services : Services η
  /-- Active sessions in ascending order of their ids. -/
  sessions : List (SessionId × Interpreter) := []
  nextId : Nat := 1
  /-- Number of ticks so far. -/
  ticks : Nat := 0
  channel : Channel SessionEvent

namespace Scheduler

variable {η : Type}

/-- A scheduler over a factory and a world. -/
def withServices (config : RuntimeConfig) (services : Services η) : Scheduler η :=
  { config, services, channel := ⟨config.eventBufferSize, []⟩ }

/-- A scheduler over a world, with the built-in factory. -/
def new (config : RuntimeConfig) (world : World η) : Scheduler η :=
  withServices config ⟨.new config.interpreter.poolCapacity, world⟩

/-- Number of active sessions (`active_sessions`). -/
def active (s : Scheduler η) : Nat := s.sessions.length

/-- No session is active. -/
def isIdle (s : Scheduler η) : Bool := s.sessions.isEmpty

/-- The interpreter of an active session. -/
def session? (s : Scheduler η) (id : SessionId) : Option Interpreter :=
  (s.sessions.find? fun e => e.1 = id).map Prod.snd

/-- Publish an event. -/
def publish (s : Scheduler η) (e : SessionEvent) : Scheduler η :=
  { s with channel := s.channel.send e }

/-- Publish the completion that a session announced. -/
def announce (s : Scheduler η) (id : SessionId) : Option Completion → Scheduler η
  | some completion => s.publish (.completed ⟨id, completion⟩)
  | none => s

/-- Change the interpreter of an active session. -/
def modify (s : Scheduler η) (id : SessionId) (f : Interpreter → Interpreter) :
    Except RuntimeError Unit × Scheduler η :=
  match s.session? id with
  | none => (.error (.unknownSession id), s)
  | some _ =>
    (.ok (), { s with sessions := s.sessions.map fun e => if e.1 = id then (id, f e.2) else e })

/-- Pause a session. -/
def pause (s : Scheduler η) (id : SessionId) : Except RuntimeError Unit × Scheduler η :=
  s.modify id fun i => i.setPaused true

/-- Continue a session. -/
def resume (s : Scheduler η) (id : SessionId) : Except RuntimeError Unit × Scheduler η :=
  s.modify id fun i => i.setPaused false

/-- The limit on sessions that one more would pass. -/
def fullAt (s : Scheduler η) : Option Nat :=
  s.config.maxSessions.filter fun limit => limit ≤ s.active

variable [Host η]

/-- Build a program and run it as a new session. -/
def spawn (s : Scheduler η) (owner : Owner) (ds : List Descriptor) :
    Except RuntimeError SessionId × Scheduler η :=
  match s.fullAt with
  | some limit => (.error (.tooManySessions limit), s)
  | none =>
    let i : Interpreter := { config := s.config.interpreter, owner }
    let reply := i.start ds s.services
    let s := { s with services := reply.services }
    match reply.result with
    | .error e => (.error (.interpreter e), s)
    | .ok _ =>
      let id : SessionId := ⟨s.nextId⟩
      let s := { s with nextId := s.nextId + 1
                        sessions := s.sessions ++ [(id, reply.interpreter)] }
      (.ok id, s.publish (.started id owner))

/-- Cancel a session. Its command in flight is aborted. -/
def stop (s : Scheduler η) (id : SessionId) : Except RuntimeError Unit × Scheduler η :=
  match s.session? id with
  | none => (.error (.unknownSession id), s)
  | some i =>
    let reply := i.stop s.services
    let s := { s with services := reply.services
                      sessions := s.sessions.filter fun e => e.1 ≠ id }
    (.ok (), s.publish (.stopped id i.owner))

/-- Cancel every session, in the order of the ids. -/
def stopAll (s : Scheduler η) : Scheduler η :=
  s.sessions.foldl (fun s e => (s.stop e.1).2) s

/-- Advance sessions in order: the completions, and the sessions that go on. -/
def advance (s : Scheduler η) :
    List (SessionId × Interpreter) →
      List SessionCompleted × List (SessionId × Interpreter) × Scheduler η
  | [] => ([], [], s)
  | (id, i) :: rest =>
    let reply := i.update s.services
    let s := { s with services := reply.services }.announce id reply.announced
    let (done, left, s) := s.advance rest
    match reply.result with
    | .completed completion => (⟨id, completion⟩ :: done, left, s)
    | _ => (done, (id, reply.interpreter) :: left, s)

/-- Advance every session by one tick and remove those that complete. -/
def tick (s : Scheduler η) : List SessionCompleted × Scheduler η :=
  let (done, left, s) := { s with ticks := s.ticks + 1 }.advance s.sessions
  (done, { s with sessions := left })

/-- Tick until no session is left, at most `budget` times; `total` is the whole budget. -/
def runFor (total : Nat) (s : Scheduler η) :
    Nat → Except RuntimeError (List SessionCompleted) × Scheduler η
  | 0 => if s.isIdle then (.ok [], s) else (.error (.tickBudgetExhausted total s.active), s)
  | budget + 1 =>
    if s.isIdle then (.ok [], s)
    else
      let (done, s) := s.tick
      match runFor total s budget with
      | (.ok later, s) => (.ok (done ++ later), s)
      | (.error e, s) => (.error e, s)

/-- Tick until no session is left, at most `maxTicks` times (`run_until_idle`). -/
def runUntilIdle (s : Scheduler η) (maxTicks : Nat) :
    Except RuntimeError (List SessionCompleted) × Scheduler η :=
  s.runFor maxTicks maxTicks

end Scheduler

end EventScript
