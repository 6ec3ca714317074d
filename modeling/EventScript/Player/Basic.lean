import EventScript.Config.EnvFile
import EventScript.Config.File
import EventScript.Host.Stage
import EventScript.Json.Printer
import EventScript.Player.CommandLine
import EventScript.Scheduler.Basic
import EventScript.Script

/-!
# Player

The player runs each script of its command line as a session and waits for all of them.
It learns what becomes of them from the channel of session events alone: it counts down
with every session that ends and counts the faults. When the channel has left it behind,
it takes the number of active sessions instead of its count. Ticks stop after the first
that leaves no session. Ticks and receives may come in any order; `advance` is the order
in which everything sent is received before the next tick.

Specification: `SPEC_FULL.md` §10.1 (Player binary). It asks the player to wait for every session
and to fail for any fault; what is taken here is what the channel lets the player know.
-/

namespace EventScript

/-- Why the player ends with an error. -/
inductive PlayerError where
  | config (cause : ConfigError) (path : String)
  | unreadableScript (path : String)
  | invalidScript (path : String)
  | params (cause : ScriptParamsError)
  /-- The scheduler refused the session. -/
  | notStarted (path : String) (cause : RuntimeError)
  | faulted (sessions : Nat)
  deriving DecidableEq, Repr

/-- The text of the error. -/
def PlayerError.message : PlayerError → String
  | .config cause path => cause.message path
  | .unreadableScript path => s!"failed to read script: {path}"
  | .invalidScript path => s!"invalid script: {path}"
  | .params cause => cause.message
  | .notStarted path _ => s!"failed to start {path}"
  | .faulted sessions => s!"{sessions} session(s) faulted"

/-- The scheduler, the receiver of its events and what the events have told so far. -/
structure Player (η : Type) where
  scheduler : Scheduler η
  /-- The position of the receiver. -/
  position : Nat := 0
  /-- Sessions that are waited for. -/
  outstanding : Nat := 0
  faulted : Nat := 0
  /-- The scheduler is still ticked. -/
  driving : Bool := true

namespace Invocation

/-- The settings of a configuration with those of the command line over them. -/
def override (i : Invocation) (c : PlayerConfig) : PlayerConfig :=
  let interpreter := c.runtime.interpreter
  { c with runtime :=
      { c.runtime with
        interpreter :=
          { interpreter with
            mode := i.mode.getD interpreter.mode
            maxTicks := i.maxTicks <|> interpreter.maxTicks }
        tickIntervalMs := (i.tickMs.map fun n => max n 1).getD c.runtime.tickIntervalMs } }

/-- The settings: those of the file, if there is one, and otherwise of the environment,
under those of the command line. -/
def settings (i : Invocation) (env : Variables) (read : String → Option String) :
    Except PlayerError PlayerConfig :=
  match i.config with
  | none => .ok (i.override (.ofEnvironment env))
  | some path =>
    match PlayerConfig.ofFile (read path) with
    | .ok c => .ok (i.override c)
    | .error cause => .error (.config cause path)

/-- The state of the game before the first tick. -/
def initialGame (i : Invocation) : GameState :=
  let g := i.vars.foldl (fun g v => g.setVariable v.1 v.2) ({} : GameState)
  i.switches.foldl (fun g v => g.setSwitch v.1 v.2) g

end Invocation

namespace Player

variable {η : Type} [Host η]

/-- A player without sessions. -/
def new (config : RuntimeConfig) (world : World η) : Player η :=
  let scheduler := Scheduler.new config world
  { scheduler, position := scheduler.channel.tail }

/-- Start a session and wait for it; `path` names its script. -/
def enroll (p : Player η) (path : String) (owner : Owner) (ds : List Descriptor) :
    Except PlayerError (Player η) :=
  match p.scheduler.spawn owner ds with
  | (.error cause, _) => .error (.notStarted path cause)
  | (.ok _, scheduler) => .ok { p with scheduler, outstanding := p.outstanding + 1 }

/-- Hand diagnostics to the host. -/
def reportAll (p : Player η) (ds : List Diagnostic) : Player η :=
  let services := p.scheduler.services
  let services := { services with world := services.world.reportAll ds }
  { p with scheduler := { p.scheduler with services } }

/-- Start the script at a path, given its text if it can be read. The event `fallback`
owns the session if the script names no owner. -/
def launch (p : Player η) (fallback : Owner) (path : String) (text : Option String) :
    Except PlayerError (Player η) :=
  match text with
  | none => .error (.unreadableScript path)
  | some text =>
    match Script.ofText? text with
    | none => .error (.invalidScript path)
    | some script =>
      match script.toDescriptors p.scheduler.services.factory.registry with
      | (.error cause, _) => .error (.params cause)
      | (.ok ds, reported) => (p.reportAll reported).enroll path (script.ownerOr fallback) ds

/-- Start scripts in order. The fallback owners are numbered from `number` on. -/
def launchAll (read : String → Option String) (p : Player η) (number : Nat) :
    List String → Except PlayerError (Player η)
  | [] => .ok p
  | path :: rest =>
    let fallback : Owner := ⟨UInt32.ofNat (min number 0xFFFF_FFFF)⟩
    match p.launch fallback path (read path) with
    | .ok p => launchAll read p (number + 1) rest
    | .error e => .error e

/-- The player still waits for a session. -/
def waiting (p : Player η) : Bool := p.outstanding ≠ 0

/-- Tick the scheduler, unless a tick has left no session. -/
def tick (p : Player η) : Player η :=
  if p.driving then
    let scheduler := p.scheduler.tick.2
    { p with scheduler, driving := !scheduler.isIdle }
  else p

/-- Take account of what the channel gave. -/
def note (p : Player η) : Received SessionEvent → Player η
  | .value (.started _ _) => p
  | .value (.completed done) =>
    { p with
      outstanding := p.outstanding - 1
      faulted := if done.completion.reason = .faulted then p.faulted + 1 else p.faulted }
  | .value (.stopped _ _) => { p with outstanding := p.outstanding - 1 }
  | .lagged _ => { p with outstanding := p.scheduler.active }
  | .empty => p

/-- Receive once, if the player still waits. -/
def receive (p : Player η) : Player η :=
  if p.waiting then
    let (received, position) := p.scheduler.channel.receive p.position
    { p with position }.note received
  else p

/-- One thing that happens to a player. -/
inductive Move where
  | tick
  | receive
  deriving DecidableEq, Repr

/-- The player after a move. -/
def move (p : Player η) : Move → Player η
  | .tick => p.tick
  | .receive => p.receive

/-- The channel has nothing new for the player. -/
def caughtUp (p : Player η) : Bool := p.scheduler.channel.tail ≤ p.position

/-- Receive what has been sent, and tick when there is nothing to receive. -/
def advance (p : Player η) : Player η := p.move (if p.caughtUp then .tick else .receive)

/-- Advance until the player waits no more, at most `budget` times. -/
def play (p : Player η) : Nat → Player η
  | 0 => p
  | budget + 1 => if p.waiting then p.advance.play budget else p

/-- How the player ends once it waits no more. -/
def verdict (p : Player η) : Except PlayerError Unit :=
  if p.faulted = 0 then .ok () else .error (.faulted p.faulted)

/-- The printed switches and variables. -/
def dump (p : Player η) : String :=
  let g := p.scheduler.services.world.game
  let switches := g.switches.sorted.map fun e => (e.1, Json.bool e.2)
  let vars := g.vars.sorted.map fun e => (e.1, Json.int e.2.toInt)
  (Json.object [("switches", .object switches), ("variables", .object vars)]).pretty 0 ++ "\n"

/-- The player of an invocation, which prints lines of text. -/
def ofInvocation (i : Invocation) (env : Variables) (read : String → Option String) :
    Except PlayerError (RuntimeConfig × Player Stage) := do
  let config ← i.settings env read
  let stage : Stage := { presenter := .console { answers := i.answers } }
  let player ← (new config.runtime ⟨i.initialGame, stage⟩).launchAll read 1 i.scripts
  return (config.runtime, player)

end Player

/-- What a run of the program shows. -/
structure Outcome where
  exitCode : Nat
  output : String := ""
  error : Option String := none
  deriving DecidableEq, Repr

namespace Outcome

/-- The program ended with an error. -/
def failure (output : String) (e : PlayerError) : Outcome := ⟨1, output, some e.message⟩

/-- The arguments say nothing. -/
def misuse (e : UsageError) : Outcome := ⟨2, "", some e.message⟩

/-- The line that tells the version. -/
def version : String := "event-player 0.1.0\n"

/-- What the player has shown once it waits no more. -/
def ofPlayer (dumpState : Bool) (p : Player Stage) : Outcome :=
  let shown := p.scheduler.services.world.host.text
  let output := if dumpState then shown ++ p.dump else shown
  match p.verdict with
  | .ok _ => ⟨0, output, none⟩
  | .error e => failure output e

end Outcome

/-- The lines that tell how to use the program. -/
def usage : String :=
  "Usage: event-player [OPTIONS] <SCRIPTS>...\n"

/-- The variables, with those of the environment file. -/
def Variables.withDefaults (env : Variables) (read : String → Option String) : Variables :=
  match read ".env" with
  | some text => env.withFile text
  | none => env

/-- Run the program on arguments, an environment and files, or nothing where it has not
ended after `budget` moves. -/
def run (arguments : List String) (env : Variables) (read : String → Option String)
    (budget : Nat) : Option Outcome :=
  match CommandLine.parse arguments with
  | .error e => some (.misuse e)
  | .ok .version => some ⟨0, Outcome.version, none⟩
  | .ok .help => some ⟨0, usage, none⟩
  | .ok (.play i) =>
    match Player.ofInvocation i (env.withDefaults read) read with
    | .error e => some (.failure "" e)
    | .ok (_, p) =>
      let p := p.play budget
      if p.waiting then none else some (.ofPlayer i.dumpState p)

end EventScript
