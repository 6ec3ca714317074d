import EventScript.Player.Basic

/-!
# Program

The command line program: it reads the files that its arguments name, ticks the sessions
at their period and prints lines as they are written.

Specification: `SPEC_FULL.md` §10.1 (Player binary).
-/

namespace EventScript

/-- Variables that give settings. -/
def settingNames : List String :=
  ["EVENT_EXECUTION_MODE", "EVENT_POOL_CAPACITY", "EVENT_MAX_TICKS", "EVENT_TICK_MS",
    "EVENT_BUFFER", "EVENT_MAX_SESSIONS", "EVENT_LOG_DIR", "EVENT_LOG_STDERR"]

/-- The values that the process has for variables. -/
def currentVariables (names : List String) : IO Variables := do
  let mut entries : List (String × String) := []
  for name in names do
    if let some value ← IO.getEnv name then
      entries := (name, value) :: entries
  return Variables.ofList entries

/-- The texts of files that can be read. -/
def readFiles (paths : List String) : IO (String → Option String) := do
  let mut entries : List (String × String) := []
  for path in paths do
    try
      let text ← IO.FS.readFile path
      entries := (path, text) :: entries
    catch _ => pure ()
  return Variables.ofList entries

/-- Print what a player has written after the first `shown` characters, and go on until
it waits no more. -/
partial def present (period : UInt32) (shown : Nat) (p : Player Stage) : IO (Player Stage) := do
  let text := p.scheduler.services.world.host.text
  IO.print (String.ofList (text.toList.drop shown))
  (← IO.getStdout).flush
  if p.waiting then
    if p.caughtUp then IO.sleep period
    present period text.length p.advance
  else return p

/-- End with an error. -/
def fail (exitCode : UInt32) (message : String) : IO UInt32 := do
  IO.eprintln s!"Error: {message}"
  return exitCode

/-- Do what a command line asks for. -/
def perform : Request → IO UInt32
  | .version => do
    IO.print Outcome.version
    return 0
  | .help => do
    IO.print usage
    return 0
  | .play i => do
    let read ← readFiles (".env" :: i.config.toList ++ i.scripts)
    let env ← currentVariables settingNames
    match Player.ofInvocation i (env.withDefaults read) read with
    | .error e => fail 1 e.message
    | .ok (config, p) =>
      let p ← present (UInt32.ofNat config.tickInterval) 0 p
      if i.dumpState then IO.print p.dump
      match p.verdict with
      | .ok _ => return 0
      | .error e => fail 1 e.message

end EventScript

/-- Run the scripts that the command line names. -/
def main (arguments : List String) : IO UInt32 :=
  match EventScript.CommandLine.parse arguments with
  | .ok request => EventScript.perform request
  | .error e => EventScript.fail 2 e.message
