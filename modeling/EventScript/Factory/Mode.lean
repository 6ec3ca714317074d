import EventScript.Json.Record

/-!
# Execution modes

A mode says which commands a program admits before it is built.

Specification: `SPEC_FULL.md` §3 (`filter_commands_by_mode`).
-/

namespace EventScript

/-- Which commands a program admits (`ExecutionMode`). -/
inductive Mode where
  /-- Map events: no command that belongs on a cutscene timeline only. -/
  | command
  /-- Cutscene timelines: nothing but such commands. -/
  | timeline
  | hybrid
  | auto
  deriving DecidableEq, Repr

namespace Mode

instance : Inhabited Mode := ⟨auto⟩

/-- The tag of a mode. -/
def tag : Mode → String
  | command => "command"
  | timeline => "timeline"
  | hybrid => "hybrid"
  | auto => "auto"

/-- Modes by tag. -/
def cases : List (String × Mode) :=
  [("command", command), ("timeline", timeline), ("hybrid", hybrid), ("auto", auto)]

/-- The mode with a tag, whatever the case of its ASCII letters. -/
def ofText? (text : String) : Option Mode :=
  let lower := String.ofList (text.toList.map Char.toLower)
  (cases.find? fun c => c.1 = lower).map Prod.snd

/-- Read a mode, exactly as its tag is written. -/
def ofJson? (j : Json) : Option Mode := j.enum? cases

/-- The mode admits a command that does or does not belong on a timeline only. -/
def admits (m : Mode) (cutsceneOnly : Bool) : Bool :=
  match m with
  | command => !cutsceneOnly
  | timeline => cutsceneOnly
  | hybrid | auto => true

end Mode

end EventScript
