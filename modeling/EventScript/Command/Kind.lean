/-!
# Kinds of commands

The closed set of instructions. Each kind has a tag, by which descriptors and scripts
name it, a name for people, an editor category, and a mark that says whether it belongs
on a cutscene timeline only.

Specification: `SPEC_FULL.md` §2 (command kinds) and §2.1 (Variant set).
-/

namespace EventScript

/-- Editor grouping of commands. It has no effect on a run. -/
inductive Category where
  | message
  | gameProgression
  | flowControl
  | timing
  | movement
  | screen
  | other
  deriving DecidableEq, Repr

/-- The tag of a category. -/
def Category.tag : Category → String
  | message => "message"
  | gameProgression => "game_progression"
  | flowControl => "flow_control"
  | timing => "timing"
  | movement => "movement"
  | screen => "screen"
  | other => "other"

/-- The kind of a command. -/
inductive Kind where
  | showMessage
  | showChoices
  | controlSwitches
  | controlVariables
  | controlSelfSwitch
  | conditionalBranch
  | elseBranch
  | endIf
  | loop
  | breakLoop
  | endLoop
  | label
  | jumpToLabel
  | exitEventProcessing
  | comment
  | wait
  | transferPlayer
  | fadeScreen
  | shakeScreen
  deriving DecidableEq, Repr, Inhabited

namespace Kind

/-- Every kind. -/
def all : List Kind :=
  [showMessage, showChoices, controlSwitches, controlVariables, controlSelfSwitch,
    conditionalBranch, elseBranch, endIf, loop, breakLoop, endLoop, label, jumpToLabel,
    exitEventProcessing, comment, wait, transferPlayer, fadeScreen, shakeScreen]

/-- The tag in descriptors and scripts. -/
def tag : Kind → String
  | showMessage => "show_message"
  | showChoices => "show_choices"
  | controlSwitches => "control_switches"
  | controlVariables => "control_variables"
  | controlSelfSwitch => "control_self_switch"
  | conditionalBranch => "conditional_branch"
  | elseBranch => "else"
  | endIf => "end_if"
  | loop => "loop"
  | breakLoop => "break_loop"
  | endLoop => "end_loop"
  | label => "label"
  | jumpToLabel => "jump_to_label"
  | exitEventProcessing => "exit_event_processing"
  | comment => "comment"
  | wait => "wait"
  | transferPlayer => "transfer_player"
  | fadeScreen => "fade_screen"
  | shakeScreen => "shake_screen"

/-- The kind with a tag. -/
def ofTag? (tag : String) : Option Kind := all.find? fun k => k.tag = tag

/-- The name shown to people and used in diagnostics. -/
def displayName : Kind → String
  | showMessage => "Show Message"
  | showChoices => "Show Choices"
  | controlSwitches => "Control Switches"
  | controlVariables => "Control Variables"
  | controlSelfSwitch => "Control Self Switch"
  | conditionalBranch => "Conditional Branch"
  | elseBranch => "Else"
  | endIf => "End If"
  | loop => "Loop"
  | breakLoop => "Break Loop"
  | endLoop => "Repeat Above"
  | label => "Label"
  | jumpToLabel => "Jump to Label"
  | exitEventProcessing => "Exit Event Processing"
  | comment => "Comment"
  | wait => "Wait"
  | transferPlayer => "Transfer Player"
  | fadeScreen => "Fade Screen"
  | shakeScreen => "Shake Screen"

/-- The editor category. -/
def category : Kind → Category
  | showMessage | showChoices => .message
  | controlSwitches | controlVariables | controlSelfSwitch => .gameProgression
  | conditionalBranch | elseBranch | endIf | loop | breakLoop | endLoop | label
  | jumpToLabel | exitEventProcessing => .flowControl
  | comment => .other
  | wait => .timing
  | transferPlayer => .movement
  | fadeScreen | shakeScreen => .screen

/-- The command makes sense on a cutscene timeline only. -/
def isCutsceneOnly : Kind → Bool
  | fadeScreen | shakeScreen => true
  | _ => false

/-- Every kind is listed. -/
theorem mem_all (k : Kind) : k ∈ all := by
  cases k <;> decide

/-- Tags tell kinds apart. -/
theorem tag_inj {k k' : Kind} (h : k.tag = k'.tag) : k = k' := by
  cases k <;> cases k' <;> first | rfl | exact absurd h (by decide)

/-- A kind is found under its tag. -/
theorem ofTag?_tag (k : Kind) : ofTag? k.tag = some k := by
  cases k <;> rfl

end Kind

end EventScript
