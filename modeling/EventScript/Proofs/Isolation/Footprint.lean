import EventScript.Proofs.Session.Step

/-!
# What a program mentions

The game has places: variables and switches by their names, and self switches by their owners and
names. A command mentions a place as a target of its change, as an operand, as what the answer of a
prompt is stored in, or in a condition. All that a program mentions is its footprint; it writes the
targets and what answers are stored in, and nothing else.
-/

namespace EventScript

/-- A place of the game. -/
inductive Cell where
  | variable (name : String)
  | switch (name : String)
  | selfSwitch (owner : Owner) (name : String)
  deriving DecidableEq

/-- What a place holds. -/
def Cell.Content : Cell → Type
  | .variable _ => Int32
  | .switch _ | .selfSwitch _ _ => Bool

namespace GameState

/-- What is found at a place. -/
def read (g : GameState) : (cell : Cell) → cell.Content
  | .variable name => g.getVariable name
  | .switch name => g.getSwitch name
  | .selfSwitch owner name => g.getSelfSwitch owner name

/-- Put something at a place. -/
def put (g : GameState) : (cell : Cell) → cell.Content → GameState
  | .variable name, value => g.setVariable name value
  | .switch name, value => g.setSwitch name value
  | .selfSwitch owner name, value => g.setSelfSwitch owner name value

/-- What was put at a place is found there. -/
theorem read_put_self (g : GameState) (cell : Cell) (content : cell.Content) :
    (g.put cell content).read cell = content := by
  cases cell <;> exact congrArg (Option.getD · _) (Table.find?_insert_self ..)

/-- No other place changes. -/
theorem read_put_of_ne (g : GameState) {cell other : Cell} (content : cell.Content)
    (h : other ≠ cell) : (g.put cell content).read other = g.read other := by
  cases cell with
  | «variable» name =>
    cases other with
    | «variable» => exact congrArg (Option.getD · _) (Table.find?_insert_of_ne _ _ (by grind))
    | switch | selfSwitch => rfl
  | switch name =>
    cases other with
    | switch => exact congrArg (Option.getD · _) (Table.find?_insert_of_ne _ _ (by grind))
    | «variable» | selfSwitch => rfl
  | selfSwitch owner name =>
    cases other with
    | selfSwitch => exact congrArg (Option.getD · _) (Table.find?_insert_of_ne _ _ (by grind))
    | «variable» | switch => rfl

end GameState

/-- How a command mentions a place. -/
inductive Role where
  /-- It is changed. -/
  | target
  /-- It is the right-hand side of an update. -/
  | operand
  /-- The answer of a prompt is stored in it. -/
  | answer
  | condition
  deriving DecidableEq

/-- The place is written. -/
def Role.writes : Role → Bool
  | target | answer => true
  | operand | condition => false

/-- A place with the way it is mentioned in. -/
structure Mention where
  role : Role
  cell : Cell
  deriving DecidableEq

/-- Places with the ways they are mentioned in. -/
abbrev Mentions := List Mention

namespace Mentions

/-- The places that are mentioned. -/
def footprint (ms : Mentions) : List Cell := ms.map Mention.cell

/-- The places that are written. -/
def writes (ms : Mentions) : List Cell := (ms.filter fun m => m.role.writes).map Mention.cell

/-- The places that are mentioned as targets, without those that answers are stored in. -/
def targets (ms : Mentions) : List Cell := (ms.filter fun m => m.role = .target).map Mention.cell

variable {ms others : Mentions} {m : Mention}

/-- A cell that is mentioned is in the footprint. -/
theorem mem_footprint (h : m ∈ ms) : m.cell ∈ ms.footprint := List.mem_map_of_mem h

/-- A cell that is mentioned to be written is among the writes. -/
theorem mem_writes (h : m ∈ ms) (hw : m.role.writes = true) : m.cell ∈ ms.writes :=
  List.mem_map_of_mem (List.mem_filter.mpr ⟨h, hw⟩)

/-- More mentions have a larger footprint. -/
theorem footprint_mono (h : ms ⊆ others) : ms.footprint ⊆ others.footprint := List.map_subset _ h

/-- More mentions have more writes. -/
theorem writes_mono (h : ms ⊆ others) : ms.writes ⊆ others.writes :=
  List.map_subset _ (List.filter_subset _ h)

end Mentions

/-- The place that a condition asks for. -/
def Condition.cell (owner : Owner) : Condition → Cell
  | .switch name _ => .switch name
  | .variable name _ _ => .variable name
  | .selfSwitch name _ => .selfSwitch owner name

/-- What an operand mentions. -/
def Operand.mentions : Operand → Mentions
  | constant _ => []
  | .variable name => [⟨.operand, .variable name⟩]

/-- What an action of an owner mentions. -/
def Action.mentions (owner : Owner) : Action → Mentions
  | showChoices p => [⟨.answer, .variable p.resultVariable⟩]
  | controlSwitches p => p.switches.map fun name => ⟨.target, .switch name⟩
  | controlVariables p => ⟨.target, .variable p.target⟩ :: p.operand.mentions
  | controlSelfSwitch p => [⟨.target, .selfSwitch owner p.name⟩]
  | conditionalBranch set => set.conditions.map fun c => ⟨.condition, c.cell owner⟩
  | _ => []

namespace Program

/-- What a program of an owner mentions. -/
def mentions (owner : Owner) (p : Program) : Mentions :=
  p.actions.flatMap (Action.mentions owner)

/-- What a command mentions, its program mentions. -/
theorem mentions_of_get? {p : Program} {i : Nat} {c : Command} (h : p.get? i = some c)
    (owner : Owner) : c.action.mentions owner ⊆ p.mentions owner := by
  have ha : c.action ∈ p.actions := List.mem_map_of_mem (List.mem_of_getElem? h)
  intro m hm
  exact List.mem_flatMap.mpr ⟨c.action, ha, hm⟩

/-- What a program mentions is written of it. -/
theorem mentions_eq_of_written_eq {p q : Program} (h : p.written = q.written) (owner : Owner) :
    p.mentions owner = q.mentions owner := by
  rw [mentions, mentions, actions_eq_of_written_eq h]

end Program

end EventScript
