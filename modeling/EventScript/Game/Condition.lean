import EventScript.Json.Record

/-!
# Conditions

What a conditional branch asks of the game. A set holds all or any of its conditions;
`ConditionSet.evaluate` looks at them in order and stops at the first that decides, and
`trace` lists the answers it looked at.

Specification: `SPEC_FULL.md` §9 (condition sets).
-/

namespace EventScript

/-- How the value of a variable is compared. -/
inductive Comparison where
  | equal
  | notEqual
  | greater
  | greaterOrEqual
  | less
  | lessOrEqual
  deriving DecidableEq, Repr, Inhabited

/-- The comparison of two values. -/
def Comparison.compare (c : Comparison) (a b : Int32) : Bool :=
  match c with
  | equal => a == b
  | notEqual => a != b
  | greater => decide (b < a)
  | greaterOrEqual => decide (b ≤ a)
  | less => decide (a < b)
  | lessOrEqual => decide (a ≤ b)

/-- One question about the game. -/
inductive Condition where
  | switch (name : String) (expected : Bool)
  | variable (name : String) (comparison : Comparison) (value : Int32)
  | selfSwitch (name : String) (expected : Bool)
  deriving DecidableEq, Repr, Inhabited

/-- How the conditions of a set combine. -/
inductive ConditionMode where
  /-- Every condition holds; so does the empty set. -/
  | all
  /-- At least one condition holds; the empty set does not. -/
  | any
  deriving DecidableEq, Repr, Inhabited

/-- Conditions evaluated once each time a branch is entered. -/
structure ConditionSet where
  conditions : List Condition := []
  mode : ConditionMode := .all
  deriving DecidableEq, Repr, Inhabited

namespace ConditionSet

/-- The set of one condition. -/
def single (c : Condition) : ConditionSet := ⟨[c], .all⟩

/-- Combine the answers of `check` as the mode says. -/
def evaluate (s : ConditionSet) (check : Condition → Bool) : Bool :=
  match s.mode with
  | .all => s.conditions.all check
  | .any => s.conditions.any check

/-- Answers up to the first that equals `stop`. -/
def traceUntil (stop : Bool) (check : Condition → Bool) : List Condition → List Bool
  | [] => []
  | c :: rest => if check c = stop then [stop] else check c :: traceUntil stop check rest

/-- The answers that decide the set, in the order in which they are looked at. -/
def trace (s : ConditionSet) (check : Condition → Bool) : List Bool :=
  match s.mode with
  | .all => traceUntil false check s.conditions
  | .any => traceUntil true check s.conditions

end ConditionSet

/-! ### Written form -/

/-- Comparisons by name, in the order of their binary indices. -/
def Comparison.cases : List (String × Comparison) :=
  [("Equal", .equal), ("NotEqual", .notEqual), ("Greater", .greater),
    ("GreaterOrEqual", .greaterOrEqual), ("Less", .less), ("LessOrEqual", .lessOrEqual)]

/-- The name of a comparison. -/
def Comparison.name : Comparison → String
  | equal => "Equal"
  | notEqual => "NotEqual"
  | greater => "Greater"
  | greaterOrEqual => "GreaterOrEqual"
  | less => "Less"
  | lessOrEqual => "LessOrEqual"

/-- Modes by name, in the order of their binary indices. -/
def ConditionMode.cases : List (String × ConditionMode) := [("All", .all), ("Any", .any)]

/-- The name of a mode. -/
def ConditionMode.name : ConditionMode → String
  | all => "All"
  | any => "Any"

namespace Condition

/-- The condition as JSON. -/
def toJson : Condition → Json
  | switch name expected =>
    .object [("Switch", .object [("name", .string name), ("expected", .bool expected)])]
  | .variable name comparison value =>
    .object [("Variable", .object [("name", .string name),
      ("comparison", .string comparison.name), ("value", .int value.toInt)])]
  | selfSwitch name expected =>
    .object [("SelfSwitch", .object [("name", .string name), ("expected", .bool expected)])]

/-- A name and the value expected of it. -/
def readExpected? (j : Json) : Option (String × Bool) := do
  match ← j.variantSlots ["name", "expected"] with
  | [name, expected] => return (← name.required Json.string?, ← expected.required Json.bool?)
  | _ => none

/-- A name, a comparison and a value. -/
def readComparison? (j : Json) : Option (String × Comparison × Int32) := do
  match ← j.variantSlots ["name", "comparison", "value"] with
  | [name, comparison, value] =>
    return (← name.required Json.string?, ← comparison.required (Json.enum? Comparison.cases),
      ← value.required Json.int32?)
  | _ => none

/-- Read a condition. -/
def ofJson? (j : Json) : Option Condition :=
  match j.variant? with
  | some ("Switch", some contents) =>
    (readExpected? contents).map fun r => switch r.1 r.2
  | some ("Variable", some contents) =>
    (readComparison? contents).map fun r => .variable r.1 r.2.1 r.2.2
  | some ("SelfSwitch", some contents) =>
    (readExpected? contents).map fun r => selfSwitch r.1 r.2
  | _ => none

end Condition

namespace ConditionSet

/-- The set as JSON. -/
def toJson (s : ConditionSet) : Json :=
  .object [("conditions", .array (s.conditions.map Condition.toJson)),
    ("mode", .string s.mode.name)]

/-- Read a set. -/
def ofJson? (j : Json) : Option ConditionSet := do
  match ← j.slots ["conditions", "mode"] with
  | [conditions, mode] =>
    return { conditions := ← conditions.required (Json.listOf? Condition.ofJson?)
             mode := ← mode.required (Json.enum? ConditionMode.cases) }
  | _ => none

end ConditionSet

end EventScript
