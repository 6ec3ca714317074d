import EventScript.Command.Params
import EventScript.Proofs.Blob.Action
import EventScript.Proofs.Json.Record

/-!
# Parameters in their two forms

The parameters of an action have two forms that know nothing of each other: a JSON value, which a
script holds, and a blob, which a descriptor holds. `Action.Written` says how parameters may be
written in JSON. However they are written, they are read as the action that they came from, and
that is the one which its blob decodes to.
-/

namespace EventScript

/-! ### Variants -/

/-- A switch operation is read back from its name. -/
@[simp] theorem SwitchOperation.enum?_name (op : SwitchOperation) :
    (Json.string op.name).enum? cases = some op := by
  cases op <;> rfl

/-- A variable operation is read back from its name. -/
@[simp] theorem VariableOperation.enum?_name (op : VariableOperation) :
    (Json.string op.name).enum? cases = some op := by
  cases op <;> rfl

/-- The direction of a fade is read back from its name. -/
@[simp] theorem FadeDirection.enum?_name (d : FadeDirection) :
    (Json.string d.name).enum? cases = some d := by
  cases d <;> rfl

/-- A comparison is read back from its name. -/
@[simp] theorem Comparison.enum?_name (c : Comparison) :
    (Json.string c.name).enum? cases = some c := by
  cases c <;> rfl

/-- The mode of a condition set is read back from its name. -/
@[simp] theorem ConditionMode.enum?_name (m : ConditionMode) :
    (Json.string m.name).enum? cases = some m := by
  cases m <;> rfl

/-- An operand is read back from its written form. -/
@[simp] theorem Operand.ofJson?_toJson (o : Operand) : ofJson? o.toJson = some o := by
  cases o with
  | constant value => simp [toJson, ofJson?, Json.variant?]
  | «variable» name => rfl

/-! ### Conditions -/

namespace Condition

/-- How a condition may be written: under its name, with its fields as an object. -/
inductive Written : Condition → Json → Prop
  | switch {name : String} {expected : Bool} {contents : Json}
    (h : Json.Object [("name", .string name), ("expected", .bool expected)] contents) :
    Written (.switch name expected) (.object [("Switch", contents)])
  | variable {name : String} {comparison : Comparison} {value : Int32} {contents : Json}
    (h : Json.Object [("name", .string name), ("comparison", .string comparison.name),
      ("value", .int value.toInt)] contents) :
    Written (.variable name comparison value) (.object [("Variable", contents)])
  | selfSwitch {name : String} {expected : Bool} {contents : Json}
    (h : Json.Object [("name", .string name), ("expected", .bool expected)] contents) :
    Written (.selfSwitch name expected) (.object [("SelfSwitch", contents)])

private theorem readExpected?_of_object {name : String} {expected : Bool} {j : Json}
    (h : Json.Object [("name", .string name), ("expected", .bool expected)] j) :
    readExpected? j = some (name, expected) := by
  exact h.bind_variantSlots _

private theorem readComparison?_of_object {name : String} {comparison : Comparison}
    {value : Int32} {j : Json}
    (h : Json.Object [("name", .string name), ("comparison", .string comparison.name),
      ("value", .int value.toInt)] j) :
    readComparison? j = some (name, comparison, value) := by
  refine (h.bind_variantSlots _).trans ?_
  simp [Slot.required]

/-- However a condition is written, it is read as itself. -/
theorem Written.ofJson?_eq {c : Condition} {j : Json} (h : c.Written j) :
    ofJson? j = some c := by
  cases h with
  | switch h | selfSwitch h => simp [ofJson?, Json.variant?, readExpected?_of_object h]
  | «variable» h => simp [ofJson?, Json.variant?, readComparison?_of_object h]

/-- The JSON value of a condition is one way to write it. -/
theorem written_toJson (c : Condition) : c.Written c.toJson := by
  cases c with
  | switch => exact .switch (.intro (by simp) (List.Subset.refl _))
  | «variable» => exact .variable (.intro (by simp) (List.Subset.refl _))
  | selfSwitch => exact .selfSwitch (.intro (by simp) (List.Subset.refl _))

end Condition

namespace ConditionSet

/-- How a condition set may be written: as a record, with each condition in its own way. -/
inductive Written (s : ConditionSet) : Json → Prop
  | intro {items : List Json} {j : Json} (hitems : List.Forall₂ Condition.Written s.conditions items)
    (h : Json.Record [("conditions", .array items), ("mode", .string s.mode.name)] j) : Written s j

/-- However a condition set is written, it is read as itself. -/
theorem Written.ofJson?_eq {s : ConditionSet} {j : Json} (h : s.Written j) :
    ofJson? j = some s := by
  obtain ⟨hitems, h⟩ := h
  have hconditions := Json.listOf?_array (hitems.imp fun _ _ h => h.ofJson?_eq)
  refine (h.bind_slots _).trans ?_
  simp [Slot.required, hconditions]

/-- The JSON value of a set is one way to write it. -/
theorem written_toJson (s : ConditionSet) : s.Written s.toJson :=
  .intro (List.forall₂_map_right_iff.mpr (List.forall₂_same.mpr fun c _ => c.written_toJson))
    (.self (by simp))

end ConditionSet

/-! ### Records of the kinds -/

section

variable {fields : List (String × Json)} {j : Json}

/-- A message is read from every record of its fields. -/
theorem ShowMessage.ofJson?_of_record {p : ShowMessage} (hp : p.toJson = .object fields)
    (h : j.Record fields) : ofJson? j = some p := by
  cases hp
  have hspeaker := Json.nullable_ofOption Json.string?_string rfl p.speaker
  refine (h.bind_slots _).trans ?_
  simp [Slot.required, Slot.optional, hspeaker]

/-- A prompt is read from every record of its fields. -/
theorem ShowChoices.ofJson?_of_record {p : ShowChoices} (hp : p.toJson = .object fields)
    (h : j.Record fields) : ofJson? j = some p := by
  cases hp
  have hchoices := Json.listOf?_map Json.string?_string p.choices
  have hcancel := Json.nullable_ofOption Json.int32?_toInt rfl p.cancelIndex
  refine (h.bind_slots _).trans ?_
  simp [Slot.required, Slot.optional, hchoices, hcancel]

/-- A control of switches is read from every record of its fields. -/
theorem ControlSwitches.ofJson?_of_record {p : ControlSwitches} (hp : p.toJson = .object fields)
    (h : j.Record fields) : ofJson? j = some p := by
  cases hp
  have hswitches := Json.listOf?_map Json.string?_string p.switches
  refine (h.bind_slots _).trans ?_
  simp [Slot.required, hswitches]

/-- An update of a variable is read from every record of its fields. -/
theorem ControlVariables.ofJson?_of_record {p : ControlVariables} (hp : p.toJson = .object fields)
    (h : j.Record fields) : ofJson? j = some p := by
  cases hp
  refine (h.bind_slots _).trans ?_
  simp [Slot.required]

/-- A control of a self switch is read from every record of its fields. -/
theorem ControlSelfSwitch.ofJson?_of_record {p : ControlSelfSwitch}
    (hp : p.toJson = .object fields) (h : j.Record fields) : ofJson? j = some p := by
  cases hp
  exact h.bind_slots _

/-- A transfer is read from every record of its fields. -/
theorem TransferPlayer.ofJson?_of_record {p : TransferPlayer} (hp : p.toJson = .object fields)
    (h : j.Record fields) : ofJson? j = some p := by
  cases hp
  refine (h.bind_slots _).trans ?_
  simp [Slot.required]

/-- A fade is read from every record of its fields. -/
theorem FadeScreen.ofJson?_of_record {p : FadeScreen} (hp : p.toJson = .object fields)
    (h : j.Record fields) : ofJson? j = some p := by
  cases hp
  refine (h.bind_slots _).trans ?_
  simp [Slot.required]

/-- A shake is read from every record of its fields. -/
theorem ShakeScreen.ofJson?_of_record {p : ShakeScreen} (hp : p.toJson = .object fields)
    (h : j.Record fields) : ofJson? j = some p := by
  cases hp
  refine (h.bind_slots _).trans ?_
  simp [Slot.required]

end

namespace Action

/-- How the parameters of an action may be written. A marker is written `null`, and the parameters
of every other kind as a record of the fields of its JSON value, of which a condition set is again
a record. -/
inductive Written : Action → Json → Prop
  | marker {a : Action} (ha : a.toParams = .null) : Written a .null
  | record {a : Action} {fields : List (String × Json)} {j : Json}
    (ha : a.toParams = .object fields) (h : j.Record fields) : Written a j
  | branch {s : ConditionSet} {set j : Json} (hset : s.Written set)
    (h : j.Record [("conditions", set)]) : Written (conditionalBranch s) j

private theorem field?_of_record {α : Type} {name : String} {read : Json → Option α}
    {value j : Json} (h : j.Record [(name, value)]) : field? name read j = read value := by
  exact h.bind_slots _

private theorem toParams_cases (a : Action) :
    a.toParams = .null ∨ ∃ fields, a.toParams = .object fields ∧ (fields.map Prod.fst).Nodup := by
  cases a with
  | elseBranch | endIf | loop | breakLoop | endLoop | exitEventProcessing => exact .inl rfl
  | _ => exact .inr ⟨_, rfl, by simp⟩

/-- The JSON value of an action is one way to write its parameters. -/
theorem written_toParams (a : Action) : a.Written a.toParams := by
  rcases a.toParams_cases with hnull | ⟨fields, hfields, hkeys⟩
  · rw [hnull]
    exact .marker hnull
  · rw [hfields]
    exact .record hfields (.self hkeys)

/-- However the parameters of an action are written, they are read as the action. -/
theorem Written.ofParams?_eq {a : Action} {j : Json} (h : a.Written j) :
    ofParams? a.kind j = some a := by
  cases h with
  | marker ha =>
    cases a with
    | elseBranch | endIf | loop | breakLoop | endLoop | exitEventProcessing => rfl
    | _ => cases ha
  | record ha h =>
    cases a with
    | elseBranch | endIf | loop | breakLoop | endLoop | exitEventProcessing => cases ha
    | showMessage p => exact congrArg (Option.map _) (ShowMessage.ofJson?_of_record ha h)
    | showChoices p => exact congrArg (Option.map _) (ShowChoices.ofJson?_of_record ha h)
    | controlSwitches p => exact congrArg (Option.map _) (ControlSwitches.ofJson?_of_record ha h)
    | controlVariables p => exact congrArg (Option.map _) (ControlVariables.ofJson?_of_record ha h)
    | controlSelfSwitch p =>
      exact congrArg (Option.map _) (ControlSelfSwitch.ofJson?_of_record ha h)
    | transferPlayer p => exact congrArg (Option.map _) (TransferPlayer.ofJson?_of_record ha h)
    | fadeScreen p => exact congrArg (Option.map _) (FadeScreen.ofJson?_of_record ha h)
    | shakeScreen p => exact congrArg (Option.map _) (ShakeScreen.ofJson?_of_record ha h)
    | conditionalBranch s =>
      cases ha
      exact congrArg (Option.map _) ((field?_of_record h).trans s.written_toJson.ofJson?_eq)
    | label text | jumpToLabel text | comment text =>
      cases ha
      exact congrArg (Option.map _) (field?_of_record h)
    | wait ticks =>
      cases ha
      exact congrArg (Option.map _) ((field?_of_record h).trans (Json.uint32?_toNat ticks))
  | branch hset h =>
    exact congrArg (Option.map _) ((field?_of_record h).trans hset.ofJson?_eq)

/-- However the parameters of an action are written, in whichever order, with whatever other members
and with records as arrays, they are read as that action, whose JSON value is one of these ways. So
nothing is a way to write two actions of a kind. And what is written says what the blob says: both
are read as the same action, which holds nothing of any run. -/
theorem params_agree_with_blob (a : Action) :
    a.Written a.toParams ∧
    (∀ j, a.Written j → ofParams? a.kind j = some a) ∧
    (∀ j b, a.Written j → b.Written j → b.kind = a.kind → b = a) ∧
    (a.Storable → ∀ j, a.Written j → (decode a.kind a.encode).toOption = ofParams? a.kind j) := by
  refine ⟨a.written_toParams, fun _ h => h.ofParams?_eq, ?_, ?_⟩
  · intro j b ha hb hkind
    have hread := hb.ofParams?_eq
    rw [hkind, ha.ofParams?_eq] at hread
    exact (Option.some.inj hread).symm
  · intro hs j h
    rw [decode_encode hs, h.ofParams?_eq]
    rfl

/-- A branch with a note of its author and its conditions as an array, of which one has its fields
out of order and a member that nobody knows. -/
theorem params_agree_with_blob_branch :
    let a := conditionalBranch ⟨[.switch "met" true, .variable "gold" .less (-1)], .any⟩
    let met : Json := .object [("Switch", .object [("expected", .bool true), ("since", .null),
      ("name", .string "met")])]
    let gold := (Condition.variable "gold" .less (-1)).toJson
    let j : Json := .object [("note", .string "first"),
      ("conditions", .array [.array [met, gold], .string "Any"])]
    ofParams? .conditionalBranch j = some a ∧
      (∀ b, b.Written j → b.kind = .conditionalBranch → b = a) ∧
      (decode .conditionalBranch a.encode).toOption = ofParams? .conditionalBranch j := by
  intro a met gold j
  have hmet : (Condition.switch "met" true).Written met := .switch (.intro (by simp) (by simp))
  have hset : ConditionSet.Written ⟨[.switch "met" true, .variable "gold" .less (-1)], .any⟩
      (.array [.array [met, gold], .string "Any"]) :=
    .intro (.cons hmet (.cons (Condition.written_toJson _) .nil)) .array
  have hj : a.Written j := .branch hset (.object (.intro (by simp) (by simp)))
  obtain ⟨-, hread, hunique, hblob⟩ := params_agree_with_blob a
  exact ⟨hread j hj, fun b => hunique j b hj, hblob (by decide) j hj⟩

end Action

end EventScript
