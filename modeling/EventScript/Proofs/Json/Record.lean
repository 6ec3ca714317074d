import EventScript.Json.Record
import Mathlib.Data.List.Forall2
import Mathlib.Data.List.Nodup

/-!
# Written records

A record may be written in many ways: as an object that holds its fields in any order and among
members that it does not know, or as an array of their values in order. `Json.Record` is this
relation, and `Json.Object` the part of it that the contents of a variant admit. However a
record is written, each of its fields finds its own value.
-/

namespace EventScript

namespace Json

/-- The value is an object that holds fields, in any order and among any other members. -/
inductive Object (fields : List (String × Json)) : Json → Prop
  | intro {members : List (String × Json)} (hkeys : (members.map Prod.fst).Nodup)
    (hfields : fields ⊆ members) : Object fields (.object members)

/-- The value is a record of fields: an object that holds them, or an array of their values. -/
inductive Record (fields : List (String × Json)) : Json → Prop
  | object {j : Json} (h : Object fields j) : Record fields j
  | array : Record fields (.array (fields.map Prod.snd))

variable {fields : List (String × Json)} {j : Json}

/-- Among distinct keys the member with a key is the one that is found. -/
theorem member?_eq_of_mem {members : List (String × Json)} {key : String}
    (hkeys : (members.map Prod.fst).Nodup) (h : (key, j) ∈ members) :
    member? key members = some j := by
  induction members with
  | nil => cases h
  | cons m rest ih =>
    obtain ⟨key', j'⟩ := m
    rw [List.map_cons, List.nodup_cons] at hkeys
    rcases List.mem_cons.mp h with heq | hrest
    · cases heq
      exact if_pos rfl
    · have hne : key' ≠ key := by
        rintro rfl
        exact hkeys.1 (List.mem_map.mpr ⟨_, hrest, rfl⟩)
      rw [member?, if_neg hne]
      exact ih hkeys.2 hrest

/-- An object that holds fields has each of them in its slot. -/
theorem Object.slots (h : Object fields j) :
    j.slots (fields.map Prod.fst) = some (fields.map fun f => .given f.2) := by
  obtain ⟨hkeys, hfields⟩ := h
  rw [Json.slots, List.map_map]
  congr 1
  apply List.map_congr_left
  intro f hf
  rw [Function.comp_apply, member?_eq_of_mem hkeys (hfields hf)]
  rfl

/-- However a record is written, it has each of its fields in its slot. -/
theorem Record.slots (h : Record fields j) :
    j.slots (fields.map Prod.fst) = some (fields.map fun f => .given f.2) := by
  cases h with
  | object h => exact h.slots
  | array =>
    rw [Json.slots, Slot.ofItems, if_pos (by simp)]
    simp

/-- So whatever is built from the slots of a record is built from its own fields. -/
theorem Record.bind_slots {α : Type} (h : Record fields j) (build : List (Slot Json) → Option α) :
    (j.slots (fields.map Prod.fst) >>= build) = build (fields.map fun f => .given f.2) := by
  rw [h.slots]
  rfl

/-- And so it is with the contents of a variant. -/
theorem Object.bind_variantSlots {α : Type} (h : Object fields j)
    (build : List (Slot Json) → Option α) :
    (j.variantSlots (fields.map Prod.fst) >>= build) =
      build (fields.map fun f => .given f.2) := by
  have hslots := h.slots
  cases h
  rw [variantSlots, hslots]
  rfl

/-- Fields with distinct names are written as an object of just these. -/
theorem Record.self (hkeys : (fields.map Prod.fst).Nodup) : Record fields (.object fields) :=
  .object (.intro hkeys (List.Subset.refl _))

/-! ### Values read back -/

/-- A string is read as it is. -/
@[simp] theorem string?_string (s : String) : (Json.string s).string? = some s := rfl

/-- A truth value is read as it is. -/
@[simp] theorem bool?_bool (b : Bool) : (Json.bool b).bool? = some b := rfl

/-- A signed integer of 32 bits is read back. -/
@[simp] theorem int32?_toInt (n : Int32) : (Json.int n.toInt).int32? = some n := by
  have hlow := n.le_toInt
  have hhigh := n.toInt_lt
  rw [int32?, if_pos (by omega), Int32.ofInt_toInt]

/-- An unsigned integer of 32 bits is read back. -/
@[simp] theorem uint32?_toNat (n : UInt32) : (Json.ofNat n.toNat).uint32? = some n := by
  have hbound := n.toNat_lt
  simp only [ofNat, uint32?, nat?]
  rw [if_pos (by omega)]
  simp

/-- An unsigned integer of 8 bits is read back. -/
@[simp] theorem uint8?_toNat (n : UInt8) : (Json.ofNat n.toNat).uint8? = some n := by
  have hbound := n.toNat_lt
  simp only [ofNat, uint8?, nat?]
  rw [if_pos (by omega)]
  simp

/-- A value that may be none is read back where no value is written as `null`. -/
theorem nullable_ofOption {α : Type} {read : Json → Option α} {write : α → Json}
    (hread : ∀ a, read (write a) = some a) (hnull : read .null = none) (o : Option α) :
    nullable read (ofOption write o) = some o := by
  cases o with
  | none => rfl
  | some a =>
    have hne : write a ≠ .null := by
      intro h
      have hnone := hread a
      rw [h, hnull] at hnone
      cases hnone
    rw [ofOption]
    cases hw : write a with
    | null => exact absurd hw hne
    | _ => simp [nullable, ← hw, hread]

/-- A list is read from an array whose items are read each as its own. -/
theorem listOf?_array {α : Type} {read : Json → Option α} {as : List α} {items : List Json}
    (h : List.Forall₂ (fun a j => read j = some a) as items) :
    listOf? read (.array items) = some as := by
  change readAll read items = some as
  induction h with
  | nil => rfl
  | cons hfirst _ ih => rw [readAll, hfirst, ih]

/-- A list is read back from what is written item by item. -/
theorem listOf?_map {α : Type} {read : Json → Option α} {write : α → Json}
    (hread : ∀ a, read (write a) = some a) (as : List α) :
    listOf? read (.array (as.map write)) = some as :=
  listOf?_array (List.forall₂_map_right_iff.mpr (List.forall₂_same.mpr fun a _ => hread a))

end Json

end EventScript
