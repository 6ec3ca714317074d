/-!
# JSON values

The value that every structured text of the library denotes: parameters of commands,
scripts and configurations. The keys of one object are distinct. A number is an integer
of at most 64 bits or something that no field takes, kept as it was written.
-/

namespace EventScript

/-- A JSON value. -/
inductive Json where
  | null
  | bool (value : Bool)
  | int (value : Int)
  | real (literal : String)
  | string (value : String)
  | array (items : List Json)
  | object (members : List (String × Json))
  deriving Repr, Inhabited

namespace Json

/-- The value of a member. -/
def member? (key : String) : List (String × Json) → Option Json
  | [] => none
  | (k, v) :: rest => if k = key then some v else member? key rest

/-- The value under a key of an object. -/
def get? (key : String) : Json → Option Json
  | object members => member? key members
  | _ => none

/-- A truth value. -/
def bool? : Json → Option Bool
  | bool b => some b
  | _ => none

/-- A string. -/
def string? : Json → Option String
  | string s => some s
  | _ => none

/-- The items of an array. -/
def items? : Json → Option (List Json)
  | array items => some items
  | _ => none

/-- An unsigned integer up to `bound`. -/
def nat? (bound : Nat) : Json → Option Nat
  | int n => if 0 ≤ n ∧ n ≤ bound then some n.toNat else none
  | _ => none

/-- An unsigned 64-bit integer. -/
def word? : Json → Option Nat := nat? 0xFFFF_FFFF_FFFF_FFFF

/-- An unsigned 32-bit integer. -/
def uint32? (j : Json) : Option UInt32 := (j.nat? 0xFFFF_FFFF).map UInt32.ofNat

/-- An unsigned 8-bit integer. -/
def uint8? (j : Json) : Option UInt8 := (j.nat? 255).map UInt8.ofNat

/-- A signed 32-bit integer. -/
def int32? : Json → Option Int32
  | int n => if -0x8000_0000 ≤ n ∧ n < 0x8000_0000 then some (Int32.ofInt n) else none
  | _ => none

/-- Read every item, or nothing. -/
def readAll {α : Type} (read : Json → Option α) : List Json → Option (List α)
  | [] => some []
  | j :: rest =>
    match read j, readAll read rest with
    | some a, some as => some (a :: as)
    | _, _ => none

/-- An array whose items are all read by `read`. -/
def listOf? {α : Type} (read : Json → Option α) (j : Json) : Option (List α) :=
  j.items?.bind (readAll read)

/-- `null` for nothing. -/
def ofOption {α : Type} (write : α → Json) : Option α → Json
  | none => null
  | some a => write a

/-- An unsigned integer. -/
def ofNat (n : Nat) : Json := int n

end Json

end EventScript
