/-!
# Integers written in text

An integer is an optional sign and at least one ASCII digit, with nothing around it.
Digits are read from the left: the first character that is no digit, or the first
digit that takes the value past the bound, decides the defect. `Bounds` says which
values and signs a reader admits.
-/

namespace EventScript

/-- Why a text is not an integer within bounds. -/
inductive NumberDefect where
  | empty
  | invalidDigit
  | tooLarge
  | tooSmall
  deriving DecidableEq, Repr

/-- The text that names the defect. -/
def NumberDefect.message : NumberDefect → String
  | .empty => "cannot parse integer from empty string"
  | .invalidDigit => "invalid digit found in string"
  | .tooLarge => "number too large to fit in target type"
  | .tooSmall => "number too small to fit in target type"

namespace Text

/-- The value of an ASCII digit. -/
def digit? (c : Char) : Option Nat :=
  if '0' ≤ c ∧ c ≤ '9' then some (c.toNat - '0'.toNat) else none

/-- Continue a magnitude with digits; `overflow` is the defect of passing `bound`. -/
def readDigits (bound : Nat) (overflow : NumberDefect) :
    Nat → List Char → Except NumberDefect Nat
  | acc, [] => .ok acc
  | acc, c :: rest =>
    match digit? c with
    | none => .error .invalidDigit
    | some d =>
      if acc * 10 + d ≤ bound then readDigits bound overflow (acc * 10 + d) rest
      else .error overflow

/-- A magnitude from at least one digit. -/
def readMagnitude (bound : Nat) (overflow : NumberDefect) :
    List Char → Except NumberDefect Nat
  | [] => .error .invalidDigit
  | digits => readDigits bound overflow 0 digits

/-- An unsigned integer up to `bound`. A plus sign is admitted, a minus sign is not. -/
def readNat (bound : Nat) (text : String) : Except NumberDefect Nat :=
  match text.toList with
  | [] => .error .empty
  | '+' :: digits => readMagnitude bound .tooLarge digits
  | digits => readMagnitude bound .tooLarge digits

/-- A signed integer between `-(bound + 1)` and `bound`. -/
def readInt (bound : Nat) (text : String) : Except NumberDefect Int :=
  match text.toList with
  | [] => .error .empty
  | '+' :: digits => (readMagnitude bound .tooLarge digits).map Int.ofNat
  | '-' :: digits => (readMagnitude (bound + 1) .tooSmall digits).map fun n => -(n : Int)
  | digits => (readMagnitude bound .tooLarge digits).map Int.ofNat

/-- The two words of truth, exactly as written. -/
def readBool? (text : String) : Option Bool :=
  if text = "true" then some true else if text = "false" then some false else none

end Text

/-- Largest value of an unsigned 64-bit word. -/
def maxWord : Nat := 0xFFFF_FFFF_FFFF_FFFF

end EventScript
