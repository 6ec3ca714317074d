/-!
# Severity of faults

Every error of the library says how bad it is. A severity decides the recovery:
a recoverable fault drops one instruction, a validation fault rejects the whole
request, and an internal fault is a state that no valid input reaches.

Specification: `SPEC_FULL.md` §11.2 (Error handling).
-/

namespace EventScript

/-- How far a fault reaches. -/
inductive Severity where
  /-- The failing unit is dropped or replaced and the work around it goes on. -/
  | recoverable
  /-- The request is rejected as a whole. -/
  | validation
  /-- The state is inconsistent. -/
  | internal
  /-- Nothing can go on. -/
  | fatal
  deriving DecidableEq, Repr

namespace Severity

/-- The word written in answers and diagnostics. -/
def word : Severity → String
  | recoverable => "recoverable"
  | validation => "validation"
  | internal => "internal"
  | fatal => "fatal"

/-- Work may go on without the failing unit. -/
def isRecoverable (s : Severity) : Bool := s = recoverable

/-- The fault points at a defect of the program itself. -/
def isInternal (s : Severity) : Bool := s = internal || s = fatal

end Severity

/-- A type of errors: each has a stable code, a text for people and a severity. -/
class Fault (ε : Type) where
  code : ε → String
  message : ε → String
  severity : ε → Severity

end EventScript
