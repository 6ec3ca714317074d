import EventScript.Command.Kind
import EventScript.Severity

/-!
# Errors of programs

`ProgramError` names the defects for which a command list is rejected before it runs.
`FlowError` names the ways in which a move of the cursor has no target; a program that
was accepted is meant never to meet one.

Specification: `SPEC_FULL.md` §5 (defects of programs) and §6 (defects of moves).
-/

namespace EventScript

/-- A defect of the structure of a program. -/
inductive ProgramError where
  /-- A marker closes or continues a block that is not the innermost open one. -/
  | unmatchedMarker (index : Nat) (marker : Kind)
  /-- A second `else` for one branch. -/
  | duplicateElse (index : Nat) (branch : Nat)
  | breakOutsideLoop (index : Nat)
  | unterminatedBlock (index : Nat) (opener : Kind)
  | unknownLabel (index : Nat) (label : String)
  | duplicateLabel (index : Nat) (label : String) (first : Nat)
  deriving DecidableEq, Repr

instance : Fault ProgramError where
  code
    | .unmatchedMarker _ _ => "PROGRAM_UNMATCHED_MARKER"
    | .duplicateElse _ _ => "PROGRAM_DUPLICATE_ELSE"
    | .breakOutsideLoop _ => "PROGRAM_BREAK_OUTSIDE_LOOP"
    | .unterminatedBlock _ _ => "PROGRAM_UNTERMINATED_BLOCK"
    | .unknownLabel _ _ => "PROGRAM_UNKNOWN_LABEL"
    | .duplicateLabel _ _ _ => "PROGRAM_DUPLICATE_LABEL"
  message
    | .unmatchedMarker index marker => s!"`{marker.tag}` at {index} has no matching opener"
    | .duplicateElse index branch =>
      s!"second `else` at {index} for the branch opened at {branch}"
    | .breakOutsideLoop index => s!"`break_loop` at {index} is not inside a loop"
    | .unterminatedBlock index opener => s!"`{opener.tag}` at {index} is never closed"
    | .unknownLabel index label => s!"jump at {index} targets unknown label `{label}`"
    | .duplicateLabel index label first =>
      s!"label `{label}` at {index} already defined at {first}"
  severity _ := .validation

/-- A move of the cursor without a target. -/
inductive FlowError where
  /-- No marker matches the opener that a scan started from. -/
  | unterminatedScan (start : Nat) (opener : Kind)
  | unknownLabel (label : String)
  deriving DecidableEq, Repr

instance : Fault FlowError where
  code
    | .unterminatedScan _ _ => "FLOW_UNTERMINATED_SCAN"
    | .unknownLabel _ => "FLOW_UNKNOWN_LABEL"
  message
    | .unterminatedScan start opener => s!"no matching marker for `{opener.tag}` at {start}"
    | .unknownLabel label => s!"jump to unknown label `{label}`"
  severity _ := .internal

end EventScript
