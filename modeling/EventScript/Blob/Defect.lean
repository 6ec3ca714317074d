import EventScript.Text.Utf8

/-!
# Defects of blobs

Why a blob does not decode. Fields are read in order, so the first defect decides.

Specification: `SPEC_FULL.md` §3 (decode failures).
-/

namespace EventScript

/-- The first defect of a blob. -/
inductive BlobDefect where
  /-- A value of fixed width runs past the end. -/
  | endOfBlob
  /-- The bytes of a string run past the end. -/
  | stringPastEnd
  | invalidBool (found : UInt8)
  | invalidOption (found : UInt8)
  /-- The index of a variant is not below the number of variants. -/
  | invalidVariant (index : Nat) (count : Nat)
  | invalidText (defect : Utf8Defect)
  deriving DecidableEq, Repr

/-- The text that names the defect. -/
def BlobDefect.message : BlobDefect → String
  | .endOfBlob => "io error: unexpected end of file"
  | .stringPastEnd => "io error: "
  | .invalidBool found =>
    s!"invalid u8 while decoding bool, expected 0 or 1, found {found.toNat}"
  | .invalidOption found => s!"tag for enum is not valid, found {found.toNat}"
  | .invalidVariant index count =>
    s!"invalid value: integer `{index}`, expected variant index 0 <= i < {count}"
  | .invalidText defect => s!"string is not valid utf8: {defect.message}"

end EventScript
