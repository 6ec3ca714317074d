/-!
# Defects of UTF-8

A byte sequence that is no UTF-8 text has a first defect. It lies after the longest
valid run of characters, and it is either a character that can no longer become valid,
with the length of the part that is to blame, or a character that the end cuts short.
-/

namespace EventScript

/-- The first place where bytes stop being UTF-8. -/
structure Utf8Defect where
  /-- Length in bytes of the valid part before it. -/
  validUpTo : Nat
  /-- Length of the invalid part, or none when the bytes end inside a character. -/
  length : Option Nat
  deriving DecidableEq, Repr

namespace Utf8Defect

/-- The text that names the defect. -/
def message : Utf8Defect → String
  | ⟨start, some n⟩ => s!"invalid utf-8 sequence of {n} bytes from index {start}"
  | ⟨start, none⟩ => s!"incomplete utf-8 byte sequence from index {start}"

/-- A continuation byte. -/
def isTail (b : UInt8) : Bool := 0x80 ≤ b && b ≤ 0xBF

/-- Whether `b` may follow the first byte of a character of three bytes. -/
def isSecondOfThree (first b : UInt8) : Bool :=
  if first = 0xE0 then 0xA0 ≤ b && b ≤ 0xBF
  else if first = 0xED then 0x80 ≤ b && b ≤ 0x9F
  else isTail b

/-- Whether `b` may follow the first byte of a character of four bytes. -/
def isSecondOfFour (first b : UInt8) : Bool :=
  if first = 0xF0 then 0x90 ≤ b && b ≤ 0xBF
  else if first = 0xF4 then 0x80 ≤ b && b ≤ 0x8F
  else isTail b

/-- Scan from `start`, the number of bytes already found valid. -/
def scan (start : Nat) : List UInt8 → Option Utf8Defect
  | [] => none
  | a :: r₁ =>
    if a < 0x80 then scan (start + 1) r₁
    else if 0xC2 ≤ a && a ≤ 0xDF then
      match r₁ with
      | [] => some ⟨start, none⟩
      | b :: r₂ => if isTail b then scan (start + 2) r₂ else some ⟨start, some 1⟩
    else if 0xE0 ≤ a && a ≤ 0xEF then
      match r₁ with
      | [] => some ⟨start, none⟩
      | b :: r₂ =>
        if isSecondOfThree a b then
          match r₂ with
          | [] => some ⟨start, none⟩
          | c :: r₃ => if isTail c then scan (start + 3) r₃ else some ⟨start, some 2⟩
        else some ⟨start, some 1⟩
    else if 0xF0 ≤ a && a ≤ 0xF4 then
      match r₁ with
      | [] => some ⟨start, none⟩
      | b :: r₂ =>
        if isSecondOfFour a b then
          match r₂ with
          | [] => some ⟨start, none⟩
          | c :: r₃ =>
            if isTail c then
              match r₃ with
              | [] => some ⟨start, none⟩
              | d :: r₄ => if isTail d then scan (start + 4) r₄ else some ⟨start, some 3⟩
            else some ⟨start, some 2⟩
        else some ⟨start, some 1⟩
    else some ⟨start, some 1⟩

/-- The first defect of bytes that are no text. -/
def of (bytes : List UInt8) : Utf8Defect := (scan 0 bytes).getD ⟨bytes.length, none⟩

end Utf8Defect

namespace Text

/-- The UTF-8 bytes of a text. -/
def toBytes (text : String) : List UInt8 := text.toUTF8.data.toList

/-- The text that bytes spell, or their first defect. -/
def ofBytes (bytes : List UInt8) : Except Utf8Defect String :=
  match String.fromUTF8? bytes.toByteArray with
  | some text => .ok text
  | none => .error (Utf8Defect.of bytes)

/-- A text is read back from its bytes. -/
theorem ofBytes_toBytes (text : String) : ofBytes (toBytes text) = .ok text := by
  have h : (toBytes text).toByteArray = text.toByteArray := by
    apply ByteArray.ext
    simp [toBytes, List.data_toByteArray]
  unfold ofBytes String.fromUTF8?
  rw [h, dif_pos text.isValidUTF8]
  rfl

/-- Bytes that spell a text are the bytes of that text. -/
theorem toBytes_of_ofBytes {bytes : List UInt8} {text : String}
    (h : ofBytes bytes = .ok text) : toBytes text = bytes := by
  unfold ofBytes String.fromUTF8? at h
  split at h
  · next found =>
    split at found
    · cases found
      cases h
      change bytes.toByteArray.data.toList = bytes
      simp [List.data_toByteArray]
    · cases found
  · cases h

end Text

end EventScript
