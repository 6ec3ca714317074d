import EventScript.Blob.Defect

/-!
# Blob codecs

A codec writes values as bytes and reads one back from the front of a blob, with the
bytes that follow. Integers have fixed width, least significant byte first. A string is
its length in eight bytes and its UTF-8 bytes, a list its length in eight bytes and its
items, an option a byte of 0 or 1 and its value. A variant starts with its index in four
bytes.

Specification: `SPEC_FULL.md` §2 (parameters of a descriptor).
-/

namespace EventScript

/-- How values of a type are written in blobs. -/
structure Codec (α : Type) where
  write : α → List UInt8
  /-- The value at the front, and the bytes after it. -/
  read : List UInt8 → Except BlobDefect (α × List UInt8)

namespace Codec

variable {α β : Type}

/-- The `width` lowest bytes of a number. -/
def lowBytes : Nat → Nat → List UInt8
  | 0, _ => []
  | width + 1, n => UInt8.ofNat n :: lowBytes width (n / 256)

/-- The number that bytes write. -/
def ofBytes : List UInt8 → Nat
  | [] => 0
  | b :: rest => b.toNat + 256 * ofBytes rest

/-- Cut a fixed number of bytes off, or fail with `short`. -/
def cut (short : BlobDefect) (width : Nat) (bytes : List UInt8) :
    Except BlobDefect (List UInt8 × List UInt8) :=
  if width ≤ bytes.length then .ok (bytes.take width, bytes.drop width) else .error short

/-- Go on with what was read. -/
def continueWith (r : Except BlobDefect (α × List UInt8))
    (next : α → List UInt8 → Except BlobDefect (β × List UInt8)) :
    Except BlobDefect (β × List UInt8) :=
  match r with
  | .ok (a, rest) => next a rest
  | .error e => .error e

/-- The same bytes for another type. -/
def convert (c : Codec α) (forth : α → β) (back : β → α) : Codec β where
  write b := c.write (back b)
  read bytes := continueWith (c.read bytes) fun a rest => .ok (forth a, rest)

/-- A value that writes nothing. -/
def nothing (a : α) : Codec α where
  write _ := []
  read bytes := .ok (a, bytes)

/-- One value after another. -/
def seq (c : Codec α) (d : Codec β) : Codec (α × β) where
  write p := c.write p.1 ++ d.write p.2
  read bytes :=
    continueWith (c.read bytes) fun a rest =>
      continueWith (d.read rest) fun b rest => .ok ((a, b), rest)

/-- A number of `width` bytes. -/
def number (width : Nat) : Codec Nat where
  write n := lowBytes width n
  read bytes :=
    continueWith (cut .endOfBlob width bytes) fun front rest => .ok (ofBytes front, rest)

/-- An unsigned byte. -/
def uint8 : Codec UInt8 := (number 1).convert UInt8.ofNat UInt8.toNat

/-- An unsigned word of four bytes. -/
def uint32 : Codec UInt32 := (number 4).convert UInt32.ofNat UInt32.toNat

/-- A signed word of four bytes, in two's complement. -/
def int32 : Codec Int32 := uint32.convert UInt32.toInt32 Int32.toUInt32

/-- A truth value in one byte. -/
def bool : Codec Bool where
  write b := [if b then 1 else 0]
  read bytes :=
    continueWith (cut .endOfBlob 1 bytes) fun front rest =>
      match front with
      | [0] => .ok (false, rest)
      | [1] => .ok (true, rest)
      | b :: _ => .error (.invalidBool b)
      | [] => .error .endOfBlob

/-- A length in eight bytes. -/
def length : Codec Nat := number 8

/-- A text. -/
def string : Codec String where
  write s := length.write (Text.toBytes s).length ++ Text.toBytes s
  read bytes :=
    continueWith (length.read bytes) fun n rest =>
      continueWith (cut .stringPastEnd n rest) fun body rest =>
        match Text.ofBytes body with
        | .ok s => .ok (s, rest)
        | .error defect => .error (.invalidText defect)

/-- A value or none. -/
def option (c : Codec α) : Codec (Option α) where
  write
    | none => [0]
    | some a => 1 :: c.write a
  read bytes :=
    continueWith (cut .endOfBlob 1 bytes) fun front rest =>
      match front with
      | [0] => .ok (none, rest)
      | [1] => continueWith (c.read rest) fun a rest => .ok (some a, rest)
      | b :: _ => .error (.invalidOption b)
      | [] => .error .endOfBlob

/-- Read `count` items. -/
def readMany (read : List UInt8 → Except BlobDefect (α × List UInt8)) :
    Nat → List UInt8 → Except BlobDefect (List α × List UInt8)
  | 0, bytes => .ok ([], bytes)
  | count + 1, bytes =>
    continueWith (read bytes) fun a rest =>
      continueWith (readMany read count rest) fun as rest => .ok (a :: as, rest)

/-- Any number of items. -/
def list (c : Codec α) : Codec (List α) where
  write as := length.write as.length ++ as.flatMap c.write
  read bytes := continueWith (length.read bytes) fun count rest => readMany c.read count rest

/-- The index of a variant, in four bytes. -/
def index : Codec Nat := number 4

/-- One of finitely many values, by its index. -/
def oneOf [DecidableEq α] (values : List α) : Codec α where
  write a := index.write (values.idxOf a)
  read bytes :=
    continueWith (index.read bytes) fun i rest =>
      match values[i]? with
      | some a => .ok (a, rest)
      | none => .error (.invalidVariant i values.length)

end Codec

end EventScript
