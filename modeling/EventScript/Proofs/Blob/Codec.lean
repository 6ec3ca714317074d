import EventScript.Blob.Codec
import Mathlib.Algebra.Ring.Nat

/-!
# Exact codecs

A codec is exact when reading gives a value, and the bytes after it, just where the bytes
start with that value as it is written. Reading then undoes writing whatever follows, and no
value has a second written form. The one limit is in lengths, which are written in eight
bytes: an exact codec is stated with the lengths that a value records, and every one of them
has to be below `2 ^ 64`.
-/

namespace EventScript

namespace Codec

variable {α β : Type}

/-- Lengths that eight bytes can hold. -/
def Fit (lengths : List Nat) : Prop := ∀ n ∈ lengths, n < 2 ^ 64

instance (lengths : List Nat) : Decidable (Fit lengths) :=
  inferInstanceAs (Decidable (∀ n ∈ lengths, n < 2 ^ 64))

/-- No length at all fits. -/
@[simp] theorem fit_nil : Fit [] := by simp [Fit]

/-- Lengths fit when the first one and the others do. -/
@[simp] theorem fit_cons (n : Nat) (lengths : List Nat) :
    Fit (n :: lengths) ↔ n < 2 ^ 64 ∧ Fit lengths := List.forall_mem_cons

/-- Two lists of lengths fit together when each of them does. -/
@[simp] theorem fit_append (l m : List Nat) : Fit (l ++ m) ↔ Fit l ∧ Fit m :=
  List.forall_mem_append

/-- Reading gives a value just where the bytes start with its written form, and the lengths
that it records fit. -/
def Exact (c : Codec α) (lengths : α → List Nat) : Prop :=
  ∀ bytes a rest, c.read bytes = .ok (a, rest) ↔ Fit (lengths a) ∧ bytes = c.write a ++ rest

/-- Going on with what was read. -/
theorem continueWith_eq_ok {r : Except BlobDefect (α × List UInt8)}
    {next : α → List UInt8 → Except BlobDefect (β × List UInt8)} {x : β × List UInt8} :
    continueWith r next = .ok x ↔ ∃ a rest, r = .ok (a, rest) ∧ next a rest = .ok x := by
  cases r with
  | error e => simp [continueWith]
  | ok p =>
    constructor
    · exact fun h => ⟨p.1, p.2, rfl, h⟩
    · rintro ⟨a, rest, h, hnext⟩
      cases h
      exact hnext

/-! ### Numbers -/

/-- As many bytes are written as the width says. -/
@[simp] theorem length_lowBytes (width n : Nat) : (lowBytes width n).length = width := by
  induction width generalizing n with
  | zero => rfl
  | succ width ih => rw [lowBytes, List.length_cons, ih]

/-- Enough bytes write the number itself. -/
theorem ofBytes_lowBytes {width n : Nat} (h : n < 256 ^ width) :
    ofBytes (lowBytes width n) = n := by
  induction width generalizing n with
  | zero => rw [Nat.pow_zero] at h; rw [lowBytes, ofBytes]; omega
  | succ width ih =>
    have hrest : n / 256 < 256 ^ width := by
      rw [Nat.pow_succ] at h
      omega
    rw [lowBytes, ofBytes, ih hrest, UInt8.toNat_ofNat']
    omega

/-- Bytes are those of the number that they write. -/
theorem lowBytes_ofBytes (bytes : List UInt8) :
    lowBytes bytes.length (ofBytes bytes) = bytes := by
  induction bytes with
  | nil => rfl
  | cons b rest ih =>
    have hb := b.toNat_lt
    have hrest : (b.toNat + 256 * ofBytes rest) / 256 = ofBytes rest := by omega
    rw [List.length_cons, ofBytes, lowBytes, hrest, ih]
    congr 1
    apply UInt8.toNat_inj.mp
    rw [UInt8.toNat_ofNat']
    omega

/-- What bytes can write. -/
theorem ofBytes_lt (bytes : List UInt8) : ofBytes bytes < 256 ^ bytes.length := by
  induction bytes with
  | nil => exact Nat.one_pos
  | cons b rest ih =>
    have hb := b.toNat_lt
    rw [ofBytes, List.length_cons, Nat.pow_succ]
    omega

/-- A cut succeeds where there are enough bytes. -/
theorem cut_eq_ok {short : BlobDefect} {width : Nat} {bytes front rest : List UInt8} :
    cut short width bytes = .ok (front, rest) ↔ front.length = width ∧ bytes = front ++ rest := by
  unfold cut
  constructor
  · intro h
    split at h
    · next hle =>
      cases h
      exact ⟨List.length_take_of_le hle, (List.take_append_drop width bytes).symm⟩
    · cases h
  · rintro ⟨rfl, rfl⟩
    rw [if_pos (by simp), List.take_left, List.drop_left]

/-- A number is read from its bytes, and from nothing else. -/
theorem read_number {width n : Nat} {bytes rest : List UInt8} :
    (number width).read bytes = .ok (n, rest) ↔
      n < 256 ^ width ∧ bytes = lowBytes width n ++ rest := by
  simp only [number, continueWith_eq_ok, cut_eq_ok]
  constructor
  · rintro ⟨front, rest', ⟨rfl, rfl⟩, h⟩
    cases h
    exact ⟨ofBytes_lt front, by rw [lowBytes_ofBytes]⟩
  · rintro ⟨hn, rfl⟩
    exact ⟨_, _, ⟨length_lowBytes width n, rfl⟩, by rw [ofBytes_lowBytes hn]⟩

/-! ### Exactness of the combinators -/

/-- The lengths may be listed in another way. -/
theorem Exact.congr {c : Codec α} {l m : α → List Nat} (h : c.Exact l)
    (hlm : ∀ a, Fit (l a) ↔ Fit (m a)) : c.Exact m := by
  intro bytes a rest
  rw [h, hlm]

/-- Making something of a value that was read. -/
theorem Exact.made {c : Codec α} {l : α → List Nat} (hc : c.Exact l) {make : α → β} {b : β}
    {bytes rest : List UInt8} :
    continueWith (c.read bytes) (fun a rest => .ok (make a, rest)) = .ok (b, rest) ↔
      ∃ a, make a = b ∧ Fit (l a) ∧ bytes = c.write a ++ rest := by
  rw [continueWith_eq_ok]
  constructor
  · rintro ⟨a, rest', hread, h⟩
    cases h
    exact ⟨a, rfl, (hc _ _ _).mp hread⟩
  · rintro ⟨a, rfl, h⟩
    exact ⟨a, rest, (hc _ _ _).mpr h, rfl⟩

/-- Another type with the same values. -/
theorem Exact.convert {c : Codec α} {l : α → List Nat} {forth : α → β} {back : β → α}
    (h : c.Exact l) (hforth : ∀ a, back (forth a) = a) (hback : ∀ b, forth (back b) = b) :
    (c.convert forth back).Exact fun b => l (back b) := by
  intro bytes b rest
  rw [Codec.convert, h.made]
  constructor
  · rintro ⟨a, rfl, hfit⟩
    simpa only [hforth] using hfit
  · exact fun hfit => ⟨back b, hback b, hfit⟩

/-- One value after another. -/
theorem Exact.seq {c : Codec α} {d : Codec β} {l : α → List Nat} {m : β → List Nat}
    (hc : c.Exact l) (hd : d.Exact m) : (c.seq d).Exact fun p => l p.1 ++ m p.2 := by
  rintro bytes ⟨a, b⟩ rest
  simp only [Codec.seq, continueWith_eq_ok, hc bytes, fit_append]
  constructor
  · rintro ⟨a', rest₁, ⟨ha, rfl⟩, b', rest₂, hb, h⟩
    cases h
    obtain ⟨hfit, rfl⟩ := (hd _ _ _).mp hb
    exact ⟨⟨ha, hfit⟩, (List.append_assoc ..).symm⟩
  · rintro ⟨⟨ha, hb⟩, rfl⟩
    exact ⟨a, _, ⟨ha, List.append_assoc ..⟩, b, rest, (hd _ _ _).mpr ⟨hb, rfl⟩, rfl⟩

private theorem exact_word {width : Nat} {forth : Nat → α} {back : α → Nat}
    (hforth : ∀ n < 256 ^ width, back (forth n) = n) (hback : ∀ a, forth (back a) = a)
    (hlt : ∀ a, back a < 256 ^ width) :
    ((number width).convert forth back).Exact fun _ => [] := by
  intro bytes a rest
  simp only [Codec.convert, continueWith_eq_ok, read_number, fit_nil, true_and]
  constructor
  · rintro ⟨n, rest', ⟨hn, rfl⟩, h⟩
    cases h
    rw [hforth n hn]
    rfl
  · rintro rfl
    exact ⟨back a, rest, ⟨hlt a, rfl⟩, by rw [hback]⟩

/-- Unsigned integers of one byte are read back. -/
theorem uint8_exact : uint8.Exact fun _ => [] :=
  exact_word (fun _ h => UInt8.toNat_ofNat_of_lt h) (fun _ => UInt8.ofNat_toNat)
    fun b => b.toNat_lt

/-- Unsigned integers of four bytes are read back. -/
theorem uint32_exact : uint32.Exact fun _ => [] :=
  exact_word (fun _ h => UInt32.toNat_ofNat_of_lt h) (fun _ => UInt32.ofNat_toNat)
    fun n => n.toNat_lt

/-- Signed integers of four bytes are read back. -/
theorem int32_exact : int32.Exact fun _ => [] :=
  uint32_exact.convert (fun _ => rfl) fun _ => rfl

private theorem cut_one_eq_ok {short : BlobDefect} {bytes front rest : List UInt8} :
    cut short 1 bytes = .ok (front, rest) ↔ ∃ b, front = [b] ∧ bytes = b :: rest := by
  rw [cut_eq_ok, List.length_eq_one_iff]
  constructor
  · rintro ⟨⟨b, rfl⟩, rfl⟩
    exact ⟨b, rfl, rfl⟩
  · rintro ⟨b, rfl, rfl⟩
    exact ⟨⟨b, rfl⟩, rfl⟩

/-- A truth value is a byte of 0 or 1 and no other. -/
theorem bool_exact : bool.Exact fun _ => [] := by
  intro bytes a rest
  simp only [bool, continueWith_eq_ok, cut_one_eq_ok, fit_nil, true_and]
  constructor
  · rintro ⟨front, rest', ⟨b, rfl, rfl⟩, h⟩
    split at h
    · next hb => cases hb; cases h; rfl
    · next hb => cases hb; cases h; rfl
    · cases h
    · cases h
  · rintro rfl
    cases a with
    | false => exact ⟨[0], rest, ⟨0, rfl, rfl⟩, rfl⟩
    | true => exact ⟨[1], rest, ⟨1, rfl, rfl⟩, rfl⟩

/-- A value or none. -/
theorem Exact.option {c : Codec α} {l : α → List Nat} (hc : c.Exact l) :
    c.option.Exact fun o => o.toList.flatMap l := by
  intro bytes o rest
  simp only [Codec.option, continueWith_eq_ok, cut_one_eq_ok]
  constructor
  · rintro ⟨front, rest', ⟨b, rfl, rfl⟩, h⟩
    split at h
    · next hb =>
      cases hb
      cases h
      exact ⟨fit_nil, rfl⟩
    · next hb =>
      obtain ⟨a, rest'', ha, h⟩ := continueWith_eq_ok.mp h
      cases hb
      cases h
      obtain ⟨hfit, rfl⟩ := (hc _ _ _).mp ha
      exact ⟨by simpa using hfit, rfl⟩
    · cases h
    · cases h
  · rintro ⟨hfit, rfl⟩
    cases o with
    | none => exact ⟨[0], rest, ⟨0, rfl, rfl⟩, rfl⟩
    | some a =>
      have hread := (hc (c.write a ++ rest) a rest).mpr ⟨by simpa using hfit, rfl⟩
      exact ⟨[1], _, ⟨1, rfl, rfl⟩, continueWith_eq_ok.mpr ⟨a, rest, hread, rfl⟩⟩

/-- The length that a text records. -/
def textLengths (s : String) : List Nat := [(Text.toBytes s).length]

/-- A string is its length and its UTF-8 bytes, where the length fits. -/
theorem string_exact : string.Exact textLengths := by
  intro bytes s rest
  simp only [string, length, continueWith_eq_ok, read_number, cut_eq_ok, textLengths, fit_cons,
    fit_nil, and_true]
  constructor
  · rintro ⟨n, rest', ⟨hn, rfl⟩, body, rest'', ⟨rfl, rfl⟩, h⟩
    split at h
    · next found =>
      cases h
      rw [Text.toBytes_of_ofBytes found]
      exact ⟨hn, (List.append_assoc ..).symm⟩
    · cases h
  · rintro ⟨hn, rfl⟩
    refine ⟨_, _, ⟨hn, List.append_assoc ..⟩, _, rest, ⟨rfl, rfl⟩, ?_⟩
    rw [Text.ofBytes_toBytes]

/-- As many items as were counted. -/
theorem Exact.readMany {c : Codec α} {l : α → List Nat} (hc : c.Exact l) {count : Nat}
    {bytes : List UInt8} {as : List α} {rest : List UInt8} :
    readMany c.read count bytes = .ok (as, rest) ↔
      as.length = count ∧ Fit (as.flatMap l) ∧ bytes = as.flatMap c.write ++ rest := by
  induction count generalizing bytes as rest with
  | zero =>
    rw [Codec.readMany, List.length_eq_zero_iff]
    constructor
    · intro h
      cases h
      exact ⟨rfl, fit_nil, rfl⟩
    · rintro ⟨rfl, -, rfl⟩
      rfl
  | succ count ih =>
    simp only [Codec.readMany, continueWith_eq_ok, hc bytes, ih]
    constructor
    · rintro ⟨a, _, ⟨ha, rfl⟩, as, rest', ⟨rfl, has, rfl⟩, h⟩
      cases h
      exact ⟨rfl, by simp [ha, has], by simp⟩
    · rintro ⟨hlen, hfit, rfl⟩
      obtain ⟨a, as, rfl⟩ := List.exists_cons_of_length_eq_add_one hlen
      rw [List.flatMap_cons, fit_append] at hfit
      exact ⟨a, _, ⟨hfit.1, by simp⟩, as, rest, ⟨by simpa using hlen, hfit.2, rfl⟩, rfl⟩

/-- Any number of items. -/
theorem Exact.list {c : Codec α} {l : α → List Nat} (hc : c.Exact l) :
    (Codec.list c).Exact fun as => as.length :: as.flatMap l := by
  intro bytes as rest
  simp only [Codec.list, length, continueWith_eq_ok, read_number, hc.readMany, fit_cons]
  constructor
  · rintro ⟨n, _, ⟨hn, rfl⟩, rfl, hfit, rfl⟩
    exact ⟨⟨hn, hfit⟩, (List.append_assoc ..).symm⟩
  · rintro ⟨⟨hn, hfit⟩, rfl⟩
    exact ⟨_, _, ⟨hn, List.append_assoc ..⟩, rfl, hfit, rfl⟩

/-- One of few values, all of which are listed once. -/
theorem oneOf_exact [DecidableEq α] {values : List α} (hall : ∀ a, a ∈ values)
    (honce : values.Nodup) (hfew : values.length ≤ 256 ^ 4) :
    (oneOf values).Exact fun _ => [] := by
  intro bytes a rest
  simp only [oneOf, index, continueWith_eq_ok, read_number, fit_nil, true_and]
  constructor
  · rintro ⟨i, _, ⟨hi, rfl⟩, h⟩
    split at h
    · next found =>
      cases h
      obtain ⟨hlt, rfl⟩ := List.getElem?_eq_some_iff.mp found
      rw [honce.idxOf_getElem]
      rfl
    · cases h
  · rintro rfl
    have hlt := List.idxOf_lt_length_iff.mpr (hall a)
    refine ⟨_, rest, ⟨Nat.lt_of_lt_of_le hlt hfew, rfl⟩, ?_⟩
    rw [List.getElem?_eq_getElem hlt, List.getElem_idxOf]

end Codec

end EventScript
