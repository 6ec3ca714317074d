import EventScript.Command.Blob
import EventScript.Proofs.Blob.Codec

/-!
# Blobs of actions

`Action.encode` and `Action.decode` are inverse to each other for every kind: a blob decodes
to an action just where it starts with the blob of that action. So blobs of one kind are
prefix-free, and no action has two of them. `Action.Storable` says what the eight bytes of a
length ask of an action; every decoded action meets it.
-/

namespace EventScript

open Codec

/-! ### Lengths that a blob records -/

/-- The lengths in an operand. -/
def Operand.lengths : Operand → List Nat
  | constant _ => []
  | .variable name => textLengths name

/-- The lengths in a condition. -/
def Condition.lengths : Condition → List Nat
  | switch name _ | .variable name _ _ | selfSwitch name _ => textLengths name

namespace Action

/-- The lengths that the blob of an action records: of every text in bytes, of every list in
items. -/
def lengths : Action → List Nat
  | showMessage p => p.speaker.toList.flatMap textLengths ++ textLengths p.text
  | showChoices p =>
    (p.choices.length :: p.choices.flatMap textLengths) ++ textLengths p.resultVariable
  | controlSwitches p => p.switches.length :: p.switches.flatMap textLengths
  | controlVariables p => textLengths p.target ++ p.operand.lengths
  | controlSelfSwitch p => textLengths p.name
  | conditionalBranch s => s.conditions.length :: s.conditions.flatMap Condition.lengths
  | label text | jumpToLabel text | comment text => textLengths text
  | elseBranch | endIf | loop | breakLoop | endLoop | exitEventProcessing | wait _
  | transferPlayer _ | fadeScreen _ | shakeScreen _ => []

/-- Every text and list of the action is shorter than `2 ^ 64`. -/
def Storable (a : Action) : Prop := Fit a.lengths

instance (a : Action) : Decidable a.Storable := inferInstanceAs (Decidable (Fit a.lengths))

end Action

/-! ### Codecs of the parameters -/

/-- Switch operations are written as their index. -/
theorem SwitchOperation.codec_exact : SwitchOperation.codec.Exact fun _ => [] :=
  oneOf_exact (fun a => by cases a <;> decide) (by decide) (by decide)

/-- Variable operations are written as their index. -/
theorem VariableOperation.codec_exact : VariableOperation.codec.Exact fun _ => [] :=
  oneOf_exact (fun a => by cases a <;> decide) (by decide) (by decide)

/-- Directions of a fade are written as their index. -/
theorem FadeDirection.codec_exact : FadeDirection.codec.Exact fun _ => [] :=
  oneOf_exact (fun a => by cases a <;> decide) (by decide) (by decide)

/-- Comparisons are written as their index. -/
theorem Comparison.codec_exact : Comparison.codec.Exact fun _ => [] :=
  oneOf_exact (fun a => by cases a <;> decide) (by decide) (by decide)

/-- Modes of a condition set are written as their index. -/
theorem ConditionMode.codec_exact : ConditionMode.codec.Exact fun _ => [] :=
  oneOf_exact (fun a => by cases a <;> decide) (by decide) (by decide)

private theorem read_index {i : Nat} {bytes rest : List UInt8} :
    index.read bytes = .ok (i, rest) ↔ i < 256 ^ 4 ∧ bytes = index.write i ++ rest :=
  read_number

/-- An operand is its index and a constant or the name of a variable. -/
theorem Operand.codec_exact : Operand.codec.Exact Operand.lengths := by
  intro bytes o rest
  simp only [Operand.codec, Codec.convert, continueWith_eq_ok, read_index]
  constructor
  · rintro ⟨i, rest', ⟨-, rfl⟩, h⟩
    rcases i with _ | _ | i
    · obtain ⟨value, rfl, -, rfl⟩ := int32_exact.made.mp h
      exact ⟨fit_nil, (List.append_assoc ..).symm⟩
    · obtain ⟨name, rfl, hfit, rfl⟩ := string_exact.made.mp h
      exact ⟨hfit, (List.append_assoc ..).symm⟩
    · cases h
  · rintro ⟨hfit, rfl⟩
    cases o with
    | constant value =>
      refine ⟨0, _, ⟨by decide, List.append_assoc ..⟩, int32_exact.made.mpr ?_⟩
      exact ⟨value, rfl, fit_nil, rfl⟩
    | «variable» name =>
      refine ⟨1, _, ⟨by decide, List.append_assoc ..⟩, string_exact.made.mpr ?_⟩
      exact ⟨name, rfl, hfit, rfl⟩

namespace Condition

private theorem expectedCodec_exact : expectedCodec.Exact fun r => textLengths r.1 :=
  (string_exact.seq bool_exact).congr fun _ => by simp

private theorem comparisonCodec_exact : comparisonCodec.Exact fun r => textLengths r.1 :=
  (string_exact.seq (Comparison.codec_exact.seq int32_exact)).congr fun _ => by simp

/-- A condition is its index and the fields of its variant. -/
theorem codec_exact : Condition.codec.Exact Condition.lengths := by
  intro bytes c rest
  simp only [Condition.codec, continueWith_eq_ok, read_index]
  constructor
  · rintro ⟨i, rest', ⟨-, rfl⟩, h⟩
    match i with
    | 0 | 2 =>
      obtain ⟨r, rfl, hfit, rfl⟩ := expectedCodec_exact.made.mp h
      exact ⟨hfit, (List.append_assoc ..).symm⟩
    | 1 =>
      obtain ⟨r, rfl, hfit, rfl⟩ := comparisonCodec_exact.made.mp h
      exact ⟨hfit, (List.append_assoc ..).symm⟩
    | i + 3 => cases h
  · rintro ⟨hfit, rfl⟩
    cases c with
    | switch name expected =>
      refine ⟨0, _, ⟨by decide, List.append_assoc ..⟩, expectedCodec_exact.made.mpr ?_⟩
      exact ⟨(name, expected), rfl, hfit, rfl⟩
    | «variable» name comparison value =>
      refine ⟨1, _, ⟨by decide, List.append_assoc ..⟩, comparisonCodec_exact.made.mpr ?_⟩
      exact ⟨(name, comparison, value), rfl, hfit, rfl⟩
    | selfSwitch name expected =>
      refine ⟨2, _, ⟨by decide, List.append_assoc ..⟩, expectedCodec_exact.made.mpr ?_⟩
      exact ⟨(name, expected), rfl, hfit, rfl⟩

end Condition

/-- A condition set is its conditions and its mode. -/
theorem ConditionSet.codec_exact :
    ConditionSet.codec.Exact fun s => (Action.conditionalBranch s).lengths :=
  ((Condition.codec_exact.list.seq ConditionMode.codec_exact).convert
    (fun _ => rfl) fun _ => rfl).congr fun _ => by simp [Action.lengths]

/-- The fields of a message are read back. -/
theorem ShowMessage.codec_exact :
    ShowMessage.codec.Exact fun p => (Action.showMessage p).lengths :=
  ((string_exact.option.seq (string_exact.seq bool_exact)).convert
    (fun _ => rfl) fun _ => rfl).congr fun _ => by simp [Action.lengths]

/-- The fields of a prompt are read back. -/
theorem ShowChoices.codec_exact :
    ShowChoices.codec.Exact fun p => (Action.showChoices p).lengths :=
  ((string_exact.list.seq (string_exact.seq int32_exact.option)).convert
    (fun _ => rfl) fun _ => rfl).congr fun p => by cases h : p.cancelIndex <;> simp [Action.lengths]

/-- The fields of a control of switches are read back. -/
theorem ControlSwitches.codec_exact :
    ControlSwitches.codec.Exact fun p => (Action.controlSwitches p).lengths :=
  ((string_exact.list.seq SwitchOperation.codec_exact).convert
    (fun _ => rfl) fun _ => rfl).congr fun _ => by simp [Action.lengths]

/-- The fields of an update of a variable are read back. -/
theorem ControlVariables.codec_exact :
    ControlVariables.codec.Exact fun p => (Action.controlVariables p).lengths :=
  ((string_exact.seq (VariableOperation.codec_exact.seq Operand.codec_exact)).convert
    (fun _ => rfl) fun _ => rfl).congr fun _ => by simp [Action.lengths]

/-- The fields of a control of a self switch are read back. -/
theorem ControlSelfSwitch.codec_exact :
    ControlSelfSwitch.codec.Exact fun p => (Action.controlSelfSwitch p).lengths :=
  ((string_exact.seq bool_exact).convert
    (fun _ => rfl) fun _ => rfl).congr fun _ => by simp [Action.lengths]

/-- The fields of a transfer are read back. -/
theorem TransferPlayer.codec_exact : TransferPlayer.codec.Exact fun _ => [] :=
  (uint32_exact.seq (int32_exact.seq (int32_exact.seq bool_exact))).convert
    (fun _ => rfl) fun _ => rfl

/-- The fields of a fade are read back. -/
theorem FadeScreen.codec_exact : FadeScreen.codec.Exact fun _ => [] :=
  (FadeDirection.codec_exact.seq (uint32_exact.seq bool_exact)).convert
    (fun _ => rfl) fun _ => rfl

/-- The fields of a shake are read back. -/
theorem ShakeScreen.codec_exact : ShakeScreen.codec.Exact fun _ => [] :=
  (uint8_exact.seq (uint8_exact.seq (uint32_exact.seq bool_exact))).convert
    (fun _ => rfl) fun _ => rfl

namespace Action

/-! ### Actions of a kind -/

private theorem front_eq_ok {α : Type} {k : Kind} {c : Codec α} {make : α → Action}
    (hc : c.Exact fun p => (make p).lengths) (hk : ∀ a, a.kind = k ↔ ∃ p, make p = a)
    (he : ∀ p, (make p).encode = c.write p) {bytes : List UInt8} {a : Action} :
    front c make bytes = .ok a ↔
      a.kind = k ∧ a.Storable ∧ ∃ rest, bytes = a.encode ++ rest := by
  have hfront : front c make bytes = .ok a ↔
      ∃ p rest, c.read bytes = .ok (p, rest) ∧ make p = a := by
    unfold front
    split <;> simp_all
  rw [hfront, hk]
  constructor
  · rintro ⟨p, rest, hread, rfl⟩
    obtain ⟨hfit, rfl⟩ := (hc _ _ _).mp hread
    exact ⟨⟨p, rfl⟩, hfit, rest, by rw [he]⟩
  · rintro ⟨⟨p, rfl⟩, hfit, rest, rfl⟩
    exact ⟨p, rest, (hc _ _ _).mpr ⟨hfit, by rw [he]⟩, rfl⟩

private theorem bare_eq_ok {b : Action} (hk : ∀ a, a.kind = b.kind → a = b)
    (hl : b.lengths = []) (he : b.encode = []) {bytes : List UInt8} {a : Action} :
    (.ok b : Except BlobDefect Action) = .ok a ↔
      a.kind = b.kind ∧ a.Storable ∧ ∃ rest, bytes = a.encode ++ rest := by
  constructor
  · intro h
    cases h
    exact ⟨rfl, by rw [Storable, hl]; exact fit_nil, bytes, by rw [he]; rfl⟩
  · rintro ⟨h, -, -⟩
    rw [hk a h]

/-- A blob decodes to an action of a kind just where it starts with the blob of that action. -/
theorem decode_eq_ok {k : Kind} {bytes : List UInt8} {a : Action} :
    decode k bytes = .ok a ↔ a.kind = k ∧ a.Storable ∧ ∃ rest, bytes = a.encode ++ rest := by
  cases k with
  | showMessage =>
    exact front_eq_ok ShowMessage.codec_exact (by intro a; cases a <;> simp [kind]) fun _ => rfl
  | showChoices =>
    exact front_eq_ok ShowChoices.codec_exact (by intro a; cases a <;> simp [kind]) fun _ => rfl
  | controlSwitches =>
    exact front_eq_ok ControlSwitches.codec_exact (by intro a; cases a <;> simp [kind]) fun _ => rfl
  | controlVariables =>
    exact front_eq_ok ControlVariables.codec_exact (by intro a; cases a <;> simp [kind])
      fun _ => rfl
  | controlSelfSwitch =>
    exact front_eq_ok ControlSelfSwitch.codec_exact (by intro a; cases a <;> simp [kind])
      fun _ => rfl
  | conditionalBranch =>
    exact front_eq_ok ConditionSet.codec_exact (by intro a; cases a <;> simp [kind]) fun _ => rfl
  | transferPlayer =>
    exact front_eq_ok TransferPlayer.codec_exact (by intro a; cases a <;> simp [kind]) fun _ => rfl
  | fadeScreen =>
    exact front_eq_ok FadeScreen.codec_exact (by intro a; cases a <;> simp [kind]) fun _ => rfl
  | shakeScreen =>
    exact front_eq_ok ShakeScreen.codec_exact (by intro a; cases a <;> simp [kind]) fun _ => rfl
  | label | jumpToLabel | comment =>
    exact front_eq_ok string_exact (by intro a; cases a <;> simp [kind]) fun _ => rfl
  | wait =>
    exact front_eq_ok uint32_exact (by intro a; cases a <;> simp [kind]) fun _ => rfl
  | elseBranch | endIf | loop | breakLoop | endLoop | exitEventProcessing =>
    exact bare_eq_ok (by intro a; cases a <;> simp [kind]) rfl rfl

/-- The blob of an action that can be stored is read back. -/
theorem decode_encode {a : Action} (h : a.Storable) : decode a.kind a.encode = .ok a :=
  decode_eq_ok.mpr ⟨rfl, h, [], (List.append_nil _).symm⟩

/-- Blobs and the actions of a kind determine each other. A blob decodes to an action of the
kind just where it starts with the blob of that action, whatever follows; two actions have
two blobs, and no proper beginning of a blob decodes. What is asked of the lengths holds of
everything that a memory of `2 ^ 64` bytes can hold, and of everything that is decoded. -/
theorem decode_inverts_encode (k : Kind) :
    (∀ (bytes : List UInt8) (a : Action), decode k bytes = .ok a ↔
      a.kind = k ∧ a.Storable ∧ ∃ rest, bytes = a.encode ++ rest) ∧
    (∀ a b : Action, a.kind = k → b.kind = k → a.Storable → b.Storable →
      a.encode = b.encode → a = b) ∧
    ∀ a : Action, a.kind = k → a.Storable → ∀ bytes, bytes <+: a.encode → bytes ≠ a.encode →
      ∀ b, decode k bytes ≠ .ok b := by
  have unique : ∀ {bytes : List UInt8} {a b : Action}, decode k bytes = .ok a →
      decode k bytes = .ok b → a = b :=
    fun ha hb => Except.ok.inj (ha.symm.trans hb)
  refine ⟨fun _ _ => decode_eq_ok, ?_, ?_⟩
  · intro a b hak hbk ha hb h
    have hda : decode k a.encode = .ok a := decode_eq_ok.mpr ⟨hak, ha, [], by simp⟩
    have hdb : decode k a.encode = .ok b := decode_eq_ok.mpr ⟨hbk, hb, [], by simp [h]⟩
    exact unique hda hdb
  · intro a hak ha bytes hprefix hne b hdecode
    obtain ⟨hbk, hb, rest, rfl⟩ := decode_eq_ok.mp hdecode
    obtain ⟨rest', hsplit⟩ := hprefix
    -- The whole blob starts with the blob of `b` as well, so `b` is `a`.
    have hda : decode k a.encode = .ok a := decode_eq_ok.mpr ⟨hak, ha, [], by simp⟩
    have hdb : decode k a.encode = .ok b :=
      decode_eq_ok.mpr ⟨hbk, hb, rest ++ rest', by rw [← hsplit, List.append_assoc]⟩
    obtain rfl := unique hda hdb
    have hlen := congrArg List.length hsplit
    simp only [List.length_append] at hlen
    obtain rfl := List.eq_nil_of_length_eq_zero (l := rest) (by omega)
    exact hne (List.append_nil _)

/-- A prompt with a choice outside ASCII, an empty one and a negative answer: one byte more
is ignored, and one byte less is missed. -/
theorem decode_inverts_encode_prompt :
    let prompt := showChoices ⟨["é", ""], "answer", some (-1)⟩
    decode .showChoices (prompt.encode ++ [7]) = .ok prompt ∧
      (∀ b, b.kind = .showChoices → b.Storable → prompt.encode = b.encode → prompt = b) ∧
      ∀ b, decode .showChoices prompt.encode.dropLast ≠ .ok b := by
  intro prompt
  have hstorable : prompt.Storable := by decide
  obtain ⟨hiff, hinj, hprefix⟩ := decode_inverts_encode .showChoices
  refine ⟨(hiff _ _).mpr ⟨rfl, hstorable, [7], rfl⟩, ?_, ?_⟩
  · exact fun b hk hb => hinj prompt b rfl hk hstorable hb
  · exact hprefix prompt rfl hstorable _ (List.dropLast_prefix _) (by decide)

end Action

end EventScript
