import EventScript.Proofs.Factory.Commands
import EventScript.Script
import Mathlib.Data.List.Forall2

/-!
# Scripts on their way into programs

An entry passes through two look-ups and a blob before it is a command: the kind of its type
says how its parameters are read, the action goes into a blob under the tag of the kind, and
the factory looks that tag up and reads the blob. `ScriptEntry.command?` says the command
without the way: nothing but the type, the parameters and the mark of the entry come into it.
Where the tag of every kind still stands for it, both give the same command.
-/

namespace EventScript

private theorem Json.nullable_some_ne_null {j : Json} : j.nullable some ≠ some (some .null) := by
  cases j <;> simp [nullable]

private theorem exists_of_mem_mapM {α β : Type} {read : α → Option β} {as : List α} {bs : List β}
    (h : as.mapM read = some bs) {b : β} (hb : b ∈ bs) : ∃ a ∈ as, read a = some b := by
  induction as generalizing bs with
  | nil => cases h; cases hb
  | cons a rest ih =>
    rw [List.mapM_cons] at h
    obtain ⟨b', hb', h⟩ := Option.bind_eq_some_iff.mp h
    obtain ⟨bs', hbs', h⟩ := Option.bind_eq_some_iff.mp h
    cases h
    rcases List.mem_cons.mp hb with rfl | hb
    · exact ⟨a, List.mem_cons_self, hb'⟩
    · obtain ⟨a', ha', hread⟩ := ih hbs' hb
      exact ⟨a', List.mem_cons_of_mem _ ha', hread⟩

namespace Action

private theorem marker?_eq_some {a b : Action} {j : Json} (h : marker? a j = some b) : b = a := by
  unfold marker? at h
  split at h
  · exact (Option.some.inj h).symm
  · cases h

/-- The parameters of a kind make an action of it. -/
theorem kind_of_ofParams? {k : Kind} {j : Json} {a : Action} (h : ofParams? k j = some a) :
    a.kind = k := by
  cases k with
  | elseBranch | endIf | loop | breakLoop | endLoop | exitEventProcessing =>
    rw [marker?_eq_some h]
    rfl
  | _ =>
    obtain ⟨_, -, rfl⟩ := Option.map_eq_some_iff.mp h
    rfl

/-- Default parameters are short. -/
theorem storable_default (k : Kind) : (default k).Storable := by
  cases k <;> decide

end Action

namespace ScriptEntry

variable {r : Registry} {e : ScriptEntry} {d : Descriptor}

/-- The action that an entry says for a kind, if the kind takes its parameters. -/
def action? (e : ScriptEntry) (k : Kind) : Option Action :=
  match e.params with
  | none => some (.default k)
  | some params => Action.ofParams? k params

/-- The kind of an entry does not take its parameters. -/
def Refused (r : Registry) (e : ScriptEntry) : Prop :=
  ∃ k params, r.lookup e.typeTag = some k ∧ e.params = some params ∧
    Action.ofParams? k params = none

/-- The texts and lists among the parameters of an entry are shorter than `2 ^ 64`, as all are
that a memory of so many bytes can hold. -/
def Storable (r : Registry) (e : ScriptEntry) : Prop :=
  ∀ k ∈ r.lookup e.typeTag, ∀ params ∈ e.params, ∀ a ∈ Action.ofParams? k params, a.Storable

instance (r : Registry) (e : ScriptEntry) : Decidable (e.Storable r) :=
  inferInstanceAs (Decidable (∀ k ∈ r.lookup e.typeTag, ∀ params ∈ e.params,
    ∀ a ∈ Action.ofParams? k params, a.Storable))

/-- The command that an entry says, if its type is registered and takes its parameters. -/
def command? (r : Registry) (e : ScriptEntry) : Option Command :=
  (r.lookup e.typeTag).bind fun k => (e.action? k).map fun a =>
    { name := k.displayName, enabled := e.enabled, action := a }

/-- What the descriptor of an entry can be. -/
inductive Described (r : Registry) (e : ScriptEntry) : Descriptor → Prop
  /-- The type is not registered, and is kept. -/
  | unknown (hk : r.lookup e.typeTag = none) : Described r e ⟨e.typeTag, [], e.enabled⟩
  /-- The type stands for a kind, and the blob holds what the entry says. -/
  | known {k : Kind} {a : Action} (hk : r.lookup e.typeTag = some k) (ha : e.action? k = some a) :
    Described r e ⟨k.tag, a.encode, e.enabled⟩

/-- The action of an entry has the kind that it was asked for. -/
theorem kind_of_action? {k : Kind} {a : Action} (h : e.action? k = some a) : a.kind = k := by
  unfold action? at h
  split at h
  · obtain rfl := Option.some.inj h
    exact Action.kind_default k
  · exact Action.kind_of_ofParams? h

/-- What an entry says can be stored, also where it says nothing. -/
theorem Storable.of_action? (h : e.Storable r) {k : Kind} {a : Action}
    (hk : r.lookup e.typeTag = some k) (ha : e.action? k = some a) : a.Storable := by
  unfold action? at ha
  split at ha
  · obtain rfl := Option.some.inj ha
    exact Action.storable_default k
  · next params hparams => exact h k hk params hparams a ha

/-- An entry gives no descriptor just where its parameters are refused. -/
theorem toDescriptor?_eq_none_iff : e.toDescriptor? r = none ↔ e.Refused r := by
  unfold toDescriptor? Refused
  cases r.lookup e.typeTag with
  | none => simp
  | some k =>
    cases e.params with
    | none => simp
    | some params => simp

/-- An entry that is not refused gives a descriptor. -/
theorem exists_toDescriptor? (h : ¬ e.Refused r) : ∃ d, e.toDescriptor? r = some d :=
  Option.ne_none_iff_exists'.mp (mt toDescriptor?_eq_none_iff.mp h)

/-- Every descriptor that an entry gives is one of these. -/
theorem Described.of_toDescriptor? (h : e.toDescriptor? r = some d) : e.Described r d := by
  unfold toDescriptor? at h
  cases hk : r.lookup e.typeTag with
  | none =>
    rw [hk] at h
    obtain rfl := Option.some.inj h
    exact .unknown hk
  | some k =>
    rw [hk] at h
    obtain ⟨a, ha, rfl⟩ := Option.map_eq_some_iff.mp h
    have hkind : a.kind = k := kind_of_action? ha
    rw [hkind]
    exact .known hk ha

/-- Where the tag of every kind is its own, the descriptor of an entry stands for the command
that the entry says. -/
theorem Described.command?_eq (htags : ∀ k : Kind, r.lookup k.tag = some k)
    (h : e.Described r d) (hs : e.Storable r) : r.command? d = e.command? r := by
  cases h with
  | unknown hk =>
    rw [Registry.command?, command?, hk]
    rfl
  | @known k a hk ha =>
    have hdecode := Action.decode_encode (hs.of_action? hk ha)
    rw [kind_of_action? ha] at hdecode
    rw [Registry.command?, command?, htags, hk, Option.map_some, Option.bind_some, ha, hdecode]
    rfl

/-- An entry that was read never has `null` for its parameters: it then has none. -/
theorem params_ne_null {depth : Nat} {document : Document}
    (h : ofDocument? depth document = some e) : e.params ≠ some .null := by
  unfold ofDocument? at h
  obtain ⟨slots, -, h⟩ := Option.bind_eq_some_iff.mp h
  split at h
  · next typeTag enabled params =>
    obtain ⟨_, -, h⟩ := Option.bind_eq_some_iff.mp h
    obtain ⟨_, -, h⟩ := Option.bind_eq_some_iff.mp h
    obtain ⟨read, hread, h⟩ := Option.bind_eq_some_iff.mp h
    cases h
    intro hnull
    dsimp only at hnull
    subst hnull
    unfold Slot.withDefault at hread
    split at hread
    · obtain ⟨j, -, hj⟩ := Option.bind_eq_some_iff.mp hread
      exact Json.nullable_some_ne_null hj
    · cases hread
  · cases h

end ScriptEntry

namespace Script

variable {r : Registry}

/-- The first entry that is refused is the one named. -/
theorem describe_cons_none {e : ScriptEntry} (h : e.toDescriptor? r = none) (index : Nat)
    (rest : List ScriptEntry) :
    (describe r index (e :: rest)).1 = .error ⟨index, e.typeTag⟩ := by
  rw [describe, h]

/-- An entry that is described comes before the others. -/
theorem describe_cons_some {e : ScriptEntry} {d : Descriptor} (h : e.toDescriptor? r = some d)
    (index : Nat) (rest : List ScriptEntry) :
    (describe r index (e :: rest)).1 = (describe r (index + 1) rest).1.map (d :: ·) := by
  rw [describe, h]
  obtain ⟨later, reported⟩ := describe r (index + 1) rest
  cases later <;> rfl

/-- The first entry that is refused is the one that the error names. -/
theorem describe_of_refused {before after : List ScriptEntry} {e : ScriptEntry}
    (hbefore : ∀ e' ∈ before, ¬ e'.Refused r) (he : e.Refused r) (index : Nat) :
    (describe r index (before ++ e :: after)).1 =
      .error ⟨index + before.length, e.typeTag⟩ := by
  induction before generalizing index with
  | nil => exact describe_cons_none (ScriptEntry.toDescriptor?_eq_none_iff.mpr he) ..
  | cons e' rest ih =>
    obtain ⟨hfirst, hrest⟩ := List.forall_mem_cons.mp hbefore
    obtain ⟨d, hd⟩ := ScriptEntry.exists_toDescriptor? hfirst
    rw [List.cons_append, describe_cons_some hd, ih hrest, List.length_cons]
    simp only [Except.map]
    rw [Nat.add_assoc, Nat.add_comm 1]

/-- Where no entry is refused there is a descriptor for each, in order. -/
theorem describe_of_accepted {es : List ScriptEntry} (h : ∀ e ∈ es, ¬ e.Refused r)
    (index : Nat) :
    ∃ ds, (describe r index es).1 = .ok ds ∧ List.Forall₂ (ScriptEntry.Described r) es ds := by
  induction es generalizing index with
  | nil => exact ⟨[], rfl, .nil⟩
  | cons e rest ih =>
    obtain ⟨hfirst, hrest⟩ := List.forall_mem_cons.mp h
    obtain ⟨d, hd⟩ := ScriptEntry.exists_toDescriptor? hfirst
    obtain ⟨ds, hds, hall⟩ := ih hrest (index + 1)
    refine ⟨d :: ds, ?_, .cons (.of_toDescriptor? hd) hall⟩
    rw [describe_cons_some hd, hds]
    rfl

/-- No entry is refused, or there is a first one that is. -/
theorem exists_first_refused (r : Registry) (es : List ScriptEntry) :
    (∀ e ∈ es, ¬ e.Refused r) ∨ ∃ before e after, es = before ++ e :: after ∧
      (∀ e' ∈ before, ¬ e'.Refused r) ∧ e.Refused r := by
  induction es with
  | nil => exact .inl (List.forall_mem_nil _)
  | cons e rest ih =>
    by_cases he : e.Refused r
    · exact .inr ⟨[], e, rest, rfl, List.forall_mem_nil _, he⟩
    · rcases ih with hrest | ⟨before, e', after, rfl, hbefore, he'⟩
      · exact .inl (List.forall_mem_cons.mpr ⟨he, hrest⟩)
      · exact .inr ⟨e :: before, e', after, rfl, List.forall_mem_cons.mpr ⟨he, hbefore⟩, he'⟩

/-- The descriptors of entries stand for the commands that the entries say. -/
theorem filterMap_command? (htags : ∀ k : Kind, r.lookup k.tag = some k)
    {es : List ScriptEntry} {ds : List Descriptor}
    (h : List.Forall₂ (ScriptEntry.Described r) es ds) (hs : ∀ e ∈ es, e.Storable r) :
    ds.filterMap r.command? = es.filterMap (ScriptEntry.command? r) := by
  induction h with
  | nil => rfl
  | cons hd _ ih =>
    obtain ⟨hfirst, hrest⟩ := List.forall_mem_cons.mp hs
    rw [List.filterMap_cons, List.filterMap_cons, hd.command?_eq htags hfirst, ih hrest]

/-- A script that was read has no entry with `null` for its parameters. -/
theorem params_ne_null {text : String} {s : Script} (h : ofText? text = some s) :
    ∀ e ∈ s.entries, e.params ≠ some .null := by
  obtain ⟨document, -, h⟩ := Option.bind_eq_some_iff.mp h
  unfold ofDocument? at h
  obtain ⟨slots, -, h⟩ := Option.bind_eq_some_iff.mp h
  split at h
  · next name owner commands =>
    obtain ⟨_, -, h⟩ := Option.bind_eq_some_iff.mp h
    obtain ⟨_, -, h⟩ := Option.bind_eq_some_iff.mp h
    obtain ⟨entries, hread, h⟩ := Option.bind_eq_some_iff.mp h
    cases h
    unfold Slot.required at hread
    split at hread
    · obtain ⟨items, -, hitems⟩ := Option.bind_eq_some_iff.mp hread
      intro e he
      obtain ⟨document, -, hdocument⟩ := exists_of_mem_mapM hitems he
      exact ScriptEntry.params_ne_null hdocument
    · cases hread
  · cases h

/-- An error names the first entry that is refused. -/
theorem toDescriptors_eq_error_iff {s : Script} {err : ScriptParamsError} :
    (s.toDescriptors r).1 = .error err ↔
      ∃ before e after, s.entries = before ++ e :: after ∧ (∀ e' ∈ before, ¬ e'.Refused r) ∧
        e.Refused r ∧ err = ⟨before.length, e.typeTag⟩ := by
  unfold toDescriptors
  constructor
  · intro herr
    rcases exists_first_refused r s.entries with haccepted | ⟨before, e, after, hs, hbefore, he⟩
    · obtain ⟨ds, hds, -⟩ := describe_of_accepted haccepted 0
      rw [hds] at herr
      cases herr
    · rw [hs, describe_of_refused hbefore he, Nat.zero_add] at herr
      exact ⟨before, e, after, hs, hbefore, he, (Except.error.inj herr).symm⟩
  · rintro ⟨before, e, after, hs, hbefore, he, rfl⟩
    rw [hs, describe_of_refused hbefore he, Nat.zero_add]

/-- There is an error just where an entry is refused. -/
theorem exists_toDescriptors_eq_error_iff {s : Script} :
    (∃ err, (s.toDescriptors r).1 = .error err) ↔ ∃ e ∈ s.entries, e.Refused r := by
  constructor
  · rintro ⟨err, herr⟩
    obtain ⟨before, e, after, hs, -, he, -⟩ := toDescriptors_eq_error_iff.mp herr
    exact ⟨e, hs ▸ List.mem_append_cons_self, he⟩
  · rintro ⟨e, hmem, he⟩
    rcases exists_first_refused r s.entries with haccepted | ⟨before, e, after, hs, hbefore, he⟩
    · exact absurd he (haccepted e hmem)
    · exact ⟨_, toDescriptors_eq_error_iff.mpr ⟨before, e, after, hs, hbefore, he, rfl⟩⟩

/-- Without an error each entry has its descriptor. -/
theorem described_of_toDescriptors {s : Script} {ds : List Descriptor}
    (h : (s.toDescriptors r).1 = .ok ds) :
    List.Forall₂ (ScriptEntry.Described r) s.entries ds := by
  have haccepted : ∀ e ∈ s.entries, ¬ e.Refused r := by
    intro e hmem he
    obtain ⟨err, herr⟩ := exists_toDescriptors_eq_error_iff.mpr ⟨e, hmem, he⟩
    rw [h] at herr
    cases herr
  obtain ⟨ds', hds', hall⟩ := describe_of_accepted haccepted 0
  obtain rfl := Except.ok.inj (h.symm.trans hds')
  exact hall

/-- Beside the tags of the kinds any other tags may be registered. A script then fails to be
described just where an entry is refused, and the error names the first that is. Else each
entry has its descriptor, in order, and whatever is in the pool of a factory, what it builds of
them are the commands of the entries: an entry of an unknown type gives none, every other one
a command of what it says, and only one that says nothing has defaults. In a script that was
read, what is refused is never `null`. -/
theorem describes_faithfully {aliases : List (String × Kind)}
    (h : ∀ a ∈ aliases, ∀ k : Kind, a.1 ≠ k.tag) (s : Script) :
    let r := Registry.builtin.registerAll aliases
    ((∃ err, (s.toDescriptors r).1 = .error err) ↔ ∃ e ∈ s.entries, e.Refused r) ∧
    (∀ err, (s.toDescriptors r).1 = .error err ↔
      ∃ before e after, s.entries = before ++ e :: after ∧ (∀ e' ∈ before, ¬ e'.Refused r) ∧
        e.Refused r ∧ err = ⟨before.length, e.typeTag⟩) ∧
    (∀ ds, (s.toDescriptors r).1 = .ok ds →
      List.Forall₂ (ScriptEntry.Described r) s.entries ds ∧
      ((∀ e ∈ s.entries, e.Storable r) → ∀ f : Factory, f.registry = r →
        (f.build ds .auto).result =
          Program.ofCommands (s.entries.filterMap (ScriptEntry.command? r)))) ∧
    ∀ text, ofText? text = some s → ∀ e ∈ s.entries, e.params ≠ some .null := by
  intro r
  have htags : ∀ k : Kind, r.lookup k.tag = some k := Registry.lookup_builtin_registerAll h
  refine ⟨exists_toDescriptors_eq_error_iff, fun _ => toDescriptors_eq_error_iff, ?_,
    fun _ => params_ne_null⟩
  intro ds hds
  have hall := described_of_toDescriptors hds
  refine ⟨hall, fun hstorable f hf => ?_⟩
  rw [f.build_result, hf, Registry.admitted_auto, filterMap_command? htags hall hstorable]

/-- A second name for messages, a type that nobody knows and a pause that is disabled; a pause
of a wrong length is refused. -/
theorem describes_faithfully_alias :
    let aliases : List (String × Kind) := [("say", .showMessage)]
    let r := Registry.builtin.registerAll aliases
    let words : Json := .object [("text", .string "Hi"), ("wait_for_input", .bool false)]
    let say : ScriptEntry := { typeTag := "say", params := some words }
    let movie : ScriptEntry := { typeTag := "play_movie", params := some words }
    let pause : ScriptEntry := { typeTag := "wait", enabled := false }
    let soon : ScriptEntry :=
      { typeTag := "wait", params := some (.object [("ticks", .string "soon")]) }
    let f : Factory := { registry := r }
    (∀ a ∈ aliases, ∀ k : Kind, a.1 ≠ k.tag) ∧
    (toDescriptors { entries := [movie, soon, say] } r).1 = .error ⟨1, "wait"⟩ ∧
    ∃ ds, (toDescriptors { entries := [say, movie, pause] } r).1 = .ok ds ∧ ds.length = 3 ∧
      (f.build ds .auto).result = Program.ofCommands
        [.ofAction (.showMessage { text := "Hi" }), (Command.ofAction (.wait 0)).disable] := by
  intro aliases r words say movie pause soon f
  have haliases : ∀ a ∈ aliases, ∀ k : Kind, a.1 ≠ k.tag := by
    intro a ha k
    obtain rfl := List.mem_singleton.mp ha
    cases k <;> decide
  have hrefused := (describes_faithfully haliases { entries := [movie, soon, say] }).2.1
    ⟨1, "wait"⟩
  have haccepted := (describes_faithfully haliases { entries := [say, movie, pause] }).2.2.1 _ rfl
  refine ⟨haliases, hrefused.mpr ?_, _, rfl, rfl, haccepted.2 ?_ f rfl⟩
  · refine ⟨[movie], soon, [say], rfl, ?_, ⟨.wait, _, rfl, rfl, rfl⟩, rfl⟩
    intro e he
    obtain rfl := List.mem_singleton.mp he
    rintro ⟨k, params, hk, -, -⟩
    cases hk
  · decide

end Script

end EventScript
