import EventScript.Host.Stage
import EventScript.Proofs.Factory.Commands
import EventScript.Proofs.Session.Configuration

/-!
# Commands described and made again

The descriptor of a command names its kind by the tag of that kind, and a factory looks the
tag up to make a command of it. So the way there and back hangs on what the registry says of
one tag, which is whatever was registered for it last. Phase and memory have no part in it:
calls of a command lead to no other descriptor.
-/

namespace EventScript

namespace Registry

/-- After registrations a tag stands for the kind of the last one of it, if there is one. -/
theorem lookup_registerAll (r : Registry) (aliases : List (String × Kind)) (tag : String) :
    (r.registerAll aliases).lookup tag = (aliases.reverse.lookup tag).or (r.lookup tag) := by
  induction aliases generalizing r with
  | nil => rfl
  | cons a rest ih =>
    obtain ⟨name, k⟩ := a
    have hrest := ih (r.register name k).2
    rw [lookup_register] at hrest
    refine hrest.trans ?_
    rw [List.reverse_cons, List.lookup_append, Option.or_assoc]
    congr 1
    by_cases ha : name = tag
    · simp [ha]
    · have hne : (tag == name) = false := by simpa using Ne.symm ha
      simp [List.lookup_cons, ha, hne]

/-- The kind that the tag of a kind stands for after registrations: there always is one. -/
theorem lookup_tag_registerAll (aliases : List (String × Kind)) (k : Kind) :
    (builtin.registerAll aliases).lookup k.tag =
      some ((aliases.reverse.lookup k.tag).getD k) := by
  rw [lookup_registerAll, lookup_builtin]
  cases aliases.reverse.lookup k.tag <;> rfl

end Registry

/-- Equal configuration is an equal mark and an equal action. -/
theorem Command.sameConfiguration_iff {c d : Command} :
    c.sameConfiguration d = true ↔ c.enabled = d.enabled ∧ c.action = d.action := by
  simp [sameConfiguration]

namespace Factory

/-- A command is made of a descriptor just where its tag is registered for a kind that has its
blob. The command is then idle and without memory, whatever instance the pool gave. -/
theorem create_eq_ok {f : Factory} {d : Descriptor} {c : Command} :
    (f.create d).result = .ok c ↔ ∃ a, f.registry.lookup d.tag = some a.kind ∧
      Action.decode a.kind d.parameters = .ok a ∧
      c = { name := a.kind.displayName, enabled := d.enabled, action := a } := by
  unfold create
  cases hk : f.registry.lookup d.tag with
  | none => simp
  | some k =>
    dsimp only
    cases ha : Action.decode k d.parameters with
    | error defect =>
      constructor
      · intro h
        cases h
      · rintro ⟨a, hkind, hdecode, -⟩
        rw [← Option.some.inj hkind, ha] at hdecode
        cases hdecode
    | ok a =>
      obtain ⟨rfl, -, -⟩ := Action.decode_eq_ok.mp ha
      constructor
      · intro h
        cases h
        exact ⟨a, rfl, ha, rfl⟩
      · rintro ⟨b, hkind, hdecode, rfl⟩
        rw [← Option.some.inj hkind, ha] at hdecode
        cases hdecode
        rfl

/-- Calls of a command lead to no other descriptor. -/
theorem describe_of_leads {c d : Command} (h : c.Leads d) : describe d = describe c := by
  have hreset := h.reset_eq
  have haction := Command.action_eq_of_reset_eq hreset
  rw [describe, describe, Command.kind, Command.kind, haction,
    Command.enabled_eq_of_reset_eq hreset]

/-- Whatever tags were registered, in whichever order, and whatever is in the pool: a descriptor
holds the whole configuration of its command, also while that runs and once it has ended. What is
made of the descriptor is an idle command of the same configuration just where the tag of the kind
stands for the kind itself, which it does unless the last registration of that tag was for another
one. The new command then has the same descriptor again. -/
theorem made_again_iff {aliases : List (String × Kind)} {f : Factory}
    (hf : f.registry = Registry.builtin.registerAll aliases) (cmd : Command)
    (hs : cmd.action.Storable) :
    let d := describe cmd
    let own := f.registry.lookup cmd.kind.tag = some cmd.kind
    (d.enabled = cmd.enabled ∧ Action.decode cmd.kind d.parameters = .ok cmd.action ∧
      ∀ later, cmd.Leads later → describe later = d) ∧
    (own ↔ ∀ k, aliases.reverse.lookup cmd.kind.tag = some k → k = cmd.kind) ∧
    ((∃ c, (f.create d).result = .ok c ∧ c.phase = .idle ∧ c.memory = .clear ∧
      c.sameConfiguration cmd = true) ↔ own) ∧
    (own → ∀ c, (f.create d).result = .ok c → describe c = d) := by
  intro d own
  have hdecode : Action.decode cmd.kind d.parameters = .ok cmd.action := Action.decode_encode hs
  refine ⟨⟨rfl, hdecode, fun _ h => describe_of_leads h⟩, ?_, ?_, ?_⟩
  · have hlookup := Registry.lookup_tag_registerAll aliases cmd.kind
    rw [← hf] at hlookup
    dsimp only [own]
    rw [hlookup]
    cases aliases.reverse.lookup cmd.kind.tag <;> simp
  · constructor
    · rintro ⟨c, hc, -, -, hsame⟩
      obtain ⟨a, hkind, -, rfl⟩ := create_eq_ok.mp hc
      obtain rfl : a = cmd.action := (Command.sameConfiguration_iff.mp hsame).2
      exact hkind
    · intro hown
      exact ⟨_, create_eq_ok.mpr ⟨cmd.action, hown, hdecode, rfl⟩, rfl, rfl,
        Command.sameConfiguration_iff.mpr ⟨rfl, rfl⟩⟩
  · intro hown c hc
    obtain ⟨a, hkind, ha, rfl⟩ := create_eq_ok.mp hc
    -- The tag has led back to the kind, so the blob can only be that of the action itself.
    have hk : cmd.kind = a.kind := Option.some.inj (hown.symm.trans hkind)
    rw [← hk, hdecode] at ha
    obtain rfl := Except.ok.inj ha
    rfl

/-- A message that is open on a screen keeps its configuration through a tag that was given away
and taken back; a pause does not, as the tag of pauses stands for labels. -/
theorem made_again_iff_shadowed :
    let aliases : List (String × Kind) := [("show_message", .comment), ("text", .showMessage),
      ("wait", .label), ("show_message", .showMessage)]
    let f : Factory := ⟨Registry.builtin.registerAll aliases, {}⟩
    let world : World Stage := ⟨{}, { presenter := .recording {} }⟩
    let message : Command := .ofAction (.showMessage (.waiting "Hello"))
    let shown := (message.execute .global world).command
    let pause : Command := .ofAction (.wait 3)
    shown.phase = .executing ∧
    (∃ c, (f.create (describe shown)).result = .ok c ∧ c.phase = .idle ∧ c.memory = .clear ∧
      c.sameConfiguration shown = true) ∧
    ¬ ∃ c, (f.create (describe pause)).result = .ok c ∧ c.phase = .idle ∧ c.memory = .clear ∧
      c.sameConfiguration pause = true := by
  intro aliases f world message shown pause
  obtain ⟨-, hlast, hshown, -⟩ := made_again_iff (f := f) rfl shown (by decide)
  obtain ⟨-, -, hpause, -⟩ := made_again_iff (f := f) rfl pause (by decide)
  refine ⟨rfl, hshown.mpr (hlast.mpr ?_), ?_⟩
  · intro k hk
    exact (Option.some.inj hk).symm
  · rw [hpause]
    decide

end Factory

end EventScript
