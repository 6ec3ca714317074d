import EventScript.Proofs.Blob.Action
import EventScript.Proofs.Factory.Alike

/-!
# What a factory makes of descriptors

`Registry.command?` says which command a descriptor stands for. It looks the tag up and reads
the blob, and no pool comes into it: an instance that a pool hands out is configured anew. So
the commands that a factory makes of a list depend on its registry alone, and a program is
built just where the list of them is accepted.
-/

namespace EventScript

namespace Registry

/-- Registering a tag changes what it stands for, and nothing else. -/
theorem lookup_register (r : Registry) (tag tag' : String) (k : Kind) :
    (r.register tag k).2.lookup tag' = if tag = tag' then some k else r.lookup tag' :=
  Table.find?_insert ..

/-- Registering other tags leaves a tag what it stood for. -/
theorem lookup_registerAll_of_ne {tag : String} {aliases : List (String × Kind)} (r : Registry)
    (h : ∀ a ∈ aliases, a.1 ≠ tag) : (r.registerAll aliases).lookup tag = r.lookup tag := by
  induction aliases generalizing r with
  | nil => rfl
  | cons a rest ih =>
    obtain ⟨ha, hrest⟩ := List.forall_mem_cons.mp h
    have hlater := ih (r.register a.1 a.2).2 hrest
    rw [lookup_register, if_neg ha] at hlater
    exact hlater

/-- Every kind is registered under its tag. -/
theorem lookup_builtin (k : Kind) : builtin.lookup k.tag = some k := by
  cases k <;> rfl

/-- Other tags for kinds leave every kind under its own. -/
theorem lookup_builtin_registerAll {aliases : List (String × Kind)}
    (h : ∀ a ∈ aliases, ∀ k : Kind, a.1 ≠ k.tag) (k : Kind) :
    (builtin.registerAll aliases).lookup k.tag = some k := by
  rw [lookup_registerAll_of_ne builtin fun a ha => h a ha k, lookup_builtin]

/-- The command that a descriptor stands for, if its tag is registered: with the parameters of
its blob, or with defaults where the kind has no such blob. -/
def command? (r : Registry) (d : Descriptor) : Option Command :=
  (r.lookup d.tag).map fun k =>
    { name := k.displayName
      enabled := d.enabled
      action := (Action.decode k d.parameters).toOption.getD (.default k) }

/-- Every descriptor is admitted where nothing is filtered. -/
theorem admitted_auto (r : Registry) (ds : List Descriptor) : r.admitted .auto ds = ds :=
  List.filter_eq_self.mpr fun _ _ => rfl

end Registry

namespace Factory

/-- What is made of a descriptor is the command that it stands for. -/
theorem createOrDefault_result (f : Factory) (d : Descriptor) :
    (f.createOrDefault d).result = f.registry.command? d := by
  unfold createOrDefault create Registry.command?
  cases hk : f.registry.lookup d.tag with
  | none => rfl
  | some k =>
    dsimp only [Option.map_some]
    cases hd : Action.decode k d.parameters with
    | ok a =>
      obtain ⟨rfl, -, -⟩ := Action.decode_eq_ok.mp hd
      rfl
    | error defect =>
      dsimp only
      rw [hk]
      dsimp only [instantiate, Command.configure]
      rw [Action.kind_default]
      rfl

/-- What is made of a list of descriptors is the commands that they stand for, in order. -/
theorem createAll_result (f : Factory) (ds : List Descriptor) :
    (f.createAll ds).result = ds.filterMap f.registry.command? := by
  induction ds generalizing f with
  | nil => rfl
  | cons d rest ih =>
    have hfirst := f.createOrDefault_result d
    have hlater := ih (f.createOrDefault d).factory
    rw [registry_createOrDefault] at hlater
    rw [createAll, hfirst, hlater]
    cases hd : f.registry.command? d with
    | none => rw [List.filterMap_cons_none hd]; rfl
    | some c => rw [List.filterMap_cons_some hd]; rfl

/-- A program is built of the admitted descriptors just where the commands that they stand for
are accepted; else the build fails for the reason that they are not. -/
theorem build_result (f : Factory) (ds : List Descriptor) (mode : Mode) :
    (f.build ds mode).result =
      Program.ofCommands ((f.registry.admitted mode ds).filterMap f.registry.command?) := by
  rw [← createAll_result]
  unfold build
  dsimp only
  cases Program.ofCommands (f.createAll (f.registry.admitted mode ds)).result with
  | ok p => rfl
  | error e => rfl

end Factory

end EventScript
