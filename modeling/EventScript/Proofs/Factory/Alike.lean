import EventScript.Program.Interpreter
import EventScript.Proofs.Factory.Stock

/-!
# Factories that differ in their pools

Two factories are alike when they have one registry and each has a clean pool, whatever the
capacities and whatever was acquired and released. What is made with one is made with the
other, so an interpreter over services that are alike gives the same replies and goes the same
way. Each function has one lemma: results are equal, and what is left is alike again.
-/

namespace EventScript

/-- One registry, and pools that are clean. -/
structure Factory.Alike (f g : Factory) : Prop where
  registry : f.registry = g.registry
  left : f.pool.Clean
  right : g.pool.Clean

/-- The same was made, and the factories are alike after it. -/
structure Made.Alike {α : Type} (m n : Made α) : Prop where
  result : m.result = n.result
  factory : m.factory.Alike n.factory
  diagnostics : m.diagnostics = n.diagnostics

namespace Factory

/-- What is made of a descriptor does not change the registry. -/
theorem registry_create (f : Factory) (d : Descriptor) :
    (f.create d).factory.registry = f.registry := by
  unfold create
  cases f.registry.lookup d.tag with
  | none => rfl
  | some k =>
    dsimp only
    cases Action.decode k d.parameters <;> rfl

/-- Nor does a creation that falls back on defaults. -/
theorem registry_createOrDefault (f : Factory) (d : Descriptor) :
    (f.createOrDefault d).factory.registry = f.registry := by
  have hcreated := f.registry_create d
  unfold createOrDefault
  generalize f.create d = made at hcreated ⊢
  obtain ⟨result, g, ds⟩ := made
  match result with
  | .ok c => exact hcreated
  | .error (.unknownCommandType _) => exact hcreated
  | .error (.parameterDecode _ _) =>
    dsimp only
    cases g.registry.lookup d.tag with
    | none => exact hcreated
    | some k => exact hcreated

/-- Nor does the creation of several commands. -/
theorem registry_createAll (f : Factory) (ds : List Descriptor) :
    (f.createAll ds).factory.registry = f.registry := by
  induction ds generalizing f with
  | nil => rfl
  | cons d rest ih => exact (ih _).trans (f.registry_createOrDefault d)

/-- Building a program does not change the registry. -/
theorem registry_build (f : Factory) (ds : List Descriptor) (mode : Mode) :
    (f.build ds mode).factory.registry = f.registry := by
  have hmade := f.registry_createAll (f.registry.admitted mode ds)
  unfold build
  dsimp only
  cases Program.ofCommands (f.createAll (f.registry.admitted mode ds)).result with
  | ok p => exact hmade
  | error e => exact hmade

end Factory

namespace Factory.Alike

variable {f g : Factory}

/-- Instances may be put back on both sides. -/
theorem release (h : f.Alike g) (cs : List Command) : (f.release cs).Alike (g.release cs) :=
  ⟨h.registry, h.left.releaseAll cs, h.right.releaseAll cs⟩

/-- Instances may be taken on both sides. -/
theorem acquire (h : f.Alike g) (k : Kind) :
    Alike { f with pool := (f.pool.acquire k).2 } { g with pool := (g.pool.acquire k).2 } :=
  ⟨h.registry, h.left.acquire k, h.right.acquire k⟩

/-- A configured instance does not tell where it comes from. -/
theorem instantiate (h : f.Alike g) (k : Kind) (a : Action) (enabled : Bool) :
    (f.instantiate k a enabled).1 = (g.instantiate k a enabled).1 ∧
      (f.instantiate k a enabled).2.Alike (g.instantiate k a enabled).2 :=
  ⟨rfl, h.acquire k⟩

/-- Factories that are alike create the same command. -/
theorem create (h : f.Alike g) (d : Descriptor) : (f.create d).Alike (g.create d) := by
  unfold Factory.create
  rw [h.registry]
  cases g.registry.lookup d.tag with
  | none => exact ⟨rfl, h, rfl⟩
  | some k =>
    dsimp only
    cases Action.decode k d.parameters with
    | error defect => exact ⟨rfl, h, rfl⟩
    | ok a => exact ⟨rfl, (h.instantiate k a d.enabled).2, rfl⟩

/-- They fall back on the same defaults. -/
theorem createOrDefault (h : f.Alike g) (d : Descriptor) :
    (f.createOrDefault d).Alike (g.createOrDefault d) := by
  have hcreated := h.create d
  unfold Factory.createOrDefault
  generalize f.create d = made at hcreated ⊢
  generalize g.create d = made' at hcreated ⊢
  obtain ⟨result, f, ds⟩ := made
  obtain ⟨result', g, ds'⟩ := made'
  obtain ⟨hresult, h, hds⟩ := hcreated
  dsimp only at hresult h hds
  subst hresult hds
  match result with
  | .ok c => exact ⟨rfl, h, rfl⟩
  | .error (.unknownCommandType _) => exact ⟨rfl, h, rfl⟩
  | .error (.parameterDecode _ _) =>
    dsimp only
    rw [h.registry]
    cases g.registry.lookup d.tag with
    | none => exact ⟨rfl, h, rfl⟩
    | some k => exact ⟨rfl, (h.instantiate k (.default k) d.enabled).2, rfl⟩

/-- They create the same commands of a list of descriptors. -/
theorem createAll (h : f.Alike g) (ds : List Descriptor) :
    (f.createAll ds).Alike (g.createAll ds) := by
  induction ds generalizing f g with
  | nil => exact ⟨rfl, h, rfl⟩
  | cons d rest ih =>
    obtain ⟨hfirst, h, hds⟩ := h.createOrDefault d
    obtain ⟨hlater, h, hds'⟩ := ih h
    refine ⟨?_, h, ?_⟩
    · rw [Factory.createAll, Factory.createAll, hfirst, hlater]
    · rw [Factory.createAll, Factory.createAll, hds, hds']

/-- They build the same program, or reject it for the same defect. -/
theorem build (h : f.Alike g) (ds : List Descriptor) (mode : Mode) :
    (f.build ds mode).Alike (g.build ds mode) := by
  unfold Factory.build
  rw [h.registry]
  obtain ⟨hresult, h, hds⟩ := h.createAll (g.registry.admitted mode ds)
  dsimp only
  rw [hresult, hds]
  cases Program.ofCommands (g.createAll (g.registry.admitted mode ds)).result with
  | ok p => exact ⟨rfl, h, rfl⟩
  | error e => exact ⟨rfl, h.release _, rfl⟩

/-- A program may be built on one side alone. -/
theorem build_right (h : f.Alike g) (ds : List Descriptor) (mode : Mode) :
    f.Alike (g.build ds mode).factory :=
  ⟨h.registry.trans (g.registry_build ds mode).symm, h.left, (h.build ds mode).factory.right⟩

/-- Instances may be put back on one side alone. -/
theorem release_right (h : f.Alike g) (cs : List Command) : f.Alike (g.release cs) :=
  ⟨h.registry, h.left, h.right.releaseAll cs⟩

end Factory.Alike

variable {η : Type}

/-- One world, and factories that are alike. -/
inductive Services.Alike : Services η → Services η → Prop
  | intro {f g : Factory} {w : World η} (h : f.Alike g) : Alike ⟨f, w⟩ ⟨g, w⟩

/-- The same was answered, and the services are alike after it. -/
structure Reply.Alike {α : Type} (r r' : Reply α η) : Prop where
  result : r.result = r'.result
  announced : r.announced = r'.announced
  interpreter : r.interpreter = r'.interpreter
  services : r.services.Alike r'.services

namespace Services.Alike

variable {s s' : Services η}

/-- Services that are alike have one world. -/
theorem world (h : s.Alike s') : s.world = s'.world := by
  cases h
  rfl

/-- Their factories are alike. -/
theorem factory (h : s.Alike s') : s.factory.Alike s'.factory := by
  cases h with
  | intro h => exact h

/-- Factories may be replaced by such as are alike. -/
theorem with_factory (h : s.Alike s') {f g : Factory} (hf : f.Alike g) :
    Alike { s with factory := f } { s' with factory := g } := by
  cases h
  exact .intro hf

/-- The world may change in the same way on both sides. -/
theorem with_world (h : s.Alike s') (f : World η → World η) :
    Alike { s with world := f s.world } { s' with world := f s'.world } := by
  cases h with
  | intro h => exact .intro h

/-- What alike factories have made is taken over by both. -/
theorem took [Host η] {α : Type} (h : s.Alike s') {m m' : Made α} (hm : m.Alike m') :
    (s.took m).Alike (s'.took m') := by
  cases h
  rw [Services.took, Services.took, hm.diagnostics]
  exact .intro hm.factory

end Services.Alike

namespace Interpreter

variable {s s' : Services η}

/-- A program is started in the same way over both. -/
theorem startProgram_alike (h : s.Alike s') (i : Interpreter) (p : Program) (notify : Bool) :
    (i.startProgram p notify s).Alike (i.startProgram p notify s') := by
  obtain ⟨hf⟩ := h
  unfold startProgram
  cases i.session with
  | some session => exact ⟨rfl, rfl, rfl, .intro (hf.release p.commands)⟩
  | none => exact ⟨rfl, rfl, rfl, .intro hf⟩

/-- A session is completed in the same way over both. -/
theorem complete_alike (h : s.Alike s') (i : Interpreter) (session : Session)
    (reason : CompletionReason) :
    (i.complete session reason s).Alike (i.complete session reason s') := by
  obtain ⟨hf⟩ := h
  exact ⟨rfl, rfl, rfl, .intro (hf.release session.program.commands)⟩

variable [Host η]

/-- Descriptors are started in the same way over both. -/
theorem start_alike (h : s.Alike s') (i : Interpreter) (ds : List Descriptor) :
    (i.start ds s).Alike (i.start ds s') := by
  have hmade := h.factory.build ds i.config.mode
  unfold start
  cases i.session with
  | some session => exact ⟨rfl, rfl, rfl, h⟩
  | none =>
    dsimp only
    rw [hmade.result]
    cases (s'.factory.build ds i.config.mode).result with
    | ok p => exact ⟨rfl, rfl, rfl, h.took hmade⟩
    | error e => exact ⟨rfl, rfl, rfl, h.took hmade⟩

/-- An update does the same over both. -/
theorem update_alike (h : s.Alike s') (i : Interpreter) :
    (i.update s).Alike (i.update s') := by
  obtain ⟨hf⟩ := h
  unfold update
  cases i.session with
  | none => exact ⟨rfl, rfl, rfl, .intro hf⟩
  | some session =>
    dsimp only
    split
    · exact ⟨rfl, rfl, rfl, .intro hf⟩
    · cases i.overLimit (session.ticks + 1) with
      | some limit => exact complete_alike (.intro hf) ..
      | none =>
        dsimp only
        split
        · exact ⟨rfl, rfl, rfl, .intro hf⟩
        · exact complete_alike (.intro hf) ..

/-- A stop does the same over both. -/
theorem stop_alike (h : s.Alike s') (i : Interpreter) : (i.stop s).Alike (i.stop s') := by
  obtain ⟨hf⟩ := h
  unfold stop
  cases i.session with
  | none => exact ⟨rfl, rfl, rfl, .intro hf⟩
  | some session => exact ⟨rfl, rfl, rfl, .intro (hf.release _)⟩

end Interpreter

end EventScript
