import EventScript.Factory.Basic
import EventScript.Proofs.Command.Waiting
import EventScript.Proofs.Program.Flow

/-!
# Instances of a factory

Whatever is in its pool, a factory hands out commands at rest: an instance is configured
anew before it is used.
-/

namespace EventScript

namespace Factory

/-- A created command is at rest. -/
theorem create_atRest {f : Factory} {d : Descriptor} {c : Command}
    (h : (f.create d).result = .ok c) : c.AtRest := by
  unfold create at h
  split at h
  · cases h
  · split at h
    · cases h
    · cases h
      exact ⟨rfl, rfl⟩

/-- So is one that was created with defaults. -/
theorem createOrDefault_atRest {f : Factory} {d : Descriptor} {c : Command}
    (h : (f.createOrDefault d).result = some c) : c.AtRest := by
  unfold createOrDefault at h
  split at h
  · next created =>
    cases h
    exact create_atRest (congrArg Made.result created)
  · cases h
  · dsimp only at h
    split at h
    · cases h
    · cases h
      exact ⟨rfl, rfl⟩

/-- Every command created from a list is at rest. -/
theorem createAll_atRest (f : Factory) (ds : List Descriptor) :
    ∀ c ∈ (f.createAll ds).result, c.AtRest := by
  induction ds generalizing f with
  | nil => simp [createAll]
  | cons d rest ih =>
    intro c hc
    rcases List.mem_append.mp hc with hc | hc
    · exact createOrDefault_atRest (Option.mem_toList.mp hc)
    · exact ih _ c hc

/-- Every command of a built program is at rest. -/
theorem build_atRest {f : Factory} {ds : List Descriptor} {mode : Mode} {p : Program}
    (h : (f.build ds mode).result = .ok p) : ∀ c ∈ p.commands, c.AtRest := by
  unfold build at h
  dsimp only at h
  split at h
  · next made =>
    cases h
    rw [(Program.accepted_of_ofCommands made).1]
    exact createAll_atRest _ _
  · cases h

end Factory

end EventScript
