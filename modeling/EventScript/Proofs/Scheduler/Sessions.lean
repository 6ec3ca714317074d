import EventScript.Proofs.Scheduler.Calls
import EventScript.Proofs.Session.InFlight

/-!
# Sessions of a scheduler as runs

Every session of a scheduler is in a run of a program that its factory built, so what holds of
runs from programs at rest holds of it.
-/

namespace EventScript

/-- The interpreter is in a run of a program at rest. -/
def Interpreter.Underway (i : Interpreter) : Prop :=
  ∃ (j : Interpreter) (p : Program), p.AtRest ∧ (j.begin p true).Reaches i

/-- A session in a run is tidy. -/
theorem Interpreter.Underway.tidy {i : Interpreter} (h : i.Underway) {s : Session}
    (hs : i.session = some s) : s.Tidy := by
  obtain ⟨j, p, hp, hr⟩ := h
  exact Session.Tidy.of_reaches hp hr hs

namespace Scheduler

variable {η : Type} {s : Scheduler η}

/-- Every active session is in its run. -/
def Underway (s : Scheduler η) : Prop := ∀ e ∈ s.sessions, e.2.Underway

namespace Underway

/-- A pause is part of the run. -/
theorem setPaused (h : s.Underway) (id : SessionId) (paused : Bool) :
    (s.modify id fun i => i.setPaused paused).2.Underway := by
  intro e he
  rcases mem_modify he with he | ⟨i, hi, heq⟩
  · exact h e he
  · obtain ⟨j, p, hp, hreach⟩ := h _ hi
    rw [heq]
    exact ⟨j, p, hp, hreach.setPaused paused⟩

variable [Host η]

/-- A new session begins with a program of the factory. -/
theorem spawn (h : s.Underway) (owner : Owner) (ds : List Descriptor) :
    (s.spawn owner ds).2.Underway := by
  rcases s.spawn_cases owner ds with ⟨limit, hs⟩ | ⟨e, -, hs⟩ | ⟨p, -, hmade, hs⟩ <;> rw [hs]
  · exact h
  · exact h
  · intro e he
    rcases List.mem_append.mp he with he | he
    · exact h e he
    · rw [List.mem_singleton.mp he]
      exact ⟨_, p, Program.atRest_of_mem (Factory.build_atRest hmade), .refl⟩

/-- A stop leaves the other sessions alone. -/
theorem stop (h : s.Underway) (id : SessionId) : (s.stop id).2.Underway := by
  rcases s.stop_cases id with hs | ⟨i, -, hs⟩ <;> rw [hs]
  · exact h
  · exact fun e he => h e (List.mem_filter.mp he).1

/-- A turn is part of the run of its session. -/
theorem turn (h : s.Underway) {s' : Scheduler η} {t : Turn η} (ht : s.Turned t s') :
    s'.Underway := by
  intro e he
  rcases ht.mem_cases he with he | ⟨hm, heq, -⟩
  · exact h e he
  · obtain ⟨j, p, hp, hreach⟩ := h _ hm
    rw [heq]
    exact ⟨j, p, hp, hreach.update t.services⟩

end Underway

end Scheduler

end EventScript
