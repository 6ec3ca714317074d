import EventScript.Proofs.Factory.Alike
import EventScript.Proofs.Scheduler.Calls

/-!
# Sessions that calls spawn

`Scheduler.births` lists the sessions that calls in order spawn, with their programs. Their ids are
those that the counter passes from the first call to the last, so a session is told from those
before it and from those after it. The factory that builds their programs never gives away what it
was used for: it stays like any that is clean and has the same registry.
-/

namespace EventScript

namespace Interpreter

variable {η : Type} [Host η] {f : Factory} {i : Interpreter} {services : Services η}

/-- An update gives back instances at most. -/
theorem update_factory (h : f.Alike services.factory) :
    f.Alike (i.update services).services.factory := by
  have hu := updates_update i services
  generalize i.update services = reply at hu ⊢
  cases hu with
  | inactive | paused | advanced => exact h
  | limited | ended => exact h.release_right _

/-- So does a stop. -/
theorem stop_factory (h : f.Alike services.factory) :
    f.Alike (i.stop services).services.factory := by
  unfold stop
  cases i.session with
  | none => exact h
  | some s => exact h.release_right _

end Interpreter

namespace Scheduler

/-- A session that has been spawned, with its program. -/
structure Birth where
  id : SessionId
  owner : Owner
  program : Program

variable {η : Type} [Host η]

/-- The session that a call spawns. -/
def birth? (s : Scheduler η) : Operation → Option Birth
  | .spawn owner ds =>
    match (s.spawn owner ds).1, (s.made ds).result with
    | .ok id, .ok program => some ⟨id, owner, program⟩
    | _, _ => none
  | _ => none

/-- The scheduler after calls in order. -/
def after (s : Scheduler η) : List Operation → Scheduler η
  | [] => s
  | o :: rest => (s.perform o).after rest

/-- The sessions that calls spawn in order. -/
def births (s : Scheduler η) : List Operation → List Birth
  | [] => []
  | o :: rest => (s.birth? o).toList ++ (s.perform o).births rest

/-- Calls lead on from where calls have led. -/
theorem after_append (s : Scheduler η) (ops later : List Operation) :
    s.after (ops ++ later) = (s.after ops).after later := by
  induction ops generalizing s with
  | nil => rfl
  | cons o rest ih => exact ih _

/-- More sessions are spawned from where calls lead. -/
theorem births_append (s : Scheduler η) (ops later : List Operation) :
    s.births (ops ++ later) = s.births ops ++ (s.after ops).births later := by
  induction ops generalizing s with
  | nil => rfl
  | cons o rest ih => rw [List.cons_append, births, ih, births, List.append_assoc]; rfl

/-- Calls are made one after the other. -/
theorem reaches_after {outside : Services η → Services η → Prop} {s t : Scheduler η}
    {ts : List (Turn η)} (h : s.Reaches outside ts t) (ops : List Operation) :
    ∃ ts', s.Reaches outside ts' (t.after ops) := by
  induction ops generalizing ts t with
  | nil => exact ⟨ts, h⟩
  | cons o rest ih => exact ih (h.perform o)

/-- What a start can be, with the session that it spawns. -/
theorem spawn_births (s : Scheduler η) (owner : Owner) (ds : List Descriptor) :
    (s.birth? (.spawn owner ds) = none ∧ (s.perform (.spawn owner ds) = s ∨
      s.perform (.spawn owner ds) = { s with services := s.services.took (s.made ds) })) ∨
    ∃ p, (s.made ds).result = .ok p ∧
      s.birth? (.spawn owner ds) = some ⟨⟨s.nextId⟩, owner, p⟩ ∧
      s.perform (.spawn owner ds) =
        (s.withNew (s.opened owner p) (s.services.took (s.made ds))).publish
          (.started ⟨s.nextId⟩ owner) := by
  rcases s.spawn_cases owner ds with ⟨limit, hs⟩ | ⟨e, hmade, hs⟩ | ⟨p, -, hmade, hs⟩
  · exact .inl ⟨by rw [birth?, hs], .inl (by rw [perform, hs])⟩
  · exact .inl ⟨by rw [birth?, hs], .inr (by rw [perform, hs])⟩
  · exact .inr ⟨p, hmade, by rw [birth?, hs, hmade], by rw [perform, hs]⟩

/-- A session that is spawned gets the next id. -/
theorem birth_id {s : Scheduler η} {owner : Owner} {ds : List Descriptor} {b : Birth}
    (h : s.birth? (.spawn owner ds) = some b) :
    b.id = ⟨s.nextId⟩ ∧ (s.perform (.spawn owner ds)).nextId = s.nextId + 1 := by
  rcases s.spawn_births owner ds with ⟨hnone, -⟩ | ⟨p, -, hsome, hs⟩
  · rw [hnone] at h
    cases h
  · obtain rfl := Option.some.inj (hsome.symm.trans h)
    exact ⟨rfl, by rw [hs]; rfl⟩

/-- No call takes back an id. -/
theorem nextId_kept (outside : Services η → Services η → Prop) (n : Nat) :
    Kept outside fun _ s => n ≤ s.nextId where
  outside _ h := h
  clock _ h := h
  spawn {ts s} owner ds h := by
    rcases s.spawn_cases owner ds with ⟨limit, hs⟩ | ⟨e, -, hs⟩ | ⟨p, -, -, hs⟩ <;> rw [hs]
    · exact h
    · exact h
    · exact Nat.le_succ_of_le h
  stop {ts s} id h := by
    rcases s.stop_cases id with hs | ⟨i, -, hs⟩ <;> rw [hs] <;> exact h
  setPaused {ts s} id paused h := by
    rcases s.modify_cases id fun i => i.setPaused paused with hs | hs <;> rw [hs] <;> exact h
  turn {ts s s' t} ht h := by
    cases ht with
    | goesOn => exact h
    | completes =>
      rw [afterTurn_eq]
      exact h

/-- No operation takes an id back. -/
theorem nextId_le_perform (s : Scheduler η) (o : Operation) : s.nextId ≤ (s.perform o).nextId :=
  @Kept.perform η _ _ _ s [] (nextId_kept (fun _ _ => True) s.nextId) o (Nat.le_refl _)

/-- Nor do operations in order. -/
theorem nextId_le_after (s : Scheduler η) (ops : List Operation) :
    s.nextId ≤ (s.after ops).nextId := by
  induction ops generalizing s with
  | nil => exact Nat.le_refl _
  | cons o rest ih => exact Nat.le_trans (s.nextId_le_perform o) (ih _)

/-- The ids that calls give out are those that the counter has passed in between. -/
theorem births_ids (s : Scheduler η) (ops : List Operation) :
    ∀ b ∈ s.births ops, s.nextId ≤ b.id.number ∧ b.id.number < (s.after ops).nextId := by
  induction ops generalizing s with
  | nil =>
    rintro b ⟨⟩
  | cons o rest ih =>
    intro b hb
    rcases List.mem_append.mp hb with hb | hb
    · have hlater := (s.perform o).nextId_le_after rest
      cases o with
      | spawn owner ds =>
        rcases s.spawn_births owner ds with ⟨hnone, -⟩ | ⟨p, -, hsome, hs⟩
        · rw [hnone] at hb
          cases hb
        · rw [hsome, Option.toList_some, List.mem_singleton] at hb
          rw [hs] at hlater
          subst hb
          exact ⟨Nat.le_refl _, by rw [after, hs]; exact hlater⟩
      | _ => cases hb
    · obtain ⟨hle, hlt⟩ := ih _ b hb
      exact ⟨Nat.le_trans (s.nextId_le_perform o) hle, hlt⟩

/-- Whatever calls are made, the factory stays like one with the same registry. -/
theorem factory_kept (f : Factory) :
    Kept (fun _ _ => False) fun _ (s : Scheduler η) => f.Alike s.services.factory where
  outside h _ := h.elim
  clock _ h := h
  spawn {ts s} owner ds h := by
    rcases s.spawn_cases owner ds with ⟨limit, hs⟩ | ⟨e, -, hs⟩ | ⟨p, -, -, hs⟩ <;> rw [hs]
    · exact h
    · exact h.build_right ds _
    · exact h.build_right ds _
  stop {ts s} id h := by
    rcases s.stop_cases id with hs | ⟨i, -, hs⟩ <;> rw [hs]
    · exact h
    · exact Interpreter.stop_factory h
  setPaused {ts s} id paused h := by
    rcases s.modify_cases id fun i => i.setPaused paused with hs | hs <;> rw [hs] <;> exact h
  turn {ts s s' t} ht h := by
    cases ht with
    | goesOn _ hs =>
      rw [← hs] at h
      exact Interpreter.update_factory h
    | completes _ hs =>
      rw [← hs] at h
      change f.Alike (s.afterTurn _ t).services.factory
      rw [afterTurn, services_announce]
      exact Interpreter.update_factory h

/-- A session has another id than those that are spawned before it and after it. -/
theorem births_apart {s : Scheduler η} {before later : List Operation} {owner : Owner}
    {ds : List Descriptor} {b : Birth} (h : (s.after before).birth? (.spawn owner ds) = some b) :
    (∀ other ∈ s.births before, other.id ≠ b.id) ∧
      ∀ other ∈ ((s.after before).perform (.spawn owner ds)).births later, other.id ≠ b.id := by
  obtain ⟨hid, hnext⟩ := birth_id h
  rw [hid]
  refine ⟨?_, ?_⟩
  · rintro other ho heq
    have hlt := (s.births_ids before other ho).2
    rw [heq] at hlt
    exact Nat.lt_irrefl _ hlt
  · rintro other ho heq
    have hle := (births_ids _ later other ho).1
    rw [hnext, heq] at hle
    exact Nat.not_succ_le_self _ hle

end Scheduler

end EventScript
