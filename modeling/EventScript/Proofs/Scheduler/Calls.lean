import EventScript.Proofs.Scheduler.Reach

/-!
# What single calls of a scheduler can be

A start is refused, or fails with its program, or brings a new session; a stop finds no
session, or removes one; a pause finds none, or changes one. Each has one lemma here with all
that the call changes, and a refused call changes nothing but what a factory has reported.
-/

namespace EventScript

namespace Scheduler

variable {η : Type}

/-- The ids of the active sessions. -/
def ids (s : Scheduler η) : List SessionId := s.sessions.map Prod.fst

/-- An event leaves the ids alone. -/
@[simp] theorem ids_publish (s : Scheduler η) (e : SessionEvent) : (s.publish e).ids = s.ids := rfl

/-- The scheduler without a session. -/
def without (s : Scheduler η) (id : SessionId) (services : Services η) : Scheduler η :=
  { s with services, sessions := s.sessions.filter fun e => e.1 ≠ id }

/-- A session that is taken out has its id no longer. -/
@[simp] theorem mem_ids_without {s : Scheduler η} {id id' : SessionId} {services : Services η} :
    id' ∈ (s.without id services).ids ↔ id' ∈ s.ids ∧ id' ≠ id := by
  simp only [ids, without, List.mem_map, List.mem_filter, decide_eq_true_eq]
  constructor
  · rintro ⟨e, ⟨he, hne⟩, rfl⟩
    exact ⟨⟨e, he, rfl⟩, hne⟩
  · rintro ⟨⟨e, he, rfl⟩, hne⟩
    exact ⟨e, ⟨he, hne⟩, rfl⟩

/-- The scheduler with a new session. -/
def withNew (s : Scheduler η) (i : Interpreter) (services : Services η) : Scheduler η :=
  { s with services
           nextId := s.nextId + 1
           sessions := s.sessions ++ [(⟨s.nextId⟩, i)] }

/-- A new session has the next id. -/
@[simp] theorem ids_withNew (s : Scheduler η) (i : Interpreter) (services : Services η) :
    (s.withNew i services).ids = s.ids ++ [⟨s.nextId⟩] := List.map_append

/-- The program of a start, as the factory makes it. -/
def made (s : Scheduler η) (ds : List Descriptor) : Made (Except ProgramError Program) :=
  s.services.factory.build ds s.config.interpreter.mode

/-- The interpreter of a new session. -/
def opened (s : Scheduler η) (owner : Owner) (p : Program) : Interpreter :=
  Interpreter.begin { config := s.config.interpreter, owner } p true

/-- An active session is listed with its interpreter. -/
theorem mem_of_session? {s : Scheduler η} {id : SessionId} {i : Interpreter}
    (h : s.session? id = some i) : (id, i) ∈ s.sessions := by
  obtain ⟨e, he, rfl⟩ := Option.map_eq_some_iff.mp h
  have hid : e.1 = id := by simpa using List.find?_some he
  rw [← hid]
  exact List.mem_of_find?_eq_some he

/-- What a change of one interpreter can be. -/
theorem modify_cases (s : Scheduler η) (id : SessionId) (f : Interpreter → Interpreter) :
    s.modify id f = (.error (.unknownSession id), s) ∨
    s.modify id f = (.ok (), { s with
      sessions := s.sessions.map fun e => if e.1 = id then (id, f e.2) else e }) := by
  unfold modify
  cases s.session? id with
  | none => exact .inl rfl
  | some i => exact .inr rfl

/-- A session that is active after a change was active before, with or without the change. -/
theorem mem_modify {s : Scheduler η} {id : SessionId} {f : Interpreter → Interpreter}
    {e : SessionId × Interpreter} (he : e ∈ (s.modify id f).2.sessions) :
    e ∈ s.sessions ∨ ∃ i, (e.1, i) ∈ s.sessions ∧ e.2 = f i := by
  rcases s.modify_cases id f with hm | hm <;> rw [hm] at he
  · exact .inl he
  · obtain ⟨g, hg, rfl⟩ := List.mem_map.mp he
    split
    · next hid => exact .inr ⟨g.2, by rw [← hid]; exact hg, rfl⟩
    · exact .inl hg

variable [Host η]

/-- What a start can be. -/
theorem spawn_cases (s : Scheduler η) (owner : Owner) (ds : List Descriptor) :
    (∃ limit, s.spawn owner ds = (.error (.tooManySessions limit), s)) ∨
    (∃ e, (s.made ds).result = .error e ∧
      s.spawn owner ds = (.error (.interpreter (.malformedProgram e)),
        { s with services := s.services.took (s.made ds) })) ∨
    ∃ p, s.fullAt = none ∧ (s.made ds).result = .ok p ∧ s.spawn owner ds = (.ok ⟨s.nextId⟩,
      (s.withNew (s.opened owner p) (s.services.took (s.made ds))).publish
        (.started ⟨s.nextId⟩ owner)) := by
  unfold spawn
  cases hfull : s.fullAt with
  | some limit => exact .inl ⟨limit, rfl⟩
  | none =>
    refine .inr ?_
    dsimp only [Interpreter.start]
    cases hmade : (s.made ds).result with
    | error e =>
      rw [made] at hmade
      exact .inl ⟨e, rfl, by rw [hmade]; rfl⟩
    | ok p =>
      rw [made] at hmade
      exact .inr ⟨p, rfl, rfl, by rw [hmade]; rfl⟩

/-- What a stop can be. -/
theorem stop_cases (s : Scheduler η) (id : SessionId) :
    s.stop id = (.error (.unknownSession id), s) ∨
    ∃ i, (id, i) ∈ s.sessions ∧ s.stop id = (.ok (),
      (s.without id (i.stop s.services).services).publish (.stopped id i.owner)) := by
  unfold stop
  cases hs : s.session? id with
  | none => exact .inl rfl
  | some i => exact .inr ⟨i, mem_of_session? hs, rfl⟩

end Scheduler

end EventScript
