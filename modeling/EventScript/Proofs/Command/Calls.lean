import EventScript.Proofs.Command.Opening

/-!
# Calls of a command

A command can be executed, resumed and aborted. `Command.Does` lists what a call comes to, one rule
each: the action is started, goes on, or gives up what it holds, an idle command is withdrawn, or
the call is refused and changes nothing.
-/

namespace EventScript

namespace Command

/-- What can be asked of a command. -/
inductive Call where
  | execute (owner : Owner)
  | resume (token : Token)
  | abort

/-- What a command answers. -/
inductive Answer where
  | ran (result : Except CommandError Progress)
  /-- Whether there was something to stop. -/
  | stopped (wasRunning : Bool)

/-- The answer to a call, and the command and the world after it. -/
structure Called (η : Type) where
  answer : Answer
  command : Command
  world : World η

/-- What becomes of a call. -/
inductive Deed where
  /-- The action was started. -/
  | started
  /-- The action went on. -/
  | resumed
  /-- The action gave up what it held. -/
  | released
  /-- The command was stopped before it began. -/
  | withdrawn
  | refused
  deriving DecidableEq

/-- What becomes of a call is decided by the phase. -/
def deed (c : Command) : Call → Deed
  | .execute _ => if c.phase = .idle then .started else .refused
  | .resume _ => if c.phase = .executing then .resumed else .refused
  | .abort =>
    match c.phase with
    | .idle => .withdrawn
    | .executing => .released
    | .complete | .aborted => .refused

/-- The answer to a call that is refused. -/
def refusal (c : Command) : Call → Answer
  | .execute _ | .resume _ => .ran (.error (.notRunnable c.name c.phase))
  | .abort => .stopped false

/-- Every call is refused where the command has ended. -/
theorem refused_of_terminal {c : Command} (h : c.phase.isTerminal) (request : Call) :
    c.deed request = .refused := by
  cases hphase : c.phase with
  | idle | executing =>
    rw [hphase] at h
    cases h
  | complete | aborted => cases request <;> simp [deed, hphase]

section

variable {η : Type}

/-- A tick as a call. -/
def Called.ofRan (r : Ran η) : Called η := ⟨.ran r.result, r.command, r.world⟩

/-- A call without the diary. -/
def Called.plain (done : Called (Diary η)) : Called η :=
  ⟨done.answer, done.command, done.world.plain⟩

variable [Host η]

/-- Call a command. -/
def call (c : Command) (request : Call) (w : World η) : Called η :=
  match request with
  | .execute owner => .ofRan (c.execute owner w)
  | .resume token => .ofRan (c.resume token w)
  | .abort =>
    let (wasRunning, c, w) := c.abort w
    ⟨.stopped wasRunning, c, w⟩

variable {c : Command} {request : Call}

/-- An idle command starts its action. -/
theorem call_execute (h : c.phase = .idle) (owner : Owner) (w : World η) :
    c.call (.execute owner) w = .ofRan (c.settle (c.action.start owner c.memory w)) := by
  rw [call, execute, if_pos h]

/-- An executing one goes on with it. -/
theorem call_resume (h : c.phase = .executing) (token : Token) (w : World η) :
    c.call (.resume token) w = .ofRan (c.settle (c.action.resume token c.memory w)) := by
  rw [call, resume, if_pos h]

/-- Stopped, it gives up what it holds. -/
theorem call_abort_executing (h : c.phase = .executing) (w : World η) :
    c.call .abort w = ⟨.stopped true,
      { c with phase := .aborted, memory := (c.action.release c.memory w).1 },
      (c.action.release c.memory w).2⟩ := by
  rw [call, abort, h]

/-- An idle command has nothing to give up. -/
theorem call_abort_idle (h : c.phase = .idle) (w : World η) :
    c.call .abort w = ⟨.stopped true, { c with phase := .aborted }, w⟩ := by
  rw [call, abort, h]

/-- A refused call changes nothing. -/
theorem call_of_refused (h : c.deed request = .refused) (w : World η) :
    c.call request w = ⟨c.refusal request, c, w⟩ := by
  cases request with
  | execute owner =>
    have hbusy : c.phase ≠ .idle := fun hidle => by simp [deed, hidle] at h
    rw [call, execute, if_neg hbusy]
    rfl
  | resume token =>
    have hbusy : c.phase ≠ .executing := fun hexecuting => by simp [deed, hexecuting] at h
    rw [call, resume, if_neg hbusy]
    rfl
  | abort =>
    cases hphase : c.phase with
    | idle | executing => simp [deed, hphase] at h
    | complete | aborted =>
      rw [call, abort, hphase]
      rfl

/-- What a call of a command in a world can come to. -/
inductive Does (c : Command) (w : World η) : Call → Deed → Called η → Prop
  | started (owner : Owner) (h : c.phase = .idle) :
    Does c w (.execute owner) .started (.ofRan (c.settle (c.action.start owner c.memory w)))
  | resumed (token : Token) (h : c.phase = .executing) :
    Does c w (.resume token) .resumed (.ofRan (c.settle (c.action.resume token c.memory w)))
  | released (h : c.phase = .executing) :
    Does c w .abort .released ⟨.stopped true,
      { c with phase := .aborted, memory := (c.action.release c.memory w).1 },
      (c.action.release c.memory w).2⟩
  | withdrawn (h : c.phase = .idle) :
    Does c w .abort .withdrawn ⟨.stopped true, { c with phase := .aborted }, w⟩
  | refused (request : Call) (h : c.deed request = .refused) :
    Does c w request .refused ⟨c.refusal request, c, w⟩

/-- Every call comes to one of these. -/
theorem does_call (c : Command) (request : Call) (w : World η) :
    c.Does w request (c.deed request) (c.call request w) := by
  cases request with
  | execute owner =>
    by_cases h : c.phase = .idle
    · rw [call_execute h, deed, if_pos h]
      exact .started owner h
    · have hrefused : c.deed (.execute owner) = .refused := if_neg h
      rw [call_of_refused hrefused, hrefused]
      exact .refused _ hrefused
  | resume token =>
    by_cases h : c.phase = .executing
    · rw [call_resume h, deed, if_pos h]
      exact .resumed token h
    · have hrefused : c.deed (.resume token) = .refused := if_neg h
      rw [call_of_refused hrefused, hrefused]
      exact .refused _ hrefused
  | abort =>
    cases h : c.phase with
    | idle =>
      have hdeed : c.deed .abort = .withdrawn := by rw [deed, h]
      rw [call_abort_idle h, hdeed]
      exact .withdrawn h
    | executing =>
      have hdeed : c.deed .abort = .released := by rw [deed, h]
      rw [call_abort_executing h, hdeed]
      exact .released h
    | complete | aborted =>
      have hrefused : c.deed .abort = .refused := by rw [deed, h]
      rw [call_of_refused hrefused, hrefused]
      exact .refused _ hrefused

/-- Only a call that is refused fails for want of an admissible phase. -/
theorem refused_of_notRunnable {w : World η} {name : String} {phase : Phase}
    (h : (c.call request w).answer = .ran (.error (.notRunnable name phase))) :
    c.deed request = .refused := by
  have hdoes := c.does_call request w
  generalize c.deed request = deed at hdoes ⊢
  generalize c.call request w = done at hdoes h
  cases hdoes with
  | started owner =>
    exact absurd (Answer.ran.inj h) (c.action.start_ne_notRunnable owner c.memory w name phase)
  | resumed token =>
    exact absurd (Answer.ran.inj h) (c.action.resume_ne_notRunnable token c.memory w name phase)
  | released | withdrawn => cases h
  | refused => rfl

/-- A call changes the phase and the memory of a command alone. -/
theorem reset_call (c : Command) (request : Call) (w : World η) :
    (c.call request w).command.reset = c.reset := by
  have hdoes := c.does_call request w
  generalize c.deed request = deed at hdoes
  generalize c.call request w = done at hdoes ⊢
  cases hdoes <;> rfl

/-- A call is the same with a diary. -/
theorem plain_call (c : Command) (request : Call) (w : World (Diary η)) :
    (c.call request w).plain = c.call request w.plain := by
  have hdoes := c.does_call request w
  have hplain := c.does_call request w.plain
  generalize c.deed request = deed at hdoes hplain
  generalize c.call request w = done at hdoes ⊢
  generalize c.call request w.plain = done' at hplain ⊢
  cases hdoes with
  | started owner =>
    cases hplain
    rw [← c.action.plain_start owner c.memory w]
    rfl
  | resumed token =>
    cases hplain
    rw [← c.action.plain_resume token c.memory w]
    rfl
  | released =>
    cases hplain
    obtain ⟨hmemory, hworld⟩ := c.action.plain_release c.memory w
    rw [← hmemory, ← hworld]
    rfl
  | withdrawn | refused =>
    cases hplain
    rfl

end

end Command

end EventScript
