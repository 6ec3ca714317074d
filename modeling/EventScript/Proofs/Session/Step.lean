import EventScript.Proofs.Program.Flow
import EventScript.Program.Session

/-!
# What a step of a session can be

`Session.Steps` lists the outcomes of a step, one rule each, with all that the step
changes; `steps_step` says that every step is one of them. What is written of a program,
which is everything but phases and memories, is the same before and after.
-/

namespace EventScript

namespace Command

/-- A reset leaves the action alone. -/
@[simp] theorem reset_action (c : Command) : c.reset.action = c.action := rfl

/-- A reset leaves the mark alone. -/
@[simp] theorem reset_enabled (c : Command) : c.reset.enabled = c.enabled := rfl

/-- Commands that differ in phase and memory alone have one action. -/
theorem action_eq_of_reset_eq {c d : Command} (h : c.reset = d.reset) :
    c.action = d.action := by
  rw [← c.reset_action, h, reset_action]

/-- Commands that differ in phase and memory alone are enabled together. -/
theorem enabled_eq_of_reset_eq {c d : Command} (h : c.reset = d.reset) :
    c.enabled = d.enabled := by
  rw [← c.reset_enabled, h, reset_enabled]

variable {η : Type} [Host η]

/-- Executing a command changes its phase and memory alone. -/
theorem reset_execute (c : Command) (owner : Owner) (w : World η) :
    (c.execute owner w).command.reset = c.reset := by
  unfold execute
  split <;> rfl

/-- Resuming a command changes its phase and memory alone. -/
theorem reset_resume (c : Command) (token : Token) (w : World η) :
    (c.resume token w).command.reset = c.reset := by
  unfold resume
  split <;> rfl

/-- A message or prompt is given up without a change of the game. -/
theorem game_abort (c : Command) (w : World η) : (c.abort w).2.2.game = w.game := by
  unfold abort
  cases c.phase with
  | executing =>
    dsimp only [Action.release]
    split <;> rfl
  | idle | complete | aborted => rfl

end Command

namespace Program

/-- A replaced command is found at its index. -/
theorem get?_set_self {p : Program} {i : Nat} {c : Command} (hc : p.get? i = some c)
    (d : Command) : (p.set i d).get? i = some d :=
  List.getElem?_set_self (List.getElem?_eq_some_iff.mp hc).1

/-- Every other index keeps its command. -/
theorem get?_set_of_ne {i j : Nat} (h : i ≠ j) (p : Program) (d : Command) :
    (p.set i d).get? j = p.get? j :=
  List.getElem?_set_ne h

/-- What the new command and all others have holds of every command after the replacement. -/
theorem forall_set {P : Command → Prop} {p : Program} {i : Nat} {c : Command} (hc : P c)
    (h : ∀ j d, j ≠ i → p.get? j = some d → P d) (j : Nat) (d : Command)
    (hd : (p.set i c).get? j = some d) : P d := by
  by_cases hi : i = j
  · subst hi
    have hlt := (List.getElem?_eq_some_iff.mp hd).1
    rw [set, List.length_set] at hlt
    rw [get?_set_self (List.getElem?_eq_getElem hlt)] at hd
    rwa [← Option.some.inj hd]
  · rw [get?_set_of_ne hi] at hd
    exact h j d (Ne.symm hi) hd

/-- The program as it was written: every command idle and without memory. -/
def written (p : Program) : Program := { p with commands := p.commands.map Command.reset }

/-- The commands of one written form have one reset form at every index. -/
theorem get?_written (p : Program) (i : Nat) :
    p.written.get? i = (p.get? i).map Command.reset := List.getElem?_map ..

/-- One written form has one list of actions. -/
theorem actions_eq_of_written_eq {p q : Program} (h : p.written = q.written) :
    p.actions = q.actions := by
  have hc := congrArg (fun r => r.commands.map Command.action) h
  simp only [written, List.map_map] at hc
  exact hc

/-- One written form has one list of kinds. -/
theorem kinds_eq_of_written_eq {p q : Program} (h : p.written = q.written) :
    p.kinds = q.kinds := by
  rw [kinds_eq, kinds_eq, actions_eq_of_written_eq h]

/-- One written form has one table of labels. -/
theorem labels_eq_of_written_eq {p q : Program} (h : p.written = q.written) :
    p.labels = q.labels := by
  have hl := congrArg Program.labels h
  exact hl

/-- One written form has one size. -/
theorem size_eq_of_written_eq {p q : Program} (h : p.written = q.written) :
    p.size = q.size := by
  rw [← length_kinds, ← length_kinds, kinds_eq_of_written_eq h]

/-- What makes a program accepted is written of it. -/
theorem Accepted.of_written_eq {p q : Program} (ha : p.Accepted) (h : p.written = q.written) :
    q.Accepted := by
  unfold Accepted at ha ⊢
  rwa [actions_eq_of_written_eq h, labels_eq_of_written_eq h] at ha

/-- Replacing a command by one of the same reset form changes nothing written. -/
theorem written_set {p : Program} {i : Nat} {c d : Command} (hc : p.get? i = some c)
    (hd : d.reset = c.reset) : (p.set i d).written = p.written := by
  unfold written set
  congr 1
  rw [List.map_set]
  apply List.ext_getElem?
  intro j
  by_cases hj : i = j
  · subst hj
    have hlt := (List.getElem?_eq_some_iff.mp hc).1
    rw [List.getElem?_set_self (by rwa [List.length_map]), List.getElem?_map]
    unfold get? at hc
    rw [hc, hd]
    rfl
  · rw [List.getElem?_set_ne hj]

end Program

namespace Session

variable {η : Type} [Host η]

/-- The session after a command has ended: the command is idle again and the cursor has
gone on. -/
def settled (s : Session) (c : Command) (stack : ControlStack) (cursor : Nat) : Session :=
  { s with program := s.program.set s.cursor c.reset
           cursor
           stack
           pending := none
           executed := s.executed + 1 }

/-- The world after a tick of a command, with its failure reported. -/
def reported (s : Session) (owner : Owner) (c : Command) (ran : Ran η) : World η :=
  match ran.result with
  | .ok _ => ran.world
  | .error e => ran.world.report (.commandFailed owner s.cursor c.name e)

/-- What a step of a session at `owner` in a world can be. -/
inductive Steps (s : Session) (owner : Owner) (w : World η) : Step → Session → World η → Prop
  /-- The cursor has passed the last command. -/
  | ended (h : s.program.get? s.cursor = none) :
    Steps s owner w (.complete .endOfProgram) s w
  /-- The command is disabled. -/
  | skipped {c : Command} (h : s.program.get? s.cursor = some c) (hd : c.enabled = false) :
    Steps s owner w (.report (.skipped s.cursor)) { s with cursor := s.cursor + 1 } w
  /-- The command needs more ticks. -/
  | suspended {c : Command} {token : Token} {ran : Ran η}
    (h : s.program.get? s.cursor = some c) (he : c.enabled = true)
    (hran : ran = runCommand c s.pending owner w) (hr : ran.result = .ok (.suspended token)) :
    Steps s owner w (.report (.suspended s.cursor))
      { s with program := s.program.set s.cursor ran.command, pending := some token } ran.world
  /-- The command has completed or failed, and the cursor goes on. -/
  | executed {c : Command} {ran : Ran η} {r : Resolution} {stack : ControlStack} {next : Nat}
    (h : s.program.get? s.cursor = some c) (he : c.enabled = true)
    (hran : ran = runCommand c s.pending owner w)
    (hr : ∀ token, ran.result ≠ .ok (.suspended token))
    (hm : s.program.resolve ran.command.motion s.cursor s.stack = (.ok r, stack))
    (hn : r.target s.cursor = some next) :
    Steps s owner w (.report (.executed s.cursor ran.command.kind next))
      (s.settled ran.command stack next) (s.reported owner c ran)
  /-- The command has completed or failed and ends the session. -/
  | exited {c : Command} {ran : Ran η} {stack : ControlStack}
    (h : s.program.get? s.cursor = some c) (he : c.enabled = true)
    (hran : ran = runCommand c s.pending owner w)
    (hr : ∀ token, ran.result ≠ .ok (.suspended token))
    (hm : s.program.resolve ran.command.motion s.cursor s.stack = (.ok .halt, stack)) :
    Steps s owner w (.complete .exited) (s.settled ran.command stack s.cursor)
      (s.reported owner c ran)
  /-- The command has completed or failed and wants a move without a target. -/
  | faulted {c : Command} {ran : Ran η} {e : FlowError} {stack : ControlStack}
    (h : s.program.get? s.cursor = some c) (he : c.enabled = true)
    (hran : ran = runCommand c s.pending owner w)
    (hr : ∀ token, ran.result ≠ .ok (.suspended token))
    (hm : s.program.resolve ran.command.motion s.cursor s.stack = (.error e, stack)) :
    Steps s owner w (.complete .faulted) (s.settled ran.command stack s.cursor)
      ((s.reported owner c ran).report (.flowFailed owner s.cursor e))

/-- Running a command for one tick changes its phase and memory alone. -/
theorem reset_runCommand (c : Command) (pending : Option Token) (owner : Owner) (w : World η) :
    (runCommand c pending owner w).command.reset = c.reset := by
  cases pending with
  | none => exact c.reset_execute owner w
  | some token => exact c.reset_resume token w

/-- So it does not change the kind. -/
theorem kind_runCommand (c : Command) (pending : Option Token) (owner : Owner) (w : World η) :
    (runCommand c pending owner w).command.kind = c.kind :=
  congrArg Action.kind (Command.action_eq_of_reset_eq (reset_runCommand c pending owner w))

private theorem steps_settle {s : Session} {owner : Owner} {w : World η} {c : Command}
    {ran : Ran η} (h : s.program.get? s.cursor = some c) (he : c.enabled = true)
    (hran : ran = runCommand c s.pending owner w)
    (hr : ∀ token, ran.result ≠ .ok (.suspended token)) {after : Stepped η}
    (ha : s.settle owner ran.command (s.reported owner c ran) = after) :
    Steps s owner w after.step after.session after.world := by
  subst ha
  simp only [settle]
  rcases hm : s.program.resolve ran.command.motion s.cursor s.stack with ⟨resolved, stack⟩
  match resolved, hm with
  | .ok .advance, hm => exact .executed h he hran hr hm rfl
  | .ok (.moveTo next), hm => exact .executed h he hran hr hm rfl
  | .ok .halt, hm => exact .exited h he hran hr hm
  | .error e, hm => exact .faulted h he hran hr hm

/-- Every step is one of these. -/
theorem steps_step (s : Session) (owner : Owner) (w : World η) :
    Steps s owner w (s.step owner w).step (s.step owner w).session (s.step owner w).world := by
  unfold step
  cases h : s.program.get? s.cursor with
  | none => exact .ended h
  | some c =>
    dsimp only
    cases he : c.enabled with
    | false => exact .skipped h he
    | true =>
      rw [if_pos rfl]
      cases hr : (runCommand c s.pending owner w).result with
      | ok progress =>
        cases progress with
        | suspended token => exact .suspended h he rfl hr
        | completed =>
          refine steps_settle h he rfl (by rw [hr]; simp) ?_
          simp [reported, hr]
      | error e =>
        refine steps_settle h he rfl (by rw [hr]; simp) ?_
        simp [reported, hr]

private theorem resolved_target {r : Resolution} {cursor next : Nat}
    (h : r.target cursor = some next) :
    (r = .advance ∧ next = cursor + 1) ∨ r = .moveTo next := by
  cases r with
  | advance => cases h; exact .inl ⟨rfl, rfl⟩
  | moveTo index => cases h; exact .inr rfl
  | halt => cases h

private theorem settled_of_ran {s : Session} {owner : Owner} {w : World η} {c : Command}
    {ran : Ran η} (h : s.program.get? s.cursor = some c) (he : c.enabled = true)
    (hran : ran = runCommand c s.pending owner w)
    (hr : ∀ token, ran.result ≠ .ok (.suspended token)) :
    s.step owner w = s.settle owner ran.command (s.reported owner c ran) := by
  subst hran
  unfold step reported
  rw [h]
  dsimp only
  rw [if_pos he]
  match hres : (runCommand c s.pending owner w).result with
  | .ok (.suspended token) => exact absurd hres (hr token)
  | .ok .completed => rfl
  | .error e => rfl

/-- A step is what the rules say. -/
theorem Steps.step_eq {s s' : Session} {owner : Owner} {w w' : World η} {st : Step}
    (h : Steps s owner w st s' w') : s.step owner w = ⟨st, s', w'⟩ := by
  cases h with
  | ended h => rw [step, h]
  | skipped h hd =>
    rw [step, h]
    exact if_neg (by rw [hd]; decide)
  | suspended h he hran hr =>
    subst hran
    rw [step, h]
    dsimp only
    rw [if_pos he, hr]
  | executed h he hran hr hm hn =>
    rw [settled_of_ran h he hran hr]
    rcases resolved_target hn with ⟨rfl, rfl⟩ | rfl
    · simp only [settle, hm]
      rfl
    · simp only [settle, hm]
      rfl
  | exited h he hran hr hm =>
    rw [settled_of_ran h he hran hr]
    simp only [settle, hm]
    rfl
  | faulted h he hran hr hm =>
    rw [settled_of_ran h he hran hr]
    simp only [settle, hm]
    rfl

/-- No step changes who hears of the completion. -/
theorem Steps.notify {s s' : Session} {owner : Owner} {w w' : World η} {st : Step}
    (h : Steps s owner w st s' w') : s'.notify = s.notify := by
  cases h <;> rfl

/-- No step pauses a session or ends its pause. -/
theorem Steps.paused {s s' : Session} {owner : Owner} {w w' : World η} {st : Step}
    (h : Steps s owner w st s' w') : s'.paused = s.paused := by
  cases h <;> rfl

/-- No step counts ticks; that is done before it. -/
theorem Steps.ticks {s s' : Session} {owner : Owner} {w w' : World η} {st : Step}
    (h : Steps s owner w st s' w') : s'.ticks = s.ticks := by
  cases h <;> rfl

/-- Aborting the command in flight changes the program alone. -/
theorem abortInFlight_eq (s : Session) (w : World η) :
    (s.abortInFlight w).1 = { s with program := (s.abortInFlight w).1.program } := by
  unfold abortInFlight
  split <;> rfl

/-- The number of ticks plays no part in it. -/
theorem abortInFlight_ticks (s : Session) (n : Nat) (w : World η) :
    abortInFlight { s with ticks := n } w =
      ({ (s.abortInFlight w).1 with ticks := n }, (s.abortInFlight w).2) := by
  unfold abortInFlight
  dsimp only
  split <;> rfl

/-- Aborting the command in flight does not touch the game. -/
theorem game_abortInFlight (s : Session) (w : World η) : (s.abortInFlight w).2.game = w.game := by
  unfold abortInFlight
  split
  · rfl
  · next c _ => exact c.game_abort w

/-- No step changes what is written of the program. -/
theorem Steps.written {s s' : Session} {owner : Owner} {w w' : World η} {st : Step}
    (h : Steps s owner w st s' w') : s'.program.written = s.program.written := by
  cases h with
  | ended => rfl
  | skipped => rfl
  | suspended h _ hran =>
    subst hran
    exact Program.written_set h (reset_runCommand ..)
  | executed h _ hran | exited h _ hran | faulted h _ hran =>
    subst hran
    exact Program.written_set h (reset_runCommand ..)

end Session

end EventScript
