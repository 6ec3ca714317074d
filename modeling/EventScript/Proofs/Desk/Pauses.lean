import EventScript.Host.Stage
import EventScript.Proofs.Desk.Basic

/-!
# What pauses cannot change

A pause is known to nobody but the session that it holds up. Where the pauses are taken out of a
run, and with them the updates that met a paused session, the other calls get the replies that
they had, and what is left is the same but for the mark of the pause.
-/

namespace EventScript

namespace Interpreter

/-- The interpreter with its session continued, if it has one. -/
def unpaused (i : Interpreter) : Interpreter := i.setPaused false

variable {i : Interpreter}

/-- Only the last of two pauses counts. -/
theorem unpaused_setPaused (i : Interpreter) (paused : Bool) :
    (i.setPaused paused).unpaused = i.unpaused := by
  unfold unpaused setPaused
  cases i.session <;> rfl

/-- Where nothing is paused, nothing is to be continued. -/
theorem unpaused_of_running (h : i.isPaused = false) : i.unpaused = i := by
  obtain ⟨config, owner, session, completed⟩ := i
  cases session with
  | none => rfl
  | some s =>
    obtain ⟨_, _, _, _, paused, _, _, _⟩ := s
    cases h
    rfl

/-- A program is refused or taken whether a session is paused or not. -/
theorem startProgram_unpaused {η : Type} (i : Interpreter) (p : Program) (notify : Bool)
    (services : Services η) : i.unpaused.startProgram p notify services =
      (i.startProgram p notify services).mapInterpreter unpaused := by
  obtain ⟨config, owner, session, completed⟩ := i
  cases session <;> rfl

variable {η : Type} [Host η]

/-- So it is where it is built first. -/
theorem start_unpaused (i : Interpreter) (ds : List Descriptor) (services : Services η) :
    i.unpaused.start ds services = (i.start ds services).mapInterpreter unpaused := by
  obtain ⟨config, owner, session, completed⟩ := i
  cases session with
  | some s => rfl
  | none =>
    simp only [start, unpaused, setPaused, Option.map_none]
    split <;> rfl

/-- A paused session is stopped like one that runs. -/
theorem stop_unpaused (i : Interpreter) (services : Services η) :
    i.unpaused.stop services = (i.stop services).mapInterpreter unpaused := by
  obtain ⟨config, owner, session, completed⟩ := i
  cases session with
  | none => rfl
  | some s =>
    simp only [stop, unpaused, setPaused, Option.map_some, Session.abortInFlight]
    split <;> rfl

/-- An update pauses nothing. -/
theorem isPaused_update (h : i.isPaused = false) (services : Services η) :
    (i.update services).interpreter.isPaused = false := by
  have hu := updates_update i services
  generalize i.update services = reply at hu ⊢
  cases hu with
  | inactive | paused => exact h
  | limited | ended => rfl
  | advanced hs hp _ hstep => exact hstep.paused.trans hp

/-- An update that does not report a pause met none. -/
theorem isPaused_of_update {services : Services η} (h : (i.update services).result ≠ .paused) :
    i.isPaused = false := by
  have hu := updates_update i services
  generalize i.update services = reply at hu h
  cases hu with
  | inactive hs => rw [isPaused, hs]; rfl
  | paused => exact absurd rfl h
  | limited hs hp | advanced hs hp | ended hs hp => rw [isPaused, hs]; exact hp

/-- So such an update is made alike once pauses are gone. -/
theorem update_unpaused {services : Services η} (h : (i.update services).result ≠ .paused) :
    i.unpaused.update services = (i.update services).mapInterpreter unpaused := by
  have hrunning := isPaused_of_update h
  rw [unpaused_of_running hrunning, Reply.mapInterpreter,
    unpaused_of_running (isPaused_update hrunning services)]

/-- An update that reports a pause changes nothing. -/
theorem update_reported_paused {services : Services η}
    (h : (i.update services).result = .paused) :
    (i.update services).interpreter = i ∧ (i.update services).services = services := by
  have hu := updates_update i services
  generalize i.update services = reply at hu h ⊢
  cases hu with
  | inactive | limited | ended => cases h
  | paused => exact ⟨rfl, rfl⟩
  | advanced _ _ _ hstep => cases h; cases hstep

end Interpreter

namespace Desk

variable {η : Type}

/-- The entry is a pause, or an update of a paused session. -/
def Entry.isPause (e : Entry η) : Bool :=
  match e.call, e.reply.result with
  | .setPaused _, _ => true
  | .update, .updated .paused => true
  | _, _ => false

/-- The desk with its session continued. -/
def unpaused (d : Desk η) : Desk η := d.mapInterpreter Interpreter.unpaused

/-- The entry with the session continued after it. -/
def Entry.unpaused (e : Entry η) : Entry η := e.mapInterpreter Interpreter.unpaused

variable [Host η]

/-- An update is a pause where it is reported as one. -/
theorem isPause_update {d : Desk η} :
    (d.enter .update).isPause = true ↔ (d.interpreter.update d.services).result = .paused := by
  unfold Entry.isPause enter reply Reply.map
  dsimp only
  cases (d.interpreter.update d.services).result <;> simp

/-- A pause changes nothing else. -/
theorem unpaused_of_isPause {d : Desk η} {c : Call η} (h : (d.enter c).isPause = true) :
    (d.enter c).desk.unpaused = d.unpaused := by
  cases c with
  | setPaused paused =>
    exact congrArg (Desk.mk · d.services) (d.interpreter.unpaused_setPaused paused)
  | update =>
    obtain ⟨hi, hs⟩ := Interpreter.update_reported_paused (isPause_update.mp h)
    unfold unpaused mapInterpreter Entry.desk enter reply Reply.map
    dsimp only
    rw [hi, hs]
  | start | startProgram | stop | outside => cases h

/-- Every other call gets its reply whether the session is paused or not. -/
theorem enter_unpaused {d : Desk η} {c : Call η} (h : ¬(d.enter c).isPause = true) :
    d.unpaused.enter c = (d.enter c).unpaused := by
  have hcall : d.unpaused.reply c = (d.reply c).mapInterpreter Interpreter.unpaused := by
    cases c with
    | start ds => exact congrArg (Reply.map _) (d.interpreter.start_unpaused ds d.services)
    | startProgram p notify =>
      exact congrArg (Reply.map _) (d.interpreter.startProgram_unpaused p notify d.services)
    | update =>
      exact congrArg (Reply.map _) (Interpreter.update_unpaused (mt isPause_update.mpr h))
    | stop => exact congrArg (Reply.map _) (d.interpreter.stop_unpaused d.services)
    | setPaused => exact absurd rfl h
    | outside f => rfl
  exact congrArg (Entry.mk c) hcall

/-- The entries that are left where the pauses are taken out. -/
def awake (run : List (Entry η)) : List (Entry η) := run.filter fun e => !e.isPause

/-- The calls that are left get the replies that they had. -/
theorem run_awake (d : Desk η) (calls : List (Call η)) :
    d.unpaused.run ((awake (d.run calls)).map Entry.call) =
      (awake (d.run calls)).map Entry.unpaused := by
  induction calls generalizing d with
  | nil => rfl
  | cons c rest ih =>
    have hrest := ih (d.enter c).desk
    by_cases h : (d.enter c).isPause = true
    · rw [unpaused_of_isPause h] at hrest
      simpa [awake, run, h] using hrest
    · simp only [awake, run, h, Bool.not_false, List.filter_cons_of_pos, List.map_cons]
      rw [show (d.enter c).call = c from rfl, enter_unpaused h]
      exact congrArg (List.cons _) hrest

/-- They leave what the whole run leaves. -/
theorem after_awake (d : Desk η) (calls : List (Call η)) :
    d.unpaused.after ((awake (d.run calls)).map Entry.call) = (d.after calls).unpaused := by
  induction calls generalizing d with
  | nil => rfl
  | cons c rest ih =>
    have hrest := ih (d.enter c).desk
    by_cases h : (d.enter c).isPause = true
    · rw [unpaused_of_isPause h] at hrest
      simpa [awake, run, after, h] using hrest
    · simp only [awake, run, h, Bool.not_false, List.filter_cons_of_pos, List.map_cons, after]
      rw [show (d.enter c).call = c from rfl, enter_unpaused h]
      exact hrest

/-- Taking the pauses out of a run, and the updates that met a paused session, leaves a run of the
same interpreter: every other call gets the same reply with the same announcement and leaves the
same game, host and factory behind, and so does the whole run, with a session that differs at most
in being paused. An interpreter that is not paused has nothing to be taken out at its start. -/
theorem pauses_invisible (d : Desk η) (calls : List (Call η)) :
    d.unpaused.run ((awake (d.run calls)).map Entry.call) =
        (awake (d.run calls)).map Entry.unpaused ∧
      d.unpaused.after ((awake (d.run calls)).map Entry.call) = (d.after calls).unpaused ∧
      (d.interpreter.isPaused = false → d.unpaused = d) := by
  refine ⟨d.run_awake calls, d.after_awake calls, ?_⟩
  intro h
  exact congrArg (Desk.mk · d.services) (Interpreter.unpaused_of_running h)

/-- A message is dismissed while its session is paused: once the session goes on, it ends its
message as if there had been no pause. -/
theorem pauses_invisible_dismissed :
    let message : Command := .ofAction (.showMessage (.waiting "Hello"))
    let start : Call Stage := .startProgram ⟨[message], {}⟩ true
    let dismiss : Call Stage := .outside fun s =>
      { s with world := ⟨s.world.game, { presenter := .recording { lastHandle := 1 } }⟩ }
    let d : Desk Stage := ⟨{}, ⟨{}, ⟨{}, { presenter := .recording {} }⟩⟩⟩
    let paused := d.after
      [start, .update, .setPaused true, dismiss, .update, .setPaused false, .update]
    paused.interpreter.cursor? = some 1 ∧
      d.after [start, .update, dismiss, .update] = paused.unpaused := by
  intro message start dismiss d paused
  obtain ⟨-, hafter, hsame⟩ := pauses_invisible d
    [start, .update, .setPaused true, dismiss, .update, .setPaused false, .update]
  rw [hsame rfl] at hafter
  exact ⟨by decide +kernel, hafter⟩

end Desk

end EventScript
