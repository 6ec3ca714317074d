import EventScript.Host.Stage
import EventScript.Proofs.Command.Failing
import EventScript.Proofs.Session.Reach

/-!
# Failures do not stop a session

A command that fails counts as completed and the session goes on with the next one. For that
the command must be in the phase that the token of the session says, else the call would be
refused. `Command.InPhase` is this much of what a run keeps; it speaks of phases alone, so
nothing is asked of what the commands remember when the session starts.
-/

namespace EventScript

namespace Session

/-- The ticks of a command keep it in phase. -/
theorem inPhase_kept : KeptByTicks Command.InPhase where
  disabled {c pending} h hd := by
    rw [← Option.not_isSome_iff_eq_none]
    intro hsome
    have he := h.enabled hsome
    rw [hd] at he
    cases he
  suspended {_ _ c pending owner w _} _ he hr := by
    have henabled := Command.enabled_eq_of_reset_eq (reset_runCommand c pending owner w)
    exact ⟨phase_of_suspended hr, fun _ => by rw [henabled, he]⟩
  reset _ := ⟨rfl, fun hsome => by cases hsome⟩

/-- The step of a command that fails: it is reported, and the session goes on with the next
command. -/
theorem Steps.of_failed {η : Type} [Host η] {s : Session} {owner : Owner} {w : World η}
    {c : Command} {e : CommandError} (h : c.InPhase s.pending)
    (hc : s.program.get? s.cursor = some c) (he : c.enabled = true)
    (hr : (runCommand c s.pending owner w).result = .error e) :
    s.Steps owner w (.report (.executed s.cursor c.kind (s.cursor + 1)))
      (s.settled c s.stack (s.cursor + 1))
      ((runCommand c s.pending owner w).world.report (.commandFailed owner s.cursor c.name e)) := by
  have hreset := reset_runCommand c s.pending owner w
  have hmove : s.program.resolve (runCommand c s.pending owner w).command.motion s.cursor s.stack =
      (.ok .advance, s.stack) := by
    rw [(runCommand_failed h hr).2]
    rfl
  have hstep := Steps.executed hc he rfl (by rw [hr]; simp) hmove rfl
  rw [reported, hr] at hstep
  simp only [settled, hreset, kind_runCommand] at hstep ⊢
  exact hstep

end Session

namespace Interpreter

/-- The next update of the interpreter runs a command of its session for one tick. -/
structure Runs (i : Interpreter) (s : Session) (c : Command) : Prop where
  session : i.session = some s
  unpaused : s.paused = false
  withinLimit : i.overLimit (s.ticks + 1) = none
  atCursor : s.program.get? s.cursor = some c
  enabled : c.enabled = true

/-- A failing command does no harm. No call that fails has changed the game, whatever the
command and its phase. And in every state of a run of an idle program, an update whose command
fails goes on with the next command: the control stack is as it was, no token is left, the
command is idle again without memory, and it is counted once. -/
theorem failed_command_passed :
    (∀ {η : Type} [Host η] (c : Command) (owner : Owner) (w : World η) (e : CommandError),
      ((c.execute owner w).result = .error e → (c.execute owner w).world.game = w.game) ∧
      ∀ token : Token, (c.resume token w).result = .error e →
        (c.resume token w).world.game = w.game) ∧
    ∀ (i j : Interpreter) (p : Program) (notify : Bool) (s : Session) (c : Command),
      (∀ d ∈ p.commands, d.phase = .idle) → (i.begin p notify).Reaches j → j.Runs s c →
      ∀ {η : Type} [Host η] (services : Services η) (e : CommandError),
        (Session.runCommand c s.pending j.owner services.world).result = .error e →
        (j.update services).result = .executed s.cursor c.kind (s.cursor + 1) ∧
        (j.update services).services.world.game = services.world.game ∧
        ∃ s', (j.update services).interpreter.session = some s' ∧ s'.cursor = s.cursor + 1 ∧
          s'.stack = s.stack ∧ s'.pending = none ∧ s'.executed = s.executed + 1 ∧
          s'.program = s.program.set s.cursor c.reset ∧
          ∃ d, s'.program.get? s.cursor = some d ∧ d.phase = .idle ∧ d.memory = .clear := by
  refine ⟨?_, ?_⟩
  · intro η _ c owner w e
    exact ⟨Command.game_execute_failed, fun _ => Command.game_resume_failed⟩
  · intro i j p notify s c hp h hruns η _ services e hr
    obtain ⟨hs, hpaused, hlimit, hc, henabled⟩ := hruns
    have hinPhase : c.InPhase s.pending := by
      have hrest : ∀ k d, p.get? k = some d → d.InPhase none := fun _ d hd =>
        ⟨hp d (List.mem_of_getElem? hd), fun hsome => by cases hsome⟩
      exact (Session.InOrder.of_reaches Session.inPhase_kept hrest h hs).here c hc
    have hstep := Session.Steps.of_failed (s := { s with ticks := s.ticks + 1 }) hinPhase hc
      henabled hr
    have hgame := (Session.runCommand_failed hinPhase hr).1
    rw [update_of_report hs hpaused hlimit hstep]
    refine ⟨rfl, hgame, _, rfl, rfl, rfl, rfl, rfl, rfl, c.reset, ?_, rfl, rfl⟩
    exact Program.get?_set_self hc c.reset

/-- A prompt in a loop waits for a tick and is then answered with a choice that it does not
offer. -/
theorem failed_command_passed_prompt :
    let prompt : Command :=
      .ofAction (.showChoices { choices := ["Yes", "No"], resultVariable := "answer" })
    let p : Program := ⟨[.ofAction .loop, prompt, .ofAction .endLoop], {}⟩
    let host : Recording := { lastHandle := 1, pendingChoices := [1], answers := [.selected 5] }
    let shown : Services Stage := ⟨{}, ⟨{}, { presenter := .recording {} }⟩⟩
    let answered : Services Stage := ⟨{}, ⟨{}, { presenter := .recording host }⟩⟩
    let tick := fun i : Interpreter => (i.update shown).interpreter
    let j := tick (tick (Interpreter.begin {} p true))
    ∃ s c, j.Runs s c ∧ s.pending = some 1 ∧ s.stack = [0] ∧ s.executed = 1 ∧
      (Session.runCommand c s.pending j.owner answered.world).result =
        .error (.noSuchChoice 5 2) ∧
      (j.update answered).result = .executed 1 .showChoices 2 ∧
      ∃ s', (j.update answered).interpreter.session = some s' ∧ s'.stack = [0] ∧
        s'.pending = none ∧ s'.executed = 2 := by
  intro prompt p host shown answered tick j
  have hp : ∀ d ∈ p.commands, d.phase = .idle := by decide
  have hj : (Interpreter.begin {} p true).Reaches j := (Reaches.refl.update shown).update shown
  obtain ⟨s, c, hruns, hpending, hstack, hexecuted, hcursor, hkind, hfails⟩ :
      ∃ s c, j.Runs s c ∧ s.pending = some 1 ∧ s.stack = [0] ∧ s.executed = 1 ∧ s.cursor = 1 ∧
        c.kind = .showChoices ∧
        (Session.runCommand c s.pending j.owner answered.world).result =
          .error (.noSuchChoice 5 2) :=
    ⟨_, _, ⟨rfl, rfl, rfl, rfl, rfl⟩, rfl, rfl, rfl, rfl, rfl, rfl⟩
  obtain ⟨hresult, -, s', hs', -, hstack', hpending', hexecuted', -⟩ :=
    failed_command_passed.2 {} j p true s c hp hj hruns answered _ hfails
  rw [hcursor, hkind] at hresult
  rw [hstack] at hstack'
  rw [hexecuted] at hexecuted'
  exact ⟨s, c, hruns, hpending, hstack, hexecuted, hfails, hresult, s', hs', hstack', hpending',
    hexecuted'⟩

end Interpreter

end EventScript
