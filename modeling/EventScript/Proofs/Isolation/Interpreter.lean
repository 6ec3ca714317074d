import EventScript.Proofs.Isolation.Command
import EventScript.Proofs.Session.Reach

/-!
# Interpreters that run in step

What a tick of a command keeps in step, a step of a session and an update of an interpreter keep in
step: on plain stages whose games agree on what the program mentions, the replies are equal and
leave equal interpreters. A stop does not touch a plain world.
-/

namespace EventScript

/-- Two steps came to the same and moved the games in step. -/
structure Stepped.InStep (cells : List Cell) (w w' : World Stage) (after after' : Stepped Stage) :
    Prop where
  step : after.step = after'.step
  session : after.session = after'.session
  world : World.InStep cells w w' after.world after'.world

/-- Two replies are the same, leave the same interpreter, and moved the games in step. -/
structure Reply.InStep {α : Type} (cells : List Cell) (w w' : World Stage)
    (r r' : Reply α Stage) : Prop where
  result : r.result = r'.result
  announced : r.announced = r'.announced
  interpreter : r.interpreter = r'.interpreter
  world : World.InStep cells w w' r.services.world r'.services.world

variable {w w' : World Stage} {owner : Owner}

namespace Session

/-- A command runs in step from its start or its token. -/
theorem runCommand_inStep {c : Command} (h : w.Agree (c.action.mentions owner).footprint w')
    (pending : Option Token) :
    Ran.InStep (c.action.mentions owner).writes w w' (runCommand c pending owner w)
      (runCommand c pending owner w') := by
  cases pending with
  | none => exact Command.execute_inStep h
  | some token => exact c.resume_inStep owner h.left h.right token

/-- A move is made in step. -/
theorem settle_inStep {cells : List Cell} {v v' : World Stage} (h : World.InStep cells w w' v v')
    (s : Session) (owner : Owner) (c : Command) :
    Stepped.InStep cells w w' (s.settle owner c v) (s.settle owner c v') := by
  simp only [settle]
  rcases s.program.resolve c.motion s.cursor s.stack with ⟨resolved, stack⟩
  cases resolved with
  | error e => exact ⟨rfl, rfl, h.report _ _⟩
  | ok r => cases r <;> exact ⟨rfl, rfl, h⟩

/-- A step of a session. -/
theorem step_inStep {s : Session} (h : w.Agree (s.program.mentions owner).footprint w') :
    Stepped.InStep (s.program.mentions owner).writes w w' (s.step owner w) (s.step owner w') := by
  unfold step
  cases hc : s.program.get? s.cursor with
  | none => exact ⟨rfl, rfl, .refl _ h.left h.right⟩
  | some c =>
    have hm := Program.mentions_of_get? hc owner
    obtain ⟨hresult, hcommand, hworld⟩ :=
      runCommand_inStep (h.mono (Mentions.footprint_mono hm)) s.pending
    have hworld := hworld.mono (Mentions.writes_mono hm)
    dsimp only
    split
    · rw [hresult, hcommand]
      split
      · exact ⟨rfl, rfl, hworld⟩
      · exact settle_inStep hworld s owner _
      · exact settle_inStep (hworld.report _ _) s owner _
    · exact ⟨rfl, rfl, .refl _ h.left h.right⟩

/-- Giving up the command in flight does not touch a plain world. -/
theorem abortInFlight_plain (s : Session) (hw : w.Plain) : (s.abortInFlight w).2 = w := by
  unfold abortInFlight
  split
  · rfl
  · next c _ => exact c.abort_plain hw

end Session

namespace Interpreter

/-- What the program of the session mentions, if there is one. -/
def mentions (i : Interpreter) : Mentions :=
  match i.session with
  | some s => s.program.mentions i.owner
  | none => []

/-- An interpreter mentions what the program of its session mentions. -/
theorem mentions_of_session {i : Interpreter} {s : Session} (h : i.session = some s) :
    i.mentions = s.program.mentions i.owner := by
  rw [mentions, h]

/-- A session is cut short in step, with a diagnostic. -/
theorem complete_aborted_inStep (i : Interpreter) (session : Session) (d : Diagnostic)
    (reason : CompletionReason) {s s' : Services Stage} (h : s.world.Plain) (h' : s'.world.Plain)
    (cells : List Cell) :
    let aborted := session.abortInFlight (s.world.report d)
    let aborted' := session.abortInFlight (s'.world.report d)
    Reply.InStep cells s.world s'.world
      (i.complete aborted.1 reason { s with world := aborted.2 })
      (i.complete aborted'.1 reason { s' with world := aborted'.2 }) := by
  intro aborted aborted'
  have hcompletion :
      aborted.1.completion i.owner reason = aborted'.1.completion i.owner reason := by
    rw [session.abortInFlight_eq, session.abortInFlight_eq (s'.world.report d)]
    rfl
  have hnotify : aborted.1.notify = aborted'.1.notify := by
    rw [session.abortInFlight_eq, session.abortInFlight_eq (s'.world.report d)]
  have hworld := session.abortInFlight_plain (h.report d)
  have hworld' := session.abortInFlight_plain (h'.report d)
  unfold complete
  rw [hcompletion, hnotify]
  refine ⟨rfl, rfl, rfl, ?_⟩
  dsimp only [Services.release]
  rw [hworld, hworld']
  exact (World.InStep.refl cells h h').report d d

/-- An update of an interpreter. -/
theorem update_inStep {i : Interpreter} {s s' : Services Stage}
    (h : s.world.Agree i.mentions.footprint s'.world) :
    Reply.InStep i.mentions.writes s.world s'.world (i.update s) (i.update s') := by
  have hsilent := World.InStep.refl i.mentions.writes h.left h.right
  unfold update
  cases hs : i.session with
  | none => exact ⟨rfl, rfl, rfl, hsilent⟩
  | some session =>
    dsimp only
    split
    · exact ⟨rfl, rfl, rfl, hsilent⟩
    · cases i.overLimit (session.ticks + 1) with
      | some limit =>
        exact i.complete_aborted_inStep { session with ticks := session.ticks + 1 } _ _ h.left
          h.right _
      | none =>
        rw [mentions_of_session hs] at h ⊢
        obtain ⟨hstep, hsession, hworld⟩ :=
          Session.step_inStep (s := { session with ticks := session.ticks + 1 }) h
        dsimp only
        rw [hstep, hsession]
        split
        · exact ⟨rfl, rfl, rfl, hworld⟩
        · exact ⟨rfl, rfl, rfl, hworld⟩

/-- An update adds nothing to what is mentioned. -/
theorem mentions_update {η : Type} [Host η] (i : Interpreter) (services : Services η) :
    (i.update services).interpreter.mentions ⊆ i.mentions := by
  have hu := updates_update i services
  generalize i.update services = reply at hu ⊢
  cases hu with
  | inactive | paused => exact List.Subset.refl _
  | limited | ended => exact List.nil_subset _
  | advanced hs _ _ hstep =>
    have hsame := Program.mentions_eq_of_written_eq hstep.written i.owner
    rw [mentions_of_session hs, ← hsame]
    exact List.Subset.refl _

/-- A pause changes nothing that is mentioned. -/
theorem mentions_setPaused (i : Interpreter) (paused : Bool) :
    (i.setPaused paused).mentions = i.mentions := by
  unfold mentions setPaused
  cases i.session <;> rfl

/-- A stop does not touch a plain world. -/
theorem stop_plain (i : Interpreter) {services : Services Stage} (hw : services.world.Plain) :
    (i.stop services).services.world = services.world := by
  unfold stop
  cases i.session with
  | none => rfl
  | some s => exact s.abortInFlight_plain hw

end Interpreter

end EventScript
