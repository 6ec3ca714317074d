import EventScript.Proofs.Desk.Pauses
import EventScript.Proofs.Session.Delay
import EventScript.Proofs.Structured.Watch

/-!
# Stages without a presenter

Where nothing is presented to anybody, a message is closed as soon as it is shown and a prompt is
cancelled, so no command but one that counts down needs more than a tick. The stage stays without a
presenter whatever is run on it, and updates alone, one after the other, are a run in which every
update is a tick.
-/

namespace EventScript

/-- What a tick of an action comes to where nothing is presented: still nothing is, and if the
action suspends, one is taken off the ticks that were left. -/
structure Performed.Silent (left : Nat) (p : Performed Stage) : Prop where
  presenter : p.world.host.presenter = .none
  left : ∀ token, p.result = .ok (.suspended token) → left = token + 1

namespace Action

variable {w : World Stage}

private theorem silent_countdown (hw : w.host.presenter = .none) (n : Nat) (memory : Memory) :
    Performed.Silent n ⟨.ok (countdown n), memory, w⟩ := by
  refine ⟨hw, fun token htoken => ?_⟩
  cases n with
  | zero => cases htoken
  | succ n => cases htoken; rfl

/-- A first tick. -/
theorem start_silent (a : Action) (owner : Owner) (memory : Memory)
    (hw : w.host.presenter = .none) : (a.start owner memory w).Silent a.delay := by
  obtain ⟨game, presenter, log⟩ := w
  obtain rfl : presenter = .none := hw
  cases hcounts : a.counts with
  | true =>
    rw [start_of_counts hcounts]
    refine silent_countdown ?_ a.delay memory
    cases a.effect? <;> rfl
  | false =>
    cases a with
    | showMessage p =>
      obtain ⟨speaker, text, waitForInput⟩ := p
      cases waitForInput <;> exact ⟨rfl, by rintro token ⟨⟩⟩
    | showChoices p =>
      obtain ⟨choices, resultVariable, cancelIndex⟩ := p
      cases choices <;> exact ⟨rfl, by rintro token ⟨⟩⟩
    | controlVariables p =>
      unfold start
      dsimp only
      split <;> exact ⟨rfl, by rintro token ⟨⟩⟩
    | wait | fadeScreen | shakeScreen => cases hcounts
    | _ => exact ⟨rfl, by rintro token ⟨⟩⟩

/-- A later tick. -/
theorem resume_silent (a : Action) (token : Token) (memory : Memory)
    (hw : w.host.presenter = .none) : (a.resume token memory w).Silent token := by
  obtain ⟨game, presenter, log⟩ := w
  obtain rfl : presenter = .none := hw
  cases hcounts : a.counts with
  | true =>
    rw [resume_of_counts hcounts]
    exact silent_countdown rfl token memory
  | false =>
    cases a with
    | wait | fadeScreen | shakeScreen => cases hcounts
    | _ => exact ⟨rfl, by rintro token ⟨⟩⟩

end Action

namespace Session

variable {s s' : Session} {owner : Owner} {w w' : World Stage}

/-- A tick of a command on a stage without a presenter, whatever phase the command is in. -/
theorem runCommand_silent (c : Command) (pending : Option Token) (owner : Owner)
    (hw : w.host.presenter = .none) :
    (runCommand c pending owner w).world.host.presenter = .none ∧
      ∀ token, (runCommand c pending owner w).result = .ok (.suspended token) →
        c.action.left pending = token + 1 := by
  cases pending with
  | none =>
    unfold runCommand Command.execute
    dsimp only
    split
    · have hsilent := c.action.start_silent owner c.memory hw
      exact ⟨hsilent.presenter, hsilent.left⟩
    · exact ⟨hw, by rintro token ⟨⟩⟩
  | some token =>
    unfold runCommand Command.resume
    dsimp only
    split
    · have hsilent := c.action.resume_silent token c.memory hw
      exact ⟨hsilent.presenter, hsilent.left⟩
    · exact ⟨hw, by rintro token ⟨⟩⟩

private theorem presenter_reported (s : Session) (owner : Owner) (c : Command) (ran : Ran Stage) :
    (s.reported owner c ran).host.presenter = ran.world.host.presenter := by
  unfold reported
  split <;> rfl

/-- Steps on a stage without a presenter leave it without one. -/
theorem Steps.presenter {st : Step} (hs : s.Steps owner w st s' w')
    (hw : w.host.presenter = .none) : w'.host.presenter = .none := by
  cases hs with
  | ended | skipped => exact hw
  | suspended _ _ hran =>
    subst hran
    exact (runCommand_silent _ _ _ hw).1
  | executed _ _ hran | exited _ _ hran =>
    subst hran
    rw [presenter_reported]
    exact (runCommand_silent _ _ _ hw).1
  | @faulted c ran e stack _ _ hran =>
    subst hran
    exact (presenter_reported s owner c _).trans (runCommand_silent _ _ _ hw).1

end Session

namespace Turn

/-- Only a session that is paused is reported as paused. -/
theorem report_ne_paused {η : Type} [Host η] {t : Turn η}
    (h : t.interpreter.isPaused = false) : t.report ≠ .paused := by
  have hu := t.updates
  unfold report
  generalize t.reply = reply at hu ⊢
  cases hu with
  | paused hs hp =>
    rw [Interpreter.isPaused, hs] at h
    exact absurd hp (by rw [Option.any_some] at h; rw [h]; decide)
  | inactive | limited | ended => simp [Interpreter.complete]
  | advanced _ _ _ hstep => cases hstep <;> simp

/-- Without a tick limit a turn leaves a stage without a presenter as it is. -/
theorem presenter {t : Turn Stage} (hlimit : t.interpreter.config.maxTicks = none)
    (hquiet : t.services.world.host.presenter = .none) :
    t.reply.services.world.host.presenter = .none := by
  have hu := t.updates
  generalize t.reply = reply at hu ⊢
  cases hu with
  | inactive | paused => exact hquiet
  | limited _ _ hl =>
    rw [hlimit] at hl
    cases hl
  | advanced _ _ _ hstep | ended _ _ _ hstep => exact hstep.presenter hquiet

end Turn

namespace Watch

section

variable {η : Type} [Host η]

/-- The updates that are watched, as turns. -/
def turns (w : Watch η) (n : Nat) : List (Turn η) :=
  (List.range n).map fun m => ⟨(w.after m).interpreter, (w.after m).services⟩

/-- They are a run. -/
theorem takes (w : Watch η) (n : Nat) :
    w.interpreter.Takes (w.turns n) (w.after n).interpreter := by
  induction n with
  | zero => exact .refl
  | succ n ih =>
    rw [turns, List.range_succ, List.map_append]
    exact ih.update (w.after n).services

/-- Whoever updates alone pauses nothing. -/
theorem isPaused_after {w : Watch η} (h : w.interpreter.isPaused = false) (n : Nat) :
    (w.after n).interpreter.isPaused = false := by
  induction n with
  | zero => exact h
  | succ n ih => exact Interpreter.isPaused_update ih (w.after n).services

/-- So every update is a tick. -/
theorem countP_turns {w : Watch η} (h : w.interpreter.isPaused = false) (n : Nat) :
    ((w.turns n).map Turn.report).countP TickReport.isTick = n := by
  have hticks : ∀ r ∈ (w.turns n).map Turn.report, TickReport.isTick r = true := by
    intro r hr
    obtain ⟨t, ht, rfl⟩ := List.mem_map.mp hr
    obtain ⟨m, -, rfl⟩ := List.mem_map.mp ht
    have hticked := Turn.report_ne_paused (t := ⟨(w.after m).interpreter, (w.after m).services⟩)
      (isPaused_after h m)
    cases hreport : Turn.report ⟨(w.after m).interpreter, (w.after m).services⟩ with
    | paused => exact absurd hreport hticked
    | _ => rfl
  rw [List.countP_eq_length.mpr hticks]
  simp [turns]

end

/-- A stage without a presenter stays one while it is watched. -/
theorem presenter_after {w : Watch Stage} (hlimit : w.interpreter.config.maxTicks = none)
    (hquiet : w.services.world.host.presenter = .none) (n : Nat) :
    (w.after n).services.world.host.presenter = .none := by
  induction n with
  | zero => exact hquiet
  | succ n ih =>
    have hconfig := (w.takes n).reaches.config
    exact Turn.presenter (t := ⟨(w.after n).interpreter, (w.after n).services⟩)
      (by rw [hconfig]; exact hlimit) ih

/-- So do all the turns that are watched. -/
theorem presenter_of_mem_turns {w : Watch Stage} (hlimit : w.interpreter.config.maxTicks = none)
    (hquiet : w.services.world.host.presenter = .none) {n : Nat} :
    ∀ t ∈ w.turns n, t.services.world.host.presenter = .none := by
  intro t ht
  obtain ⟨m, -, rfl⟩ := List.mem_map.mp ht
  exact presenter_after hlimit hquiet m

end Watch

end EventScript
