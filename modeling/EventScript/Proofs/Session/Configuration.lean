import EventScript.Command.Blob
import EventScript.Host.Stage
import EventScript.Proofs.Session.Reach

/-!
# Running keeps what is written

What calls do to a command stays in its phase and its memory: whatever is executed, resumed,
aborted, reset or cloned, in whichever order and world, leads to a command with the same
reset form. Resetting keeps the name, the mark and the action, so these are kept too, and
with the action its blob. A run only ever replaces a command by what one call made of it;
its programs therefore stay as they were written, and their labels stand where they stood.
-/

namespace EventScript

namespace Command

/-- Where calls of a command lead. Each call may meet a world of its own. -/
inductive Leads (c : Command) : Command → Prop
  | refl : Leads c c
  | execute {d : Command} {η : Type} [Host η] (owner : Owner) (w : World η) :
    Leads c d → Leads c (d.execute owner w).command
  | resume {d : Command} {η : Type} [Host η] (token : Token) (w : World η) :
    Leads c d → Leads c (d.resume token w).command
  | abort {d : Command} {η : Type} [Host η] (w : World η) :
    Leads c d → Leads c (d.abort w).2.1
  | reset {d : Command} : Leads c d → Leads c d.reset
  | clone {d : Command} : Leads c d → Leads c d.clone

/-- Aborting a command changes its phase and memory alone. -/
theorem reset_abort {η : Type} [Host η] (c : Command) (w : World η) :
    (c.abort w).2.1.reset = c.reset := by
  unfold abort
  split <;> rfl

/-- No calls change the reset form. -/
theorem Leads.reset_eq {c d : Command} (h : c.Leads d) : d.reset = c.reset := by
  induction h with
  | refl => rfl
  | @execute d η _ owner w _ ih => rw [d.reset_execute owner w, ih]
  | @resume d η _ token w _ ih => rw [d.reset_resume token w, ih]
  | @abort d η _ w _ ih => rw [d.reset_abort w, ih]
  | reset _ ih => exact ih
  | clone _ ih => exact ih

/-- The configuration of a command is that of another one, and both start afresh alike. -/
structure Keeps (c d : Command) : Prop where
  name : d.name = c.name
  enabled : d.enabled = c.enabled
  encoded : d.action.encode = c.action.encode
  configured : d.sameConfiguration c = true
  renewed : d.clone = c.clone

/-- The reset form holds the whole configuration. -/
theorem Keeps.of_reset_eq {c d : Command} (h : d.reset = c.reset) : c.Keeps d := by
  have hname : d.reset.name = c.reset.name := congrArg Command.name h
  have henabled := enabled_eq_of_reset_eq h
  have haction := action_eq_of_reset_eq h
  refine ⟨hname, henabled, by rw [haction], ?_, h⟩
  rw [sameConfiguration, henabled, haction, beq_self_eq_true, beq_self_eq_true, Bool.and_self]

end Command

namespace Program

/-- A program has the commands of another one, each with its configuration, and its labels
stand where such commands are. -/
structure Keeps (p q : Program) : Prop where
  size : q.size = p.size
  commands : ∀ (i : Nat) (c : Command), p.get? i = some c → ∃ d, q.get? i = some d ∧ c.Keeps d
  labels : ∀ (name : String) (i : Nat),
    q.labelIndex? name = some i ↔ (q.get? i).map Command.action = some (.label name)

/-- The written form of an accepted program holds all of it. -/
theorem Keeps.of_written_eq {p q : Program} (ha : p.Accepted) (h : q.written = p.written) :
    p.Keeps q := by
  refine ⟨size_eq_of_written_eq h, ?_, ?_⟩
  · intro i c hc
    have hreset := get?_written q i
    rw [h, get?_written, hc] at hreset
    obtain ⟨d, hd, hdc⟩ := Option.map_eq_some_iff.mp hreset.symm
    exact ⟨d, hd, .of_reset_eq hdc⟩
  · intro name i
    have hlabelled := (ha.of_written_eq h.symm).labelled name i
    rwa [actions, List.getElem?_map] at hlabelled

end Program

/-- Aborting the command in flight changes nothing written. -/
theorem Session.written_abortInFlight {η : Type} [Host η] (s : Session) (w : World η) :
    (s.abortInFlight w).1.program.written = s.program.written := by
  unfold abortInFlight
  split
  · rfl
  · next c hc => exact Program.written_set hc (c.reset_abort w)

namespace Interpreter

/-- Every program that a run shows is written as the one it began with. -/
theorem Reaches.written {i j : Interpreter} {p : Program} {notify : Bool}
    (h : (i.begin p notify).Reaches j) {s : Session} (hs : j.session = some s) :
    s.program.written = p.written :=
  h.session_invariant (P := fun s => s.program.written = p.written) rfl (fun _ _ h => h)
    (fun _ _ h => h) (fun hstep h => hstep.written.trans h) hs

/-- No calls change the name, the mark or the blob of a command, and no run of an accepted
program changes them for any of its commands: not while it goes on, not by the step that ends
it and not by being cut short. Throughout, its labels stand where such commands are. -/
theorem configuration_kept :
    (∀ c d : Command, c.Leads d → c.Keeps d) ∧
    ∀ (i j : Interpreter) (commands : List Command) (p : Program) (notify : Bool) (s : Session),
      Program.ofCommands commands = .ok p → (i.begin p notify).Reaches j →
      j.session = some s → p.commands = commands ∧ p.Keeps s.program ∧
        ∀ {η : Type} [Host η] (owner : Owner) (w : World η),
          p.Keeps (s.step owner w).session.program ∧ p.Keeps (s.abortInFlight w).1.program := by
  refine ⟨fun c d h => .of_reset_eq h.reset_eq, ?_⟩
  intro i j commands p notify s hp h hs
  obtain ⟨hcommands, ha⟩ := Program.accepted_of_ofCommands hp
  have hwritten := h.written hs
  refine ⟨hcommands, .of_written_eq ha hwritten, ?_⟩
  intro η _ owner w
  have hstep := (s.steps_step owner w).written
  exact ⟨.of_written_eq ha (hstep.trans hwritten),
    .of_written_eq ha ((s.written_abortInFlight w).trans hwritten)⟩

/-- A prompt that was opened and withdrawn, and one that a run has open in a loop. -/
theorem configuration_kept_prompt :
    let prompt : Action := .showChoices { choices := ["a", "b"], resultVariable := "v" }
    let ask : Command := (Command.ofAction prompt).rename "ask"
    let world : World Stage := ⟨{}, { presenter := .recording {} }⟩
    let opened := (ask.execute .global world).command
    let closed := (opened.abort world).2.1
    let commands : List Command := [.ofAction .loop, .ofAction (.label "here"), ask,
      .ofAction .endLoop]
    let p : Program := ⟨commands, ⟨[("here", 1)]⟩⟩
    let services : Services Stage := ⟨{}, world⟩
    let tick := fun i : Interpreter => (i.update services).interpreter
    let j := tick (tick (tick (Interpreter.begin {} p true)))
    opened ≠ ask ∧ closed ≠ ask ∧ closed.name = "ask" ∧ ask.Keeps closed ∧
      ∃ s, j.session = some s ∧ s.program.get? 2 ≠ p.get? 2 ∧ p.Keeps s.program := by
  intro prompt ask world opened closed commands p services tick j
  have hp : Program.ofCommands commands = .ok p := rfl
  have hj : (Interpreter.begin {} p true).Reaches j :=
    ((Reaches.refl.update services).update services).update services
  have hkeeps := configuration_kept.1 ask closed ((Command.Leads.refl.execute _ _).abort _)
  have hrun := configuration_kept.2 {} j commands p true _ hp hj rfl
  exact ⟨by decide, by decide, hkeeps.name, hkeeps, _, rfl, by decide, hrun.2.1⟩

end Interpreter

end EventScript
