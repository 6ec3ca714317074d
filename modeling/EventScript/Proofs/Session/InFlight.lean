import EventScript.Host.Stage
import EventScript.Proofs.Factory.Instances
import EventScript.Proofs.Session.Reach

/-!
# The command in flight

In every state of a session at most one command is under way: the one at the cursor, while
the session holds the token that the command left. `Session.Tidy` is the invariant: commands are
ready for the token of the session or at rest. Their ticks keep this, because a command that has
ended is reset before the cursor goes on, and because a disabled command never leaves a token.
-/

namespace EventScript

namespace Program

/-- Every command of the program is at rest. -/
def AtRest (p : Program) : Prop := ∀ i c, p.get? i = some c → c.AtRest

/-- A program is at rest when all of its commands are. -/
theorem atRest_of_mem {p : Program} (h : ∀ c ∈ p.commands, c.AtRest) : p.AtRest :=
  fun _ c hc => h c (List.mem_of_getElem? hc)

end Program

namespace Session

/-- At most the command at the cursor is under way, and it is ready for the next tick. -/
structure Tidy (s : Session) : Prop where
  elsewhere : ∀ i c, i ≠ s.cursor → s.program.get? i = some c → c.AtRest
  here : ∀ c, s.program.get? s.cursor = some c → c.Ready s.pending
  left : s.pending.isSome → ∃ c, s.program.get? s.cursor = some c

/-- The ticks of a command keep it ready. -/
theorem ready_kept : KeptByTicks Command.Ready where
  disabled {c pending} hready hd := by
    cases pending with
    | none => rfl
    | some token =>
      have he := hready.enabled
      rw [hd] at he
      cases he
  suspended hready he hr := ready_of_suspended hready he hr
  reset _ := Command.atRest_reset _

namespace Tidy

variable {s : Session}

/-- The number of ticks plays no part. -/
theorem clock (h : s.Tidy) (n : Nat) : Tidy { s with ticks := n } :=
  ⟨h.elsewhere, h.here, h.left⟩

/-- A disabled command leaves no token. -/
theorem pending_of_disabled (h : s.Tidy) {c : Command}
    (hc : s.program.get? s.cursor = some c) (hd : c.enabled = false) : s.pending = none :=
  ready_kept.disabled (h.here c hc) hd

/-- Every session that a run of a program at rest reaches is tidy. -/
theorem of_reaches {i j : Interpreter} {p : Program} {notify : Bool} (hp : p.AtRest)
    (h : (i.begin p notify).Reaches j) (hs : j.session = some s) : s.Tidy := by
  obtain ⟨helsewhere, hhere, hleft⟩ := InOrder.of_reaches ready_kept hp h hs
  exact ⟨helsewhere, hhere, hleft⟩

end Tidy

end Session

namespace Interpreter

/-- In every state of a run of a program at rest, as a factory builds them, every command off
the cursor is at rest; the command at the cursor executes just where a token is pending and
is at rest otherwise, and a message or prompt there remembers the handle in that token. So
the call of the command that the next update makes is never refused. -/
theorem in_flight_at_cursor_only {i j : Interpreter} {p : Program} {notify : Bool} {s : Session}
    (hp : ∀ c ∈ p.commands, c.phase = .idle ∧ c.memory = .clear)
    (h : (i.begin p notify).Reaches j) (hs : j.session = some s) :
    (∀ k c, s.program.get? k = some c → k ≠ s.cursor → c.phase = .idle ∧ c.memory = .clear) ∧
    (s.pending.isSome → ∃ c, s.program.get? s.cursor = some c) ∧
    (∀ c, s.program.get? s.cursor = some c →
      (c.phase = .executing ↔ s.pending.isSome) ∧
      (s.pending = none → c.phase = .idle ∧ c.memory = .clear) ∧
      (c.kind = .showMessage ∨ c.kind = .showChoices → c.memory.handle = s.pending) ∧
      ∀ {η : Type} [Host η] (owner : Owner) (w : World η) (name : String) (phase : Phase),
        (Session.runCommand c s.pending owner w).result ≠ .error (.notRunnable name phase)) ∧
    ∀ (f : Factory) (ds : List Descriptor) (mode : Mode) (q : Program),
      (f.build ds mode).result = .ok q → ∀ c ∈ q.commands, c.phase = .idle ∧ c.memory = .clear := by
  have hrest : p.AtRest := Program.atRest_of_mem fun c hc => ⟨(hp c hc).1, (hp c hc).2⟩
  have htidy := Session.Tidy.of_reaches hrest h hs
  refine ⟨?_, htidy.left, ?_, ?_⟩
  · intro k c hc hk
    have hatRest := htidy.elsewhere k c hk hc
    exact ⟨hatRest.phase, hatRest.memory⟩
  · intro c hc
    have hready := htidy.here c hc
    refine ⟨?_, ?_, ?_, ?_⟩
    · cases hpending : s.pending with
      | none => rw [hpending] at hready; simp [hready.phase]
      | some token => rw [hpending] at hready; simp [hready.phase]
    · intro hpending
      rw [hpending] at hready
      exact ⟨hready.phase, hready.memory⟩
    · exact hready.handle_eq
    · exact fun owner w => Session.runCommand_ne_notRunnable hready owner w
  · intro f ds mode q hq c hc
    have hatRest := Factory.build_atRest hq c hc
    exact ⟨hatRest.phase, hatRest.memory⟩

/-- A message in a loop is dismissed and shown again: it waits for its second handle, and the
other commands are as they were at the start. -/
theorem in_flight_at_cursor_only_again :
    let message : Command := .ofAction (.showMessage (.waiting "Hello"))
    let p : Program := ⟨[.ofAction .loop, message, .ofAction .endLoop], {}⟩
    let shown : Nat → Services Stage := fun handle =>
      ⟨{}, ⟨{}, { presenter := .recording { lastHandle := handle } }⟩⟩
    let tick := fun (handle : Nat) (i : Interpreter) => (i.update (shown handle)).interpreter
    let j := tick 1 (tick 1 (tick 1 (tick 0 (tick 0 (Interpreter.begin {} p true)))))
    ∃ s c, j.session = some s ∧ s.pending = some 2 ∧ s.program.get? s.cursor = some c ∧
      c.phase = .executing ∧ c.memory.handle = some 2 ∧
      ∀ k c, s.program.get? k = some c → k ≠ s.cursor → c.phase = .idle ∧ c.memory = .clear := by
  intro message p shown tick j
  have hp : ∀ c ∈ p.commands, c.phase = .idle ∧ c.memory = .clear := by decide
  have hj : (Interpreter.begin {} p true).Reaches j :=
    ((((Reaches.refl.update _).update _).update _).update _).update _
  have hseen : (j.session.bind fun s => (s.program.get? s.cursor).map fun c =>
      (s.pending, c.kind)) = some (some 2, .showMessage) := by decide +kernel
  obtain ⟨s, hs, hat⟩ := Option.bind_eq_some_iff.mp hseen
  obtain ⟨c, hc, heq⟩ := Option.map_eq_some_iff.mp hat
  obtain ⟨hpending, hkind⟩ := Prod.mk.inj heq
  obtain ⟨helsewhere, -, hhere, -⟩ := in_flight_at_cursor_only hp hj hs
  obtain ⟨hphase, -, hhandle, -⟩ := hhere c hc
  rw [hpending] at hphase hhandle
  exact ⟨s, c, hs, hpending, hc, hphase.mpr rfl, hhandle (.inl hkind), helsewhere⟩

end Interpreter

end EventScript
