import EventScript.Proofs.Program.LoopControl
import EventScript.Proofs.Session.ControlStack

/-!
# Loop control in a run

What a break, the end of a loop and a jump do to the cursor and the control stack of a
session that a run reaches. Breaks and loop ends find the right loop although frames of
loops that have ended may lie on the stack. Such a frame is one of a loop whose end is
disabled (`Session.EndsDisabled`), and it outlives every discard while a loop above it still
runs around the position in question.
-/

namespace EventScript

open EventScript.Nesting EventScript.Flow

/-- An action that consults the control stack never waits. -/
theorem Program.result_ne_suspended {η : Type} [Host η] {p : Program} {cursor position : Nat}
    {c : Command} (hq : p.consulted? cursor c.action = some position) (pending : Option Token)
    (owner : Owner) (w : World η) (token : Token) :
    (Session.runCommand c pending owner w).result ≠ .ok (.suspended token) := by
  have settled (done : Performed η) (hd : done.result = .ok .completed) :
      (c.settle done).result ≠ .ok (.suspended token) := by
    rw [Command.settle, hd]
    simp
  cases pending with
  | none =>
    rw [Session.runCommand, Command.execute]
    split
    · apply settled
      cases hact : c.action with
      | breakLoop | endLoop | jumpToLabel => rfl
      | _ => rw [hact] at hq; cases hq
    · simp [Command.refuse]
  | some token =>
    rw [Session.runCommand, Command.resume]
    split
    · apply settled
      cases hact : c.action with
      | breakLoop | endLoop | jumpToLabel => rfl
      | _ => rw [hact] at hq; cases hq
    · simp [Command.refuse]

namespace Session

/-- Whoever owns the session and whatever the world, its next step completes the command at
the cursor and leads to another cursor and stack. -/
def Goes (s : Session) (next : Nat) (stack : ControlStack) : Prop :=
  ∀ {η : Type} [Host η] (owner : Owner) (w : World η), ∃ kind,
    (s.step owner w).step = .report (.executed s.cursor kind next) ∧
      (s.step owner w).session.cursor = next ∧ (s.step owner w).session.stack = stack

/-- A command that consults the stack makes the move that its action wants. -/
theorem goes_of_resolve {s : Session} {c : Command} {position : Nat}
    (hc : s.program.get? s.cursor = some c) (he : c.enabled = true)
    (hq : s.program.consulted? s.cursor c.action = some position) {r : Resolution}
    {stack : ControlStack} {next : Nat}
    (hr : s.program.resolve (c.action.motion .clear) s.cursor s.stack = (.ok r, stack))
    (hn : r.target s.cursor = some next) : s.Goes next stack := by
  intro η _ owner w
  have haction := Command.action_eq_of_reset_eq (reset_runCommand c s.pending owner w)
  have hmotion : (runCommand c s.pending owner w).command.motion = c.action.motion .clear := by
    rw [Command.motion, haction]
    cases hact : c.action with
    | breakLoop | endLoop | jumpToLabel => rfl
    | _ => rw [hact] at hq; cases hq
  rw [← hmotion] at hr
  rw [(Steps.executed hc he rfl (Program.result_ne_suspended hq _ owner w) hr hn).step_eq]
  exact ⟨_, rfl, rfl, rfl⟩

namespace Sound

variable {p : Program} {s : Session}

/-- A session that runs an accepted program has one. -/
theorem accepted (h : Sound p s) (ha : p.Accepted) : s.program.Accepted :=
  ha.of_written_eq h.written.symm

/-- A session has the kinds of the program that it began with. -/
theorem kinds (h : Sound p s) : s.program.kinds = p.kinds :=
  Program.kinds_eq_of_written_eq h.written

/-- Its frames fit its own text. -/
theorem frames_program (h : Sound p s) : Frames s.program.kinds s.cursor s.stack := by
  rw [h.kinds]
  exact h.frames

/-- So it consults the stack at the same positions. -/
theorem consulted? (h : Sound p s) (cursor : Nat) (a : Action) :
    s.program.consulted? cursor a = p.consulted? cursor a := by
  cases a with
  | jumpToLabel label =>
    exact congrArg (fun labels => labels.find? label) (Program.labels_eq_of_written_eq h.written)
  | _ => rfl

end Sound

section

variable {s : Session} {c : Command}

/-- The end of a loop goes back behind the opener just where the loop has a frame, which is on
top then. -/
theorem endLoop_goes (ha : s.program.Accepted) (hc : s.program.get? s.cursor = some c)
    (he : c.enabled = true) (hf : Frames s.program.kinds s.cursor s.stack)
    (hact : c.action = .endLoop) :
    ∃ start next stack, LoopBlock s.program.kinds start (s.cursor + 1) ∧ s.Goes next stack ∧
      (next = start + 1 ↔ start ∈ s.stack) ∧ (start ∈ s.stack → stack.head? = some start) ∧
      (start ∉ s.stack → next = s.cursor + 1) := by
  have hq : s.program.consulted? s.cursor c.action = some s.cursor := by rw [hact]; rfl
  obtain ⟨start, hblock, hcases⟩ := Program.resolve_endLoop ha hc hact hf
  rw [← show c.action.motion .clear = .endLoop by rw [hact]; rfl] at hcases
  rcases hcases with ⟨above, rest, hstack, hr⟩ | ⟨hout, hr⟩
  · have hm : start ∈ s.stack := by rw [hstack]; simp
    refine ⟨start, start + 1, start :: rest, hblock, goes_of_resolve hc he hq hr rfl, ?_⟩
    exact ⟨by simp [hm], fun _ => rfl, fun hout => absurd hm hout⟩
  · have hlo := hblock.start_add_two_le
    refine ⟨start, s.cursor + 1, _, hblock, goes_of_resolve hc he hq hr rfl, ?_⟩
    exact ⟨⟨fun heq => by omega, fun hm => absurd hm hout⟩, fun hm => absurd hm hout, fun _ => rfl⟩

/-- A break leaves the innermost loop around it among those with frames, or else the innermost
of the text. -/
theorem breakLoop_goes (ha : s.program.Accepted) (hc : s.program.get? s.cursor = some c)
    (he : c.enabled = true) (hf : Frames s.program.kinds s.cursor s.stack)
    (hact : c.action = .breakLoop) :
    ∃ next stack, s.Goes next stack ∧
      ((∃ f ∈ s.stack, ∃ exit, LoopAround s.program.kinds s.cursor f exit) →
        ∃ start above, Innermost s.program.kinds (· ∈ s.stack) s.cursor start next ∧
          s.stack = above ++ start :: stack) ∧
      ((∀ f ∈ s.stack, ∀ exit, ¬ LoopAround s.program.kinds s.cursor f exit) →
        stack = [] ∧ ∃ start, Innermost s.program.kinds (fun _ => True) s.cursor start next) := by
  have hq : s.program.consulted? s.cursor c.action = some s.cursor := by rw [hact]; rfl
  have hcases := Program.resolve_breakLoop ha hc hact hf
  rw [← show c.action.motion .clear = .breakLoop by rw [hact]; rfl] at hcases
  rcases hcases with ⟨start, exit, above, rest, hi, hstack, hr⟩ | ⟨hnone, start, exit, hi, hr⟩
  · refine ⟨exit, rest, goes_of_resolve hc he hq hr rfl, ?_, ?_⟩
    · exact fun _ => ⟨start, above, hi, hstack⟩
    · exact fun hnone => absurd hi.around (hnone start hi.chosen exit)
  · refine ⟨exit, [], goes_of_resolve hc he hq hr rfl, ?_, fun _ => ⟨rfl, start, hi⟩⟩
    rintro ⟨f, hf, exit', hin⟩
    exact absurd hin (hnone f hf exit')

/-- A jump goes behind its label and drops no frame of a loop around the label. -/
theorem jump_goes (ha : s.program.Accepted) (hc : s.program.get? s.cursor = some c)
    (he : c.enabled = true) (hf : Frames s.program.kinds s.cursor s.stack) {label : String}
    (hact : c.action = .jumpToLabel label) :
    ∃ index stack, s.program.actions[index]? = some (.label label) ∧
      s.Goes (index + 1) stack ∧
      ∀ f ∈ s.stack, ∀ exit, LoopAround s.program.kinds index f exit → f ∈ stack := by
  obtain ⟨index, hindex, hr⟩ := Program.resolve_jump ha hc hact hf
  have hq : s.program.consulted? s.cursor c.action = some index := by
    rw [hact]
    exact (ha.labelled label index).mpr hindex
  rw [← show c.action.motion .clear = .jump label by rw [hact]; rfl] at hr
  refine ⟨index, _, hindex, goes_of_resolve hc he hq hr rfl, fun f hm exit hin => ?_⟩
  exact (mem_enclosing_iff _ _ hf.descending).mpr
    ⟨hm, f, hm, Nat.le_refl f, (encloses_of_block hin.block).mpr hin⟩

end

/-- A frame whose loop ends at or before the cursor is one of a loop whose end is disabled. -/
def EndsDisabled (p : Program) (s : Session) : Prop :=
  ∀ f ∈ s.stack, ∀ exit, LoopBlock p.kinds f exit → exit ≤ s.cursor →
    ∃ c, p.get? (exit - 1) = some c ∧ c.enabled = false

/-- A loop with a frame is left in one way alone that keeps the frame: its end is disabled and
stepped over. -/
theorem EndsDisabled.step {η : Type} [Host η] {p : Program} {s s' : Session} {owner : Owner}
    {w w' : World η} {r : TickReport} (ha : p.Accepted) (hsound : Sound p s)
    (hs : s.Steps owner w (.report r) s' w') (h : EndsDisabled p s) : EndsDisabled p s' := by
  intro f hf exit hblock hle
  cases hs with
  | @skipped c hc hd =>
    rcases Nat.lt_or_ge s.cursor exit with hlt | hge
    · obtain rfl : exit = s.cursor + 1 := Nat.le_antisymm hle hlt
      obtain ⟨d, hget, hreset⟩ := hsound.get?_eq hc
      exact ⟨d, hget, by rw [Command.enabled_eq_of_reset_eq hreset, hd]⟩
    · exact h f hf exit hblock hge
  | suspended => exact h f hf exit hblock hle
  | executed hc he hran _ hm hn =>
    subst hran
    rw [Command.motion, Command.action_eq_of_reset_eq (reset_runCommand ..)] at hm
    have hstays := Program.resolve_stays (hsound.accepted ha) hc hsound.frames_program hm hn hf
    rw [Program.Stays, hsound.kinds] at hstays
    rcases hstays exit hblock with hlt | ⟨hold, hge⟩
    · exact absurd hle (Nat.not_le_of_lt hlt)
    · exact h f hold exit hblock hge

/-- In every session that a run of an accepted program reaches, frames of loops that have
ended are of loops whose ends are disabled. -/
theorem EndsDisabled.of_reaches {i j : Interpreter} {p : Program} {notify : Bool} {s : Session}
    (ha : p.Accepted) (h : (i.begin p notify).Reaches j) (hs : j.session = some s) :
    EndsDisabled p s := by
  have hboth : Sound p s ∧ EndsDisabled p s := by
    apply h.session_invariant (P := fun s => Sound p s ∧ EndsDisabled p s) _ _ _ _ hs
    · exact ⟨Sound.start p notify, by simp [EndsDisabled, Session.start]⟩
    · exact fun s n h => ⟨h.1.ticks n, h.2⟩
    · exact fun s b h => ⟨h.1.paused b, h.2⟩
    · exact fun hstep h => ⟨h.1.step ha hstep, h.2.step ha h.1 hstep⟩
  exact hboth.2

end Session

namespace Interpreter

/-- Wherever a run of an accepted program stands at an enabled command that consults the stack,
that command has one target. The end of a loop goes back behind the opener just where the loop
has a frame, which is on top then, and on to the next command otherwise. A break leaves the
innermost loop around it among those with frames, and keeps exactly the frames below; where
none of these is around it, it leaves the innermost loop of the text, and the stack is empty.
A jump goes behind its label and drops no frame of a loop around the label. -/
theorem loop_control_targets {i j : Interpreter} {commands : List Command} {p : Program}
    {notify : Bool} {s : Session} {c : Command} (hp : Program.ofCommands commands = .ok p)
    (h : (i.begin p notify).Reaches j) (hs : j.session = some s)
    (hc : s.program.get? s.cursor = some c) (he : c.enabled = true) :
    (c.action = .endLoop → ∃ start next stack,
      LoopBlock (commands.map Command.kind) start (s.cursor + 1) ∧ s.Goes next stack ∧
      (next = start + 1 ↔ start ∈ s.stack) ∧ (start ∈ s.stack → stack.head? = some start) ∧
      (start ∉ s.stack → next = s.cursor + 1)) ∧
    (c.action = .breakLoop → ∃ next stack, s.Goes next stack ∧
      ((∃ f ∈ s.stack, ∃ exit, LoopAround (commands.map Command.kind) s.cursor f exit) →
        ∃ start above, Innermost (commands.map Command.kind) (· ∈ s.stack) s.cursor start next ∧
          s.stack = above ++ start :: stack) ∧
      ((∀ f ∈ s.stack, ∀ exit, ¬ LoopAround (commands.map Command.kind) s.cursor f exit) →
        stack = [] ∧ ∃ start,
          Innermost (commands.map Command.kind) (fun _ => True) s.cursor start next)) ∧
    ∀ label, c.action = .jumpToLabel label → ∃ index stack,
      (commands.map Command.action)[index]? = some (.label label) ∧ s.Goes (index + 1) stack ∧
      ∀ f ∈ s.stack, ∀ exit, LoopAround (commands.map Command.kind) index f exit → f ∈ stack := by
  obtain ⟨rfl, ha⟩ := Program.accepted_of_ofCommands hp
  have hsound := Session.Sound.of_reaches ha h hs
  have haccepted := hsound.accepted ha
  have hframes := hsound.frames_program
  have hkinds : p.commands.map Command.kind = s.program.kinds := hsound.kinds.symm
  have hactions : p.commands.map Command.action = s.program.actions :=
    (Program.actions_eq_of_written_eq hsound.written).symm
  rw [hkinds, hactions]
  exact ⟨Session.endLoop_goes haccepted hc he hframes,
    Session.breakLoop_goes haccepted hc he hframes,
    fun label => Session.jump_goes haccepted hc he hframes⟩

/-- Above the frame of a loop lies that of an inner one whose end is disabled: the end of the
loop finds its own frame and goes back. -/
theorem loop_control_targets_stale :
    let loop : Command := .ofAction .loop
    let stop : Command := .ofAction .endLoop
    let commands := [loop, loop, stop.disable, stop]
    let services : Services Stage := ⟨{}, ⟨{}, {}⟩⟩
    let tick := fun i : Interpreter => (i.update services).interpreter
    let j := tick (tick (tick (Interpreter.begin {} ⟨commands, {}⟩ true)))
    ∃ s, j.session = some s ∧ s.cursor = 3 ∧ s.stack = [1, 0] ∧ ∃ stack, s.Goes 1 stack ∧
      stack.head? = some 0 := by
  intro loop stop commands services tick j
  have hp : Program.ofCommands commands = .ok ⟨commands, {}⟩ := rfl
  have hj : (Interpreter.begin {} ⟨commands, {}⟩ true).Reaches j :=
    ((Reaches.refl.update services).update services).update services
  obtain ⟨start, next, stack, hblock, hgoes, hiff, htop, -⟩ :=
    (loop_control_targets (c := stop) hp hj rfl rfl rfl).1 rfl
  have hstart : some start = some 0 := hblock.findLoopStart_eq.symm.trans rfl
  cases hstart
  obtain rfl := hiff.mpr (by decide)
  exact ⟨_, rfl, rfl, rfl, stack, hgoes, htop (by decide)⟩

/-- Wherever a run of an accepted program stands at an enabled command that consults the stack
for a position, the frames kept are those of the loops around the position, except for the
one that a break leaves, and all frames below them. They are of loops around the position
just where no loop with a frame has ended before a running loop around the position began.
Every other frame kept is of a loop whose end is disabled, so in a program where the end of
every enabled loop is enabled there is none. -/
theorem kept_frames_around_iff {i j : Interpreter} {commands : List Command} {p : Program}
    {notify : Bool} {s : Session} {c : Command} {position : Nat}
    (hp : Program.ofCommands commands = .ok p) (h : (i.begin p notify).Reaches j)
    (hs : j.session = some s) (hc : s.program.get? s.cursor = some c) (he : c.enabled = true)
    (hq : p.consulted? s.cursor c.action = some position) :
    ∃ next stack, s.Goes next stack ∧
      (∀ f, f ∈ stack ↔ f ∈ s.stack ∧ ∃ t ∈ s.stack,
        (∃ exit, LoopAround (commands.map Command.kind) position t exit) ∧
          (f < t ∨ f = t ∧ c.action ≠ .breakLoop)) ∧
      ((∀ f ∈ stack, ∃ exit, LoopAround (commands.map Command.kind) position f exit) ↔
        ∀ f ∈ s.stack, ∀ exit, LoopBlock (commands.map Command.kind) f exit →
          ∀ t ∈ s.stack, (∃ exit', LoopAround (commands.map Command.kind) position t exit') →
            t < exit) ∧
      (∀ f ∈ stack, (∃ exit, LoopAround (commands.map Command.kind) position f exit) ∨
        ∃ exit d, LoopBlock (commands.map Command.kind) f exit ∧
          commands[exit - 1]? = some d ∧ d.enabled = false) ∧
      ((∀ (f exit : Nat) (b d : Command), LoopBlock (commands.map Command.kind) f exit →
        commands[f]? = some b → b.enabled = true → commands[exit - 1]? = some d →
          d.enabled = true) →
        ∀ f ∈ stack, ∃ exit, LoopAround (commands.map Command.kind) position f exit) := by
  obtain ⟨rfl, ha⟩ := Program.accepted_of_ofCommands hp
  have hsound := Session.Sound.of_reaches ha h hs
  have hends := Session.EndsDisabled.of_reaches ha h hs
  have haccepted := hsound.accepted ha
  have hframes := hsound.frames_program
  rw [← hsound.consulted?] at hq
  obtain ⟨r, stack, next, hr, hn⟩ := Program.exists_target haccepted hc hq hframes .clear
  have hkept {f : Nat} := Program.mem_left_iff haccepted hframes hq hr (f := f)
  rw [hsound.kinds] at hkept
  have hcases : ∀ f ∈ stack, (∃ exit, LoopAround p.kinds position f exit) ∨
      ∃ exit d, LoopBlock p.kinds f exit ∧ p.commands[exit - 1]? = some d ∧ d.enabled = false := by
    intro f hf
    obtain ⟨hold, t, ht, ⟨exit', hin⟩, hbelow⟩ := hkept.mp hf
    obtain ⟨exit, hblock⟩ := exists_loopBlock ha.nest_kinds (hsound.frames.loops f hold)
    rcases Nat.lt_or_ge t exit with hlt | hge
    · exact .inl ⟨exit, hin.outer hblock (by omega) hlt⟩
    · have hbefore := hsound.frames.before t ht
      obtain ⟨d, hd, hdisabled⟩ := hends f hold exit hblock (by omega)
      exact .inr ⟨exit, d, hblock, hd, hdisabled⟩
  refine ⟨next, stack, Session.goes_of_resolve hc he hq hr hn, fun f => hkept, ⟨?_, ?_⟩, hcases, ?_⟩
  · intro haround f hold exit hblock t ht hin
    by_contra hge
    have hlo := hblock.start_add_two_le
    obtain ⟨exit', hf⟩ := haround f (hkept.mpr ⟨hold, t, ht, hin, .inl (by omega)⟩)
    have hexit := hblock.exit_unique hf.block
    obtain ⟨exit'', hin⟩ := hin
    have hpast := hin.start_lt
    have hbefore := hf.lt_exit
    omega
  · intro hbegan f hf
    obtain ⟨hold, t, ht, ⟨exit', hin⟩, hbelow⟩ := hkept.mp hf
    obtain ⟨exit, hblock⟩ := exists_loopBlock ha.nest_kinds (hsound.frames.loops f hold)
    exact ⟨exit, hin.outer hblock (by omega) (hbegan f hold exit hblock t ht ⟨exit', hin⟩)⟩
  · intro henabled f hf
    rcases hcases f hf with hin | ⟨exit, d, hblock, hd, hdisabled⟩
    · exact hin
    · obtain ⟨b, hb, hbe⟩ := hsound.enabled f (hkept.mp hf).1
      rw [henabled f exit b d hblock hb hbe hd] at hdisabled
      cases hdisabled

/-- The frame of an inner loop whose end is disabled is dropped at the end of the outer loop,
and the frame of the outer loop is kept. -/
theorem kept_frames_around_iff_outer :
    let loop : Command := .ofAction .loop
    let stop : Command := .ofAction .endLoop
    let commands := [loop, loop, stop.disable, stop]
    let services : Services Stage := ⟨{}, ⟨{}, {}⟩⟩
    let tick := fun i : Interpreter => (i.update services).interpreter
    let j := tick (tick (tick (Interpreter.begin {} ⟨commands, {}⟩ true)))
    ∃ s next stack, j.session = some s ∧ s.stack = [1, 0] ∧ s.Goes next stack ∧
      0 ∈ stack ∧ 1 ∉ stack := by
  intro loop stop commands services tick j
  have hp : Program.ofCommands commands = .ok ⟨commands, {}⟩ := rfl
  have hj : (Interpreter.begin {} ⟨commands, {}⟩ true).Reaches j :=
    ((Reaches.refl.update services).update services).update services
  obtain ⟨next, stack, hgoes, hkept, -⟩ :=
    kept_frames_around_iff (c := stop) hp hj rfl rfl rfl (rfl : _ = some 3)
  have houter : LoopBlock (commands.map Command.kind) 0 4 :=
    ⟨[], [.loop, .endLoop], [], rfl, balanced_iff_nest.mpr rfl, rfl, rfl⟩
  have hinner : LoopBlock (commands.map Command.kind) 1 3 :=
    ⟨[.loop], [], [.endLoop], rfl, balanced_iff_nest.mpr rfl, rfl, rfl⟩
  refine ⟨_, next, stack, rfl, rfl, hgoes, (hkept 0).mpr ⟨by decide, 0, by decide, ?_, ?_⟩, ?_⟩
  · exact ⟨4, houter, by decide, by decide⟩
  · exact .inr ⟨rfl, by decide⟩
  · intro hm
    obtain ⟨-, t, ht, ⟨exit, hin⟩, hbelow⟩ := (hkept 1).mp hm
    have hle : ∀ t ∈ [1, 0], t ≤ 1 := by decide
    obtain rfl : t = 1 := by have := hle t ht; omega
    obtain rfl := hinner.exit_unique hin.block
    exact absurd hin.lt_exit (by decide)

/-- A loop whose end is disabled has ended, a second loop begins behind it, and a break leaves
that one. The frame of the first loop is kept, though the break is not in it. -/
theorem left_frame_survives :
    let loop : Command := .ofAction .loop
    let stop : Command := .ofAction .endLoop
    let commands := [loop, stop.disable, loop, .ofAction .breakLoop, stop]
    let services : Services Stage := ⟨{}, ⟨{}, {}⟩⟩
    let tick := fun i : Interpreter => (i.update services).interpreter
    let j := tick (tick (tick (Interpreter.begin {} ⟨commands, {}⟩ true)))
    Program.ofCommands commands = .ok ⟨commands, {}⟩ ∧
    (Interpreter.begin {} ⟨commands, {}⟩ true).Reaches j ∧
    ∃ s, j.session = some s ∧ s.cursor = 3 ∧ s.stack = [2, 0] ∧ s.Goes 5 [0] ∧
      ∀ exit, ¬ LoopAround (commands.map Command.kind) 3 0 exit := by
  intro loop stop commands services tick j
  have hj : (Interpreter.begin {} ⟨commands, {}⟩ true).Reaches j :=
    ((Reaches.refl.update services).update services).update services
  refine ⟨rfl, hj, _, rfl, rfl, rfl, ?_, ?_⟩
  · exact @Session.goes_of_resolve _ (.ofAction .breakLoop) 3 rfl rfl rfl (.moveTo 5) _ _ rfl rfl
  · intro exit hin
    have hexit : Except.ok exit = Except.ok 2 := hin.block.findLoopExit_eq.symm.trans rfl
    cases hexit
    exact absurd hin.lt_exit (by decide)

end Interpreter

end EventScript
