import EventScript.Host.Stage
import EventScript.Proofs.Session.Reach

/-!
# The control stack and the moves of a run

`Session.Sound` ties the cursor and the control stack of a session to the text of its
program. It says nothing of blocks that enclose the cursor: a jump may enter a loop without
a frame, and the frame of a loop whose end is disabled stays behind. Yet the frames ascend
and lie before the cursor, and that suffices for every move to have a target.
-/

namespace EventScript

open EventScript.Flow

/-- A session runs a program as it was written, its cursor is in it or just behind it, and
its control stack holds enabled loops before the cursor, each above the ones before it. -/
structure Session.Sound (p : Program) (s : Session) : Prop where
  written : s.program.written = p.written
  cursor_le : s.cursor ≤ p.size
  frames : Frames p.kinds s.cursor s.stack
  enabled : ∀ f ∈ s.stack, ∃ c, p.get? f = some c ∧ c.enabled = true

namespace Session.Sound

variable {p : Program} {s : Session}

/-- A new session is sound. -/
theorem start (p : Program) (notify : Bool) : Sound p (.start p notify) :=
  ⟨rfl, Nat.zero_le _, ⟨by simp [Session.start], by simp [Session.start], .nil⟩,
    by simp [Session.start]⟩

/-- The number of ticks plays no part. -/
theorem ticks (h : Sound p s) (n : Nat) : Sound p { s with ticks := n } :=
  ⟨h.written, h.cursor_le, h.frames, h.enabled⟩

/-- Neither does a pause. -/
theorem paused (h : Sound p s) (b : Bool) : Sound p { s with paused := b } :=
  ⟨h.written, h.cursor_le, h.frames, h.enabled⟩

/-- The command at an index of the running program is the one written there. -/
theorem get?_eq (h : Sound p s) {i : Nat} {c : Command} (hc : s.program.get? i = some c) :
    ∃ d, p.get? i = some d ∧ d.reset = c.reset := by
  have hw := s.program.get?_written i
  rw [h.written, Program.get?_written, hc] at hw
  obtain ⟨d, hd, hr⟩ := Option.map_eq_some_iff.mp hw
  exact ⟨d, hd, hr⟩

/-- Every move of the command at the cursor is possible. -/
theorem moves (h : Sound p s) (ha : p.Accepted) {c : Command}
    (hc : s.program.get? s.cursor = some c) (memory : Memory) :
    s.program.Moves s.cursor c s.stack
      (s.program.resolve (c.action.motion memory) s.cursor s.stack) := by
  apply Program.resolve_moves (ha.of_written_eq h.written.symm) hc
  rw [Program.kinds_eq_of_written_eq h.written]
  exact h.frames

/-- The move of the command that has run at the cursor is possible. -/
theorem moves_ran {η : Type} [Host η] (h : Sound p s) (ha : p.Accepted) {c : Command}
    (hc : s.program.get? s.cursor = some c) (owner : Owner) (w : World η) :
    s.program.Moves s.cursor c s.stack
      (s.program.resolve (runCommand c s.pending owner w).command.motion s.cursor s.stack) := by
  rw [Command.motion, Command.action_eq_of_reset_eq (reset_runCommand c s.pending owner w)]
  exact h.moves ha hc _

/-- A step that does not end the session keeps it sound. -/
theorem step {η : Type} [Host η] {s' : Session} {owner : Owner} {w w' : World η}
    {r : TickReport} (ha : p.Accepted) (hs : s.Steps owner w (.report r) s' w')
    (h : Sound p s) : Sound p s' := by
  have hwritten := hs.written.trans h.written
  cases hs with
  | skipped hc =>
    obtain ⟨d, hd, -⟩ := h.get?_eq hc
    obtain ⟨hlt, -⟩ := List.getElem?_eq_some_iff.mp hd
    exact ⟨hwritten, hlt, h.frames.later (Nat.le_succ _), h.enabled⟩
  | suspended => exact ⟨hwritten, h.cursor_le, h.frames, h.enabled⟩
  | executed hc he hran _ hm hn =>
    subst hran
    have hmoves := h.moves_ran ha hc owner w
    rw [hm] at hmoves
    obtain ⟨r', hr', htarget⟩ := hmoves.found
    cases hr'
    obtain ⟨hle, hframes⟩ := htarget _ hn
    rw [Program.size_eq_of_written_eq h.written] at hle
    rw [Program.kinds_eq_of_written_eq h.written] at hframes
    refine ⟨hwritten, hle, hframes, ?_⟩
    intro f hf
    rcases hmoves.frames f hf with hold | ⟨rfl, -⟩
    · exact h.enabled f hold
    · obtain ⟨d, hd, hr⟩ := h.get?_eq hc
      exact ⟨d, hd, by rw [Command.enabled_eq_of_reset_eq hr, he]⟩

/-- No step of a sound session is faulted. -/
theorem not_faulted {η : Type} [Host η] {s' : Session} {owner : Owner} {w w' : World η}
    (ha : p.Accepted) (h : Sound p s) : ¬ s.Steps owner w (.complete .faulted) s' w' := by
  intro hs
  cases hs with
  | faulted hc _ hran _ hm =>
    subst hran
    obtain ⟨r, hr, -⟩ := (h.moves_ran ha hc owner w).found
    rw [hm] at hr
    cases hr

/-- Every session that a run of an accepted program reaches is sound. -/
theorem of_reaches {i j : Interpreter} {notify : Bool} (ha : p.Accepted)
    (h : (i.begin p notify).Reaches j) (hs : j.session = some s) : Sound p s :=
  h.session_invariant (start p notify) (fun _ n h => h.ticks n) (fun _ b h => h.paused b)
    (step ha) hs

end Session.Sound

/-- There are at most as many frames as loops before the cursor. -/
theorem Flow.Frames.length_le {kinds : List Kind} {cursor : Nat} {stack : ControlStack}
    (h : Frames kinds cursor stack) : stack.length ≤ (kinds.take cursor).count .loop := by
  induction stack generalizing cursor with
  | nil => exact Nat.zero_le _
  | cons f rest ih =>
    have hf := List.mem_cons_self (a := f) (l := rest)
    have hcount : (kinds.take (f + 1)).count .loop = (kinds.take f).count .loop + 1 := by
      rw [List.take_add_one, h.loops f hf, List.count_append]
      rfl
    have hle : (kinds.take (f + 1)).count .loop ≤ (kinds.take cursor).count .loop :=
      (List.take_prefix_take_left (h.before f hf)).sublist.count_le Kind.loop
    have hrest := ih (h.below (Nat.le_refl f))
    rw [List.length_cons]
    omega

namespace Interpreter

/-- An update that ends a sound session as faulted has passed the tick limit. -/
theorem Updates.faulted {η : Type} [Host η] {i : Interpreter} {services : Services η}
    {reply : Reply TickReport η} {completion : Completion} {p : Program} (ha : p.Accepted)
    (hu : i.Updates services reply) (hsound : ∀ s, i.session = some s → Session.Sound p s)
    (hr : reply.result = .completed completion) (hf : completion.reason = .faulted) :
    ∃ limit, i.config.maxTicks = some limit ∧ limit < completion.ticks := by
  cases hu with
  | inactive | paused => cases hr
  | @limited s s' limit _ _ _ hl hlt ht _ =>
    cases hr
    refine ⟨limit, hl, ?_⟩
    rw [Session.completion, ht]
    exact hlt
  | advanced _ _ _ hstep =>
    cases hr
    cases hstep
  | @ended s _ _ _ hs _ _ hstep =>
    cases hr
    rw [Session.completion] at hf
    subst hf
    have hticks := (hsound s hs).ticks (s.ticks + 1)
    exact absurd hstep (hticks.not_faulted ha)

/-- However a run of an accepted program goes, its cursor stays in the program or just
behind it, every move that the command at the cursor may want has a target, and a session
that ends as faulted has passed the tick limit. -/
theorem faulted_only_by_tick_limit {i j : Interpreter} {commands : List Command} {p : Program}
    {notify : Bool} (hp : Program.ofCommands commands = .ok p)
    (h : (i.begin p notify).Reaches j) :
    (∀ s, j.session = some s → s.cursor ≤ commands.length ∧
      ∀ c, s.program.get? s.cursor = some c → ∀ memory,
        ∃ r, (s.program.resolve (c.action.motion memory) s.cursor s.stack).1 = .ok r) ∧
    ∀ {η : Type} [Host η] (services : Services η) (completion : Completion),
      (j.update services).result = .completed completion → completion.reason = .faulted →
        ∃ limit, i.config.maxTicks = some limit ∧ limit < completion.ticks := by
  obtain ⟨rfl, ha⟩ := Program.accepted_of_ofCommands hp
  have hsound : ∀ s, j.session = some s → Session.Sound p s :=
    fun s hs => Session.Sound.of_reaches ha h hs
  constructor
  · intro s hs
    constructor
    · exact (hsound s hs).cursor_le
    · intro c hc memory
      obtain ⟨r, hr, -⟩ := ((hsound s hs).moves ha hc memory).found
      exact ⟨r, hr⟩
  · intro η _ services completion hcompleted hfaulted
    have hlimit := (updates_update j services).faulted ha hsound hcompleted hfaulted
    rwa [h.config] at hlimit

/-- A jump into a loop whose end is disabled, under a limit of one tick. -/
theorem faulted_only_by_tick_limit_jump :
    let commands : List Command :=
      [.ofAction (.jumpToLabel "in"), .ofAction .loop, .ofAction (.label "in"),
        (Command.ofAction .endLoop).disable]
    let services : Services Stage := ⟨{}, ⟨{}, {}⟩⟩
    let i : Interpreter := { config := { maxTicks := some 1 } }
    let j := ((i.begin ⟨commands, ⟨[("in", 2)]⟩⟩ true).update services).interpreter
    j.cursor? = some 3 ∧ (∀ s, j.session = some s → s.cursor ≤ commands.length) ∧
      (j.update services).result = .completed ⟨.global, .faulted, 2, 1⟩ ∧
      ∃ limit, i.config.maxTicks = some limit ∧ limit < 2 := by
  intro commands services i j
  have hp : Program.ofCommands commands = .ok ⟨commands, ⟨[("in", 2)]⟩⟩ := rfl
  have hj : (i.begin ⟨commands, ⟨[("in", 2)]⟩⟩ true).Reaches j := Reaches.refl.update services
  have h := faulted_only_by_tick_limit hp hj
  exact ⟨rfl, fun s hs => (h.1 s hs).1, rfl, h.2 services ⟨.global, .faulted, 2, 1⟩ rfl rfl⟩

/-- In every state of a run of an accepted program the control stack ascends from its bottom
to its top through enabled loops before the cursor, so no loop has two frames and there are
at most as many frames as loops. -/
theorem control_stack_ascends {i j : Interpreter} {commands : List Command} {p : Program}
    {notify : Bool} {s : Session} (hp : Program.ofCommands commands = .ok p)
    (h : (i.begin p notify).Reaches j) (hs : j.session = some s) :
    s.stack.reverse.Pairwise (· < ·) ∧
    (∀ f ∈ s.stack, f < s.cursor ∧
      ∃ c, commands[f]? = some c ∧ c.kind = .loop ∧ c.enabled = true) ∧
    s.stack.Nodup ∧ s.stack.length ≤ (commands.map Command.kind).count .loop := by
  obtain ⟨rfl, ha⟩ := Program.accepted_of_ofCommands hp
  have hsound := Session.Sound.of_reaches ha h hs
  have hframes := hsound.frames
  refine ⟨List.pairwise_reverse.mpr hframes.descending, ?_, ?_, ?_⟩
  · intro f hf
    obtain ⟨c, hc, he⟩ := hsound.enabled f hf
    have hkind := (Program.getElem?_kinds hc).symm.trans (hframes.loops f hf)
    exact ⟨hframes.before f hf, c, hc, Option.some.inj hkind, he⟩
  · exact hframes.descending.imp Nat.ne_of_gt
  · exact Nat.le_trans hframes.length_le ((List.take_sublist _ _).count_le _)

/-- A loop whose end is disabled leaves its frame behind, above that of the loop around it. -/
theorem control_stack_ascends_stale :
    let loop : Command := .ofAction .loop
    let stop : Command := .ofAction .endLoop
    let commands := [loop, loop, stop.disable, stop]
    let services : Services Stage := ⟨{}, ⟨{}, {}⟩⟩
    let tick := fun i : Interpreter => (i.update services).interpreter
    let j := tick (tick (tick (Interpreter.begin {} ⟨commands, {}⟩ true)))
    j.cursor? = some 3 ∧ ∃ s, j.session = some s ∧ s.stack = [1, 0] ∧
      s.stack.reverse.Pairwise (· < ·) ∧ s.stack.length ≤ (commands.map Command.kind).count .loop := by
  intro loop stop commands services tick j
  have hp : Program.ofCommands commands = .ok ⟨commands, {}⟩ := rfl
  have hj : (Interpreter.begin {} ⟨commands, {}⟩ true).Reaches j :=
    ((Reaches.refl.update services).update services).update services
  have h := control_stack_ascends hp hj rfl
  exact ⟨rfl, _, rfl, rfl, h.1, h.2.2.2⟩

end Interpreter

end EventScript
