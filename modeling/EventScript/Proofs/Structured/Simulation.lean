import EventScript.Proofs.Structured.Moves
import EventScript.Proofs.Structured.Watch

/-!
# Ticks follow the steps of a structured program

`Follows` ties a watched interpreter to a configuration of its tree. Every tick either takes
the step of the configuration, or counts down and leaves it as it is, or ends the session
where there is no step.
-/

namespace EventScript

open Focus

/-- The program of a session: as it was at the start between two commands, with a waiting
command at the cursor while one counts down. -/
def Watch.InFlight (p : Program) (c : Config) (pending : Option Token) (s : Session) : Prop :=
  match pending with
  | none => s.program = p
  | some _ => ∃ l next, c.tree = .basic l next ∧ l.enabled = true ∧ l.action.counts = true ∧
      s.program = p.set s.cursor l.waiting

/-- A session of a watched interpreter stands where a configuration of its tree stands, with
a command in flight that waits for `pending`. -/
structure Watch.Follows (T : Tree) (p : Program) (owner : Owner) (c : Config)
    (tr : List Event) (pending : Option Token) (s : Session) (w : Watch Stage) : Prop where
  session : w.interpreter.session = some s
  focus : Focus T s.cursor c.tree c.conts s.stack
  pending_eq : s.pending = pending
  program : InFlight p c pending s
  unpaused : s.paused = false
  owner_eq : w.interpreter.owner = owner
  unlimited : w.interpreter.config.maxTicks = none
  quiet : w.services.world.Quiet c.game
  trace : w.trace = tr
  ended : w.ended = none

/-- The session of a watched interpreter has ended for a reason. -/
structure Watch.Ended (tr : List Event) (g : GameState) (reason : CompletionReason)
    (w : Watch Stage) : Prop where
  session : w.interpreter.session = none
  game : w.game = g
  trace : w.trace = tr
  ended : w.ended = some reason

namespace Watch

variable {T : Tree} {p : Program} {owner : Owner} {c : Config} {tr : List Event}
  {pending : Option Token} {s : Session} {w : Watch Stage}

/-- Nothing happens after the end. -/
theorem Ended.tick {g : GameState} {reason : CompletionReason} (h : Ended tr g reason w) :
    Ended tr g reason w.tick := by
  have hu : w.interpreter.update w.services =
      { result := .inactive, interpreter := w.interpreter, services := w.services } := by
    rw [Interpreter.update, h.session]
  have hev : w.interpreter.event? w.services = none := by
    rw [Interpreter.event?, h.session]
    rfl
  constructor
  · simp only [Watch.tick, hu, h.session]
  · simp only [Watch.tick, Watch.game, hu]
    exact h.game
  · simp only [Watch.tick, hev, h.trace, Option.toList_none, List.append_nil]
  · simp only [Watch.tick, hu, h.ended]

/-! ### The program under way -/

private theorem set_get? {q : Program} {i : Nat} {d : Command} (h : q.get? i = some d) :
    q.set i d = q := by
  obtain ⟨hi, hd⟩ := List.getElem?_eq_some_iff.mp h
  rw [Program.set, ← hd, List.set_getElem_self]

private theorem set_set (q : Program) (i : Nat) (d d' : Command) :
    (q.set i d).set i d' = q.set i d' := by
  rw [Program.set, Program.set, Program.set, List.set_set]

/-- The command at the cursor is the one written there, and when it is idle again the
program is as it was at the start. -/
theorem Follows.restored (hp : p.commands = T.flatten)
    (h : Follows T p owner c tr pending s w) {cmd : Command}
    (hc : s.program.get? s.cursor = some cmd) :
    s.program.set s.cursor cmd.reset = p ∧ s.program.kinds = T.kinds ∧
      s.program.labels = p.labels := by
  have hkinds : p.kinds = T.kinds := congrArg (List.map Command.kind) hp
  have hprogram := h.program
  cases pending with
  | none =>
    obtain rfl : s.program = p := hprogram
    have hreset := congrArg (fun l => l[s.cursor]?) T.reset_flatten
    rw [← hp] at hreset
    rw [Program.get?] at hc
    simp only [List.getElem?_map, hc, Option.map_some, Option.some.injEq] at hreset
    exact ⟨by rw [hreset, set_get? hc], hkinds, rfl⟩
  | some token =>
    obtain ⟨l, next, ht, -, -, hs⟩ := hprogram
    have hfocus := h.focus
    rw [ht] at hfocus
    have hl : p.get? s.cursor = some l.command := by
      rw [Program.get?, hp, hfocus.reads.head]
    have hcmd : cmd = l.waiting := by
      rw [hs, Program.get?_set_self hl] at hc
      exact (Option.some.inj hc).symm
    have hw : s.program.written = p.written := by rw [hs]; exact Program.written_set hl rfl
    refine ⟨?_, ?_, ?_⟩
    · rw [hs, set_set, hcmd]
      exact set_get? hl
    · rw [Program.kinds_eq_of_written_eq hw, hkinds]
    · rw [Program.labels_eq_of_written_eq hw]

/-- A tick that does not end the session. -/
theorem Follows.advance (h : Follows T p owner c tr pending s w) {c' : Config}
    {ev : List Event} {pending' : Option Token} {s' : Session} {r : TickReport}
    {world : World Stage}
    (hs : Session.Steps { s with ticks := s.ticks + 1 } owner w.services.world
      (.report r) s' world)
    (hr : ∀ completion, r ≠ .completed completion)
    (hev : (s.event? owner w.services.world r).toList = ev)
    (hfocus : Focus T s'.cursor c'.tree c'.conts s'.stack) (hpending : s'.pending = pending')
    (hprogram : InFlight p c' pending' s') (hpaused : s'.paused = false)
    (hw : world.Quiet c'.game) : Follows T p owner c' (tr ++ ev) pending' s' w.tick := by
  obtain rfl := h.owner_eq
  have hu := Interpreter.update_of_report h.session h.unpaused
    (Interpreter.overLimit_of_unlimited h.unlimited _) hs
  have hseen : (w.interpreter.event? w.services).toList = ev := by
    rw [Interpreter.event?, h.session, hu]
    exact hev
  have htick : w.tick =
      { interpreter := { w.interpreter with session := some s' }
        services := { w.services with world }
        trace := tr ++ ev
        ended := none } := by
    rw [tick, hu, hseen, h.trace, h.ended]
    cases r with
    | completed completion => exact absurd rfl (hr completion)
    | _ => rfl
  rw [htick]
  exact ⟨rfl, hfocus, hpending, hprogram, hpaused, rfl, h.unlimited, hw, rfl, rfl⟩

/-- A tick that ends the session. -/
theorem Follows.complete (h : Follows T p owner c tr pending s w) {s' : Session}
    {reason : CompletionReason} {world : World Stage}
    (hs : Session.Steps { s with ticks := s.ticks + 1 } owner w.services.world
      (.complete reason) s' world) (hg : world.game = c.game) :
    Ended tr c.game reason w.tick := by
  obtain rfl := h.owner_eq
  have hu := Interpreter.update_of_complete h.session h.unpaused
    (Interpreter.overLimit_of_unlimited h.unlimited _) hs
  have hev : w.interpreter.event? w.services = none := by
    rw [Interpreter.event?, h.session, hu]
    rfl
  constructor
  · rw [tick, hu]
    rfl
  · rw [tick, hu]
    exact hg
  · rw [tick, hev, h.trace]
    exact List.append_nil tr
  · rw [tick, hu]
    rfl

/-- The command at the cursor runs to its end and leads to the next position. -/
theorem Follows.executed (hp : p.commands = T.flatten)
    (h : Follows T p owner c tr pending s w) {cmd : Command} {ran : Ran Stage} {t : Tree}
    {ks : List Cont} {g : GameState} {ev : List Event}
    (hc : s.program.get? s.cursor = some cmd) (he : cmd.enabled = true)
    (hran : ran = Session.runCommand cmd s.pending owner w.services.world)
    (hr : ∀ token, ran.result ≠ .ok (.suspended token))
    (hgo : Goes T p.labels ran.command.motion s.cursor s.stack t ks)
    (hw : ran.world.Quiet g) (hev : ran.command.event?.toList = ev) :
    ∃ s', Follows T p owner ⟨t, ks, g⟩ (tr ++ ev) none s' w.tick := by
  obtain ⟨hset, hkinds, hlabels⟩ := h.restored hp hc
  obtain ⟨r, next, stack, hm, hn, hfocus⟩ := hgo
  rw [← hlabels, ← hkinds] at hm
  have hstep := Session.Steps.executed (s := { s with ticks := s.ticks + 1 }) hc he hran hr hm hn
  refine ⟨_, h.advance hstep (by rintro _ ⟨⟩) ?_ hfocus rfl ?_ h.unpaused ?_⟩
  · rw [← hev, hran, Session.event?, hc]
    rfl
  · rw [← Session.reset_runCommand cmd s.pending owner w.services.world, ← hran] at hset
    exact hset
  · unfold Session.reported
    split
    · exact hw
    · exact hw.report _

/-- What a tick of a watched interpreter comes to. -/
inductive Outcome (T : Tree) (p : Program) (owner : Owner) (c : Config) (tr : List Event)
    (pending : Option Token) (w : Watch Stage) : Prop
  /-- The step of the configuration. -/
  | steps {ev : List Event} {c' : Config} {s : Session} (hn : c.next owner = some (ev, c'))
    (h : Follows T p owner c' (tr ++ ev) none s w)
  /-- One tick less to wait. -/
  | waits {token : Token} {s : Session} (h : Follows T p owner c tr (some token) s w)
    (hlt : ∀ t, pending = some t → token < t)
  | ends (ht : c.tree = .done) (hk : c.conts = [])
    (h : Ended tr c.game .endOfProgram w)
  | exits {next : Tree} (ht : c.tree = .exit next) (h : Ended tr c.game .exited w)

/-- A basic command at the cursor ends or waits. -/
theorem Follows.leaf (hp : p.commands = T.flatten) {l : Leaf} {next : Tree} {ks : List Cont}
    {g : GameState} (h : Follows T p owner ⟨.basic l next, ks, g⟩ tr pending s w)
    (he : l.enabled = true) {cmd : Command} (hc : s.program.get? s.cursor = some cmd)
    (hreset : cmd.reset = l.command)
    (ht : l.Ticked owner g (Session.runCommand cmd s.pending owner w.services.world))
    (hlt : ∀ left, (Session.runCommand cmd s.pending owner w.services.world).result =
      .ok (.suspended left) → ∀ t, pending = some t → left < t) :
    Outcome T p owner ⟨.basic l next, ks, g⟩ tr pending w.tick := by
  have hen : cmd.enabled = true := by rw [← cmd.reset_enabled, hreset]; exact he
  have hran := Session.reset_runCommand cmd s.pending owner w.services.world
  rw [hreset] at hran
  cases ht with
  | ended hr hw =>
    have hmotion : (Session.runCommand cmd s.pending owner w.services.world).command.motion =
        .next := by
      rw [Command.motion, ← Command.reset_action, hran]
      exact l.motion_eq _
    have hgo : Goes T p.labels .next s.cursor s.stack next ks := goes_next h.focus.basic
    rw [← hmotion] at hgo
    have hev := congrArg Option.toList (l.event?_eq hran)
    obtain ⟨s', hs'⟩ := h.executed hp hc hen rfl hr hgo hw hev
    exact .steps (Config.next_ran he next) hs'
  | @waits token hcounts hr hcommand hw =>
    have hstep := Session.Steps.suspended (s := { s with ticks := s.ticks + 1 }) hc hen rfl hr
    have hprogram : s.program.set s.cursor
        (Session.runCommand cmd s.pending owner w.services.world).command =
          p.set s.cursor l.waiting := by
      rw [← (h.restored hp hc).1, set_set, hcommand]
    have hnext : Follows T p owner ⟨.basic l next, ks, g⟩ (tr ++ []) (some token) _ w.tick :=
      h.advance hstep (by rintro _ ⟨⟩) rfl h.focus rfl
        ⟨l, next, rfl, he, hcounts, hprogram⟩ h.unpaused hw
    rw [List.append_nil] at hnext
    exact .waits hnext (hlt token hr)

/-- A marker at the cursor leads to the next position. -/
theorem Follows.marker (hp : p.commands = T.flatten) {t t' : Tree} {ks ks' : List Cont}
    {g : GameState} (h : Follows T p owner ⟨t, ks, g⟩ tr none s w) {a : Action}
    (hc : T.flatten[s.cursor]? = some (.ofAction a))
    (hrun : (Command.ofAction a).execute owner w.services.world =
      ⟨.ok .completed, { Command.ofAction a with phase := .complete }, w.services.world⟩)
    (hev : (Command.ofAction a).event? = none)
    (hgo : Goes T p.labels (a.motion .clear) s.cursor s.stack t' ks') :
    ∃ s', Follows T p owner ⟨t', ks', g⟩ tr none s' w.tick := by
  have hprogram : s.program = p := h.program
  rw [← hp, ← hprogram] at hc
  have hrun' : Session.runCommand (.ofAction a) s.pending owner w.services.world =
      ⟨.ok .completed, { Command.ofAction a with phase := .complete }, w.services.world⟩ := by
    rw [h.pending_eq]
    exact hrun
  have hnext := h.executed hp hc rfl hrun'.symm (by rintro _ ⟨⟩) hgo h.quiet
    (congrArg Option.toList hev)
  rwa [Option.toList_none, List.append_nil] at hnext

/-- A branch at the cursor is decided and leads to the body for its outcome. -/
theorem Follows.branch (hp : p.commands = T.flatten) {t t' : Tree} {ks ks' : List Cont}
    {g g₁ : GameState} (h : Follows T p owner ⟨t, ks, g⟩ tr none s w) {set : ConditionSet}
    {outcome : Bool} (hc : T.flatten[s.cursor]? = some (.ofAction (.conditionalBranch set)))
    (hg : g.evaluate owner set = (outcome, g₁))
    (hgo : Goes T p.labels (if outcome then .next else .skipFalseBranch) s.cursor s.stack t' ks') :
    ∃ s', Follows T p owner ⟨t', ks', g₁⟩ (tr ++ [.decided set outcome]) none s' w.tick := by
  have hprogram : s.program = p := h.program
  rw [← hp, ← hprogram] at hc
  have hquiet := h.quiet
  have hrun : Session.runCommand (.ofAction (.conditionalBranch set)) s.pending owner
      w.services.world =
        ⟨.ok .completed,
          { Command.ofAction (.conditionalBranch set) with
            phase := .complete
            memory := { outcome := some outcome } },
          { w.services.world with game := g₁ }⟩ := by
    have hgame : w.services.world.game.evaluate owner set = (outcome, g₁) := by
      rw [hquiet.game]
      exact hg
    rw [h.pending_eq]
    simp only [Session.runCommand, Command.execute, Command.ofAction, Action.start, hgame]
    rfl
  apply h.executed hp hc rfl hrun.symm (by rintro _ ⟨⟩) _ ⟨rfl, hquiet.presenter⟩ rfl
  cases outcome with
  | true => exact hgo
  | false => exact hgo

/-- A command that waits counts down or ends. -/
theorem Follows.outcome_waiting (hp : p.commands = T.flatten) {token : Token}
    (h : Follows T p owner c tr (some token) s w) :
    Outcome T p owner c tr (some token) w.tick := by
  obtain ⟨t, ks, g⟩ := c
  obtain ⟨l, next, ht, he, hcounts, hs⟩ := h.program
  subst ht
  have hl : p.get? s.cursor = some l.command := by
    rw [Program.get?, hp, h.focus.reads.head]
  have hc : s.program.get? s.cursor = some l.waiting := by rw [hs, Program.get?_set_self hl]
  apply h.leaf hp he hc rfl
  · rw [h.pending_eq]
    exact l.ticked_resume hcounts h.quiet token
  · intro left hr t ht
    cases ht
    rw [h.pending_eq] at hr
    exact l.lt_of_resume hcounts hr

private theorem Follows.get?_eq (hp : p.commands = T.flatten)
    (h : Follows T p owner c tr none s w) :
    s.program.get? s.cursor = T.flatten[s.cursor]? := by
  have hprogram : s.program = p := h.program
  rw [hprogram, Program.get?, hp]

/-- Behind the last statement of a part stands the end of the program or a marker. -/
theorem Follows.outcome_done (hp : p.commands = T.flatten) {ks : List Cont} {g : GameState}
    (h : Follows T p owner ⟨.done, ks, g⟩ tr none s w) :
    Outcome T p owner ⟨.done, ks, g⟩ tr none w.tick := by
  match ks with
  | [] =>
    have hi : s.cursor = T.size := h.focus.behind.1
    have hnone : s.program.get? s.cursor = none := by
      rw [h.get?_eq hp, List.getElem?_eq_none]
      exact Nat.le_of_eq hi.symm
    exact .ends rfl rfl (h.complete (.ended hnone) h.quiet.game)
  | .resume next :: ks =>
    obtain ⟨a, hc, ha, hgo⟩ := h.focus.goes_resume
    rcases ha with rfl | rfl
    · obtain ⟨s', hs'⟩ := h.marker hp hc rfl rfl (hgo .clear)
      exact .steps (Config.next_resume next) (by rwa [List.append_nil])
    · obtain ⟨s', hs'⟩ := h.marker hp hc rfl rfl (hgo .clear)
      exact .steps (Config.next_resume next) (by rwa [List.append_nil])
  | .again body next :: ks =>
    obtain ⟨hc, hgo⟩ := h.focus.goes_again
    obtain ⟨s', hs'⟩ := h.marker hp hc rfl rfl hgo
    exact .steps (Config.next_again body next) (by rwa [List.append_nil])

/-- A basic command runs, or is stepped over where it is disabled. -/
theorem Follows.outcome_basic (hp : p.commands = T.flatten) {l : Leaf} {next : Tree}
    {ks : List Cont} {g : GameState} (h : Follows T p owner ⟨.basic l next, ks, g⟩ tr none s w) :
    Outcome T p owner ⟨.basic l next, ks, g⟩ tr none w.tick := by
  have hc : s.program.get? s.cursor = some l.command := by
    rw [h.get?_eq hp, h.focus.reads.head]
  cases he : l.enabled with
  | true =>
    apply h.leaf hp he hc rfl
    · rw [h.pending_eq]
      exact l.ticked_execute h.quiet
    · intro left _ t ht
      cases ht
  | false =>
    have hstep : Session.Steps { s with ticks := s.ticks + 1 } owner w.services.world
        (.report (.skipped s.cursor))
        { s with ticks := s.ticks + 1, cursor := s.cursor + 1 } w.services.world :=
      .skipped hc he
    have hnext : Follows T p owner ⟨next, ks, g⟩ (tr ++ []) none _ w.tick :=
      h.advance hstep (by rintro _ ⟨⟩) rfl h.focus.basic h.pending_eq h.program
        h.unpaused h.quiet
    exact .steps (Config.next_skipped he next) hnext

/-- A branch without an `else` runs its body or is passed. -/
theorem Follows.outcome_ifThen (hp : p.commands = T.flatten) {set : ConditionSet}
    {yes next : Tree} {ks : List Cont} {g : GameState}
    (h : Follows T p owner ⟨.ifThen set yes next, ks, g⟩ tr none s w) :
    Outcome T p owner ⟨.ifThen set yes next, ks, g⟩ tr none w.tick := by
  have hc := h.focus.reads.head
  rcases hg : g.evaluate owner set with ⟨outcome, g₁⟩
  cases outcome with
  | true =>
    obtain ⟨s', hs'⟩ := h.branch hp hc hg (goes_next h.focus.ifThen)
    exact .steps (Config.next_ifThen hg yes next) hs'
  | false =>
    obtain ⟨s', hs'⟩ := h.branch hp hc hg h.focus.goes_ifThenPassed
    exact .steps (Config.next_ifThenPassed hg yes next) hs'

/-- A branch with an `else` runs one of its bodies. -/
theorem Follows.outcome_ifElse (hp : p.commands = T.flatten) {set : ConditionSet}
    {yes no next : Tree} {ks : List Cont} {g : GameState}
    (h : Follows T p owner ⟨.ifElse set yes no next, ks, g⟩ tr none s w) :
    Outcome T p owner ⟨.ifElse set yes no next, ks, g⟩ tr none w.tick := by
  have hc := h.focus.reads.head
  rcases hg : g.evaluate owner set with ⟨outcome, g₁⟩
  cases outcome with
  | true =>
    obtain ⟨s', hs'⟩ := h.branch hp hc hg (goes_next h.focus.ifElse)
    exact .steps (Config.next_ifElse hg yes no next) hs'
  | false =>
    obtain ⟨s', hs'⟩ := h.branch hp hc hg h.focus.goes_alternative
    exact .steps (Config.next_ifElse hg yes no next) hs'

/-- An exit ends the session. -/
theorem Follows.outcome_exit (hp : p.commands = T.flatten) {next : Tree} {ks : List Cont}
    {g : GameState} (h : Follows T p owner ⟨.exit next, ks, g⟩ tr none s w) :
    Outcome T p owner ⟨.exit next, ks, g⟩ tr none w.tick := by
  have hc : s.program.get? s.cursor = some (.ofAction .exitEventProcessing) := by
    rw [h.get?_eq hp, h.focus.reads.head]
  have hrun : Session.runCommand (.ofAction .exitEventProcessing) s.pending owner
      w.services.world =
        ⟨.ok .completed, { Command.ofAction .exitEventProcessing with phase := .complete },
          w.services.world⟩ := by
    rw [h.pending_eq]
    rfl
  have hstep := Session.Steps.exited (s := { s with ticks := s.ticks + 1 }) hc rfl hrun.symm
    (by rintro _ ⟨⟩) rfl
  exact .exits rfl (h.complete hstep h.quiet.game)

/-- Every tick takes the step of the configuration, counts down, or ends the session where
there is no step. -/
theorem Follows.outcome (hp : p.commands = T.flatten) (ha : p.Accepted)
    (h : Follows T p owner c tr pending s w) : Outcome T p owner c tr pending w.tick := by
  cases pending with
  | some token => exact h.outcome_waiting hp
  | none =>
    obtain ⟨t, ks, g⟩ := c
    cases t with
    | done => exact h.outcome_done hp
    | basic l next => exact h.outcome_basic hp
    | ifThen set yes next => exact h.outcome_ifThen hp
    | ifElse set yes no next => exact h.outcome_ifElse hp
    | loop body next =>
      obtain ⟨s', hs'⟩ := h.marker hp h.focus.reads.head rfl rfl h.focus.goes_loop
      exact .steps (Config.next_loop body next) (by rwa [List.append_nil])
    | breakLoop next =>
      -- An accepted program has no break without a loop to leave.
      obtain ⟨t', ks', hu⟩ := h.focus.unwind_of_accepted ha hp
      obtain ⟨s', hs'⟩ := h.marker hp h.focus.reads.head rfl rfl (h.focus.goes_breakLoop hu)
      exact .steps (Config.next_breakLoop hu) (by rwa [List.append_nil])
    | exit next => exact h.outcome_exit hp

end Watch

end EventScript
