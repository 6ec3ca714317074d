import EventScript.Proofs.Session.Unpresented

/-!
# Programs without a way back

Without an enabled loop no frame is ever pushed, and without a jump every move of an empty control
stack goes forward: a branch and an `else` to their ends, a break to the end of the loop around it,
and the end of a loop to the next command. On a stage without a presenter only a countdown takes
more than one tick. So the ticks that are left to a session, at the command at its cursor and at
those behind it, become fewer in every tick.
-/

namespace EventScript

/-! ### Moves -/

namespace Program

open EventScript.Flow

variable {p : Program} {cursor next : Nat} {c : Command} {r : Resolution} {stack : ControlStack}

private theorem lt_of_moveTo {index : Nat} {rest : ControlStack} (hlt : cursor < index)
    (hr : (moveTo (.ok index), rest) = (.ok r, stack)) (hn : r.target cursor = some next) :
    cursor < next := by
  cases hr
  cases hn
  exact hlt

private theorem lt_of_advance {rest : ControlStack}
    (hr : ((.ok .advance, rest) : Except FlowError Resolution × ControlStack) = (.ok r, stack))
    (hn : r.target cursor = some next) : cursor < next := by
  cases hr
  cases hn
  exact Nat.lt_succ_self cursor

/-- No move but a jump goes back where no loop runs. -/
theorem lt_of_resolve (ha : p.Accepted) (hc : p.get? cursor = some c)
    (hk : c.kind ≠ .jumpToLabel) {memory : Memory}
    (hr : p.resolve (c.action.motion memory) cursor [] = (.ok r, stack))
    (hn : r.target cursor = some next) : cursor < next := by
  have hnest := ha.nest_kinds
  have hkind := getElem?_kinds hc
  rw [Command.kind] at hk hkind
  cases hact : c.action with
  | conditionalBranch set =>
    rw [hact] at hr hkind
    simp only [Action.motion] at hr
    split at hr
    · obtain ⟨index, hindex, hlt, -⟩ := skipFalseBranch_ok hnest hkind
      simp only [resolve, Flow.resolve, hindex] at hr
      exact lt_of_moveTo hlt hr hn
    · exact lt_of_advance hr hn
  | elseBranch =>
    rw [hact] at hr hkind
    obtain ⟨index, hindex, hlt, -⟩ := skipElseBody_ok hnest hkind
    simp only [Action.motion, resolve, Flow.resolve, hindex] at hr
    exact lt_of_moveTo hlt hr hn
  | breakLoop =>
    -- No frame tells the loop, so it is the one around the break, if need be a disabled one.
    have hopen := ha.breaks cursor (by rw [getElem?_actions hc, hact])
    rw [← kinds_eq] at hopen
    rw [hact] at hr hkind
    obtain ⟨index, hindex, hlt, -⟩ := findLoopExit_of_open hnest hkind hopen
    simp only [Action.motion, resolve, Flow.resolve, discardOutside, hindex] at hr
    exact lt_of_moveTo hlt hr hn
  | exitEventProcessing =>
    rw [hact] at hr
    cases hr
    cases hn
  | jumpToLabel label =>
    rw [hact] at hk
    exact absurd rfl hk
  | _ =>
    rw [hact] at hr
    exact lt_of_advance hr hn

/-- No enabled command opens a loop or jumps. -/
def Onward (p : Program) : Prop :=
  ∀ c ∈ p.commands, c.enabled = true → c.kind ≠ .loop ∧ c.kind ≠ .jumpToLabel

/-- The ticks that the commands from an index on take, each with its delay. -/
def ticksFrom (p : Program) (index : Nat) : Nat :=
  ((p.actions.drop index).map fun a => 1 + a.delay).sum

/-- A command takes a tick and its delay, and those behind it take theirs. -/
theorem ticksFrom_eq (hc : p.get? cursor = some c) :
    p.ticksFrom cursor = 1 + c.action.delay + p.ticksFrom (cursor + 1) := by
  obtain ⟨hlt, hget⟩ := List.getElem?_eq_some_iff.mp (getElem?_actions hc)
  rw [ticksFrom, List.drop_eq_getElem_cons hlt, hget, List.map_cons, List.sum_cons, ticksFrom]

/-- Behind the program no ticks are left. -/
theorem ticksFrom_eq_zero (h : p.get? cursor = none) : p.ticksFrom cursor = 0 := by
  have hlen := List.getElem?_eq_none_iff.mp h
  rw [ticksFrom, List.drop_eq_nil_of_le (by rwa [actions, List.length_map])]
  rfl

/-- The further on, the fewer ticks. -/
theorem ticksFrom_anti {i j : Nat} (h : i ≤ j) : p.ticksFrom j ≤ p.ticksFrom i := by
  obtain ⟨n, rfl⟩ := Nat.exists_eq_add_of_le h
  have hsplit := congrArg (fun l => (l.map fun a => 1 + a.delay).sum)
    (List.take_append_drop n (p.actions.drop i))
  simp only [List.map_append, List.sum_append, List.drop_drop] at hsplit
  unfold ticksFrom
  omega

/-- The ticks of a program are written of it. -/
theorem ticksFrom_of_written_eq {q : Program} (h : p.written = q.written) (index : Nat) :
    p.ticksFrom index = q.ticksFrom index := by
  rw [ticksFrom, actions_eq_of_written_eq h, ticksFrom]

end Program

/-! ### The ticks that are left -/

namespace Session

variable {p : Program} {s s' : Session} {c : Command} {owner : Owner} {w w' : World Stage}

/-- A command waits for a token only where it is enabled. -/
def WaitsEnabled (c : Command) (pending : Option Token) : Prop :=
  pending.isSome → c.enabled = true

/-- Ticks keep this. -/
theorem waitsEnabled_kept : KeptByTicks WaitsEnabled where
  disabled {c pending} h hd := by
    cases pending with
    | none => rfl
    | some token => rw [h rfl] at hd; cases hd
  suspended {_ _ c pending owner w _} _ he _ := fun _ =>
    (Command.enabled_eq_of_reset_eq (reset_runCommand c pending owner w)).trans he
  reset _ := by rintro ⟨⟩

/-- The ticks that are left to a session if it goes forward: those of the command at the cursor and
of all behind it. -/
def ahead (s : Session) : Nat :=
  match s.program.get? s.cursor with
  | some c => 1 + c.action.left s.pending + s.program.ticksFrom (s.cursor + 1)
  | none => 0

/-- At a command that is yet to start these are the ticks of the program from there on. -/
theorem ahead_eq_ticksFrom (h : s.pending = none) : s.ahead = s.program.ticksFrom s.cursor := by
  unfold ahead
  cases hc : s.program.get? s.cursor with
  | none => rw [Program.ticksFrom_eq_zero hc]
  | some c =>
    rw [Program.ticksFrom_eq hc, h]
    rfl

/-- Whoever leaves a command forward has fewer ticks left. -/
theorem ahead_lt_of_left (hc : s.program.get? s.cursor = some c)
    (hw : s'.program.written = s.program.written) (hnone : s'.pending = none)
    (hlt : s.cursor < s'.cursor) : s'.ahead < s.ahead := by
  calc s'.ahead
      = s.program.ticksFrom s'.cursor := by
        rw [ahead_eq_ticksFrom hnone, Program.ticksFrom_of_written_eq hw]
    _ ≤ s.program.ticksFrom (s.cursor + 1) := Program.ticksFrom_anti hlt
    _ < 1 + c.action.left s.pending + s.program.ticksFrom (s.cursor + 1) := by omega
    _ = s.ahead := by rw [ahead, hc]

/-- No loop runs in a session of a program without enabled loops. -/
theorem Sound.stack_eq_nil (hsound : s.Sound p)
    (hloops : ∀ c ∈ p.commands, c.enabled = true → c.kind ≠ .loop) : s.stack = [] := by
  refine List.eq_nil_iff_forall_not_mem.mpr fun f hf => ?_
  obtain ⟨c, hc, he⟩ := hsound.enabled f hf
  have hkind := (Program.getElem?_kinds hc).symm.trans (hsound.frames.loops f hf)
  exact hloops c (List.mem_of_getElem? hc) he (Option.some.inj hkind)

/-- A step of such a program goes forward where a command is left, and in any case fewer ticks are
left after it. -/
theorem Steps.forward {r : TickReport} (ha : p.Accepted) (hon : p.Onward) (hsound : s.Sound p)
    (horder : s.InOrder WaitsEnabled) (hw : w.host.presenter = .none)
    (hs : s.Steps owner w (.report r) s' w') :
    (r.isExecuted ∨ r.isSkipped → s.cursor < s'.cursor) ∧ s'.ahead < s.ahead := by
  have hwritten := hs.written
  cases hs with
  | skipped hc hd =>
    have hnone := waitsEnabled_kept.disabled (horder.here _ hc) hd
    have hlt := Nat.lt_succ_self s.cursor
    exact ⟨fun _ => hlt, ahead_lt_of_left hc hwritten hnone hlt⟩
  | @suspended c token ran hc he hran hr =>
    subst hran
    have hleft := (runCommand_silent c s.pending owner hw).2 token hr
    refine ⟨by simp, ?_⟩
    have haction := Command.action_eq_of_reset_eq (reset_runCommand c s.pending owner w)
    unfold ahead
    dsimp only
    rw [Program.get?_set_self hc, hc, Program.ticksFrom_of_written_eq hwritten]
    dsimp only
    have htoken : c.action.left (some token) = token := rfl
    rw [haction, hleft, htoken]
    omega
  | @executed c ran _ stack next hc he hran hr hm hn =>
    subst hran
    obtain ⟨d, hd, hreset⟩ := hsound.get?_eq hc
    have hkind : c.kind = d.kind := congrArg Action.kind (Command.action_eq_of_reset_eq hreset.symm)
    have hone := hon d (List.mem_of_getElem? hd)
      ((Command.enabled_eq_of_reset_eq hreset).trans he)
    rw [hsound.stack_eq_nil fun c hc he => (hon c hc he).1, Command.motion,
      Command.action_eq_of_reset_eq (reset_runCommand c s.pending owner w)] at hm
    have hlt : s.cursor < next := Program.lt_of_resolve (ha.of_written_eq hsound.written.symm) hc
      (by rw [hkind]; exact hone.2) hm hn
    exact ⟨fun _ => hlt, ahead_lt_of_left hc hwritten rfl hlt⟩

/-- The last step of such a session comes behind the program or at an exit. -/
theorem Steps.reason_of_complete {reason : CompletionReason} (ha : p.Accepted)
    (hsound : s.Sound p) (hs : s.Steps owner w (.complete reason) s' w') :
    reason = .endOfProgram ∨ reason = .exited := by
  cases reason with
  | endOfProgram => exact .inl rfl
  | exited => exact .inr rfl
  | faulted => exact absurd hs (hsound.not_faulted ha)

end Session

/-! ### Runs -/

/-- The turn reports the completion of its session, which came to its end and did not fail. -/
def Turn.Ends {η : Type} [Host η] (t : Turn η) : Prop :=
  ∃ done, t.report = .completed done ∧ (done.reason = .endOfProgram ∨ done.reason = .exited)

/-- What a turn of a session that goes forward can come to. -/
inductive Turn.Forward (t : Turn Stage) (s : Session) : Prop
  | paused (hr : t.report = .paused) (hs : t.reply.interpreter.session = some s)
  | ended (h : t.Ends)
  | advanced {s' : Session} (hs : t.reply.interpreter.session = some s')
    (hlt : s'.ahead < s.ahead)
    (hcursor : t.report.isExecuted ∨ t.report.isSkipped → s.cursor < s'.cursor)

namespace Turn

variable {t : Turn Stage}

/-- Without a tick limit every turn is one of these. -/
theorem forward {p : Program} {s : Session} (ha : p.Accepted) (hon : p.Onward)
    (hlimit : t.interpreter.config.maxTicks = none) (hs : t.interpreter.session = some s)
    (hsound : s.Sound p) (horder : s.InOrder Session.WaitsEnabled)
    (hquiet : t.services.world.host.presenter = .none) : t.Forward s := by
  have hu := t.updates
  have hreport : t.report = t.reply.result := rfl
  generalize hreply : t.reply = reply at hu hreport
  cases hu with
  | inactive hnone =>
    rw [hs] at hnone
    cases hnone
  | paused => exact .paused hreport (by rw [hreply, hs])
  | limited _ _ hl =>
    rw [hlimit] at hl
    cases hl
  | advanced hs' _ _ hstep =>
    obtain rfl := Option.some.inj (hs.symm.trans hs')
    obtain ⟨hcursor, hlt⟩ :=
      hstep.forward ha hon (hsound.ticks (s.ticks + 1)) (horder.clock (s.ticks + 1)) hquiet
    exact .advanced (by rw [hreply]) hlt (by rw [hreport]; exact hcursor)
  | ended hs' _ _ hstep =>
    obtain rfl := Option.some.inj (hs.symm.trans hs')
    exact .ended ⟨_, hreport, hstep.reason_of_complete ha (hsound.ticks (s.ticks + 1))⟩

end Turn

namespace Interpreter

variable {i j : Interpreter} {p : Program} {notify : Bool} {ts : List (Turn Stage)}

/-- A run goes forward turn by turn: each of its turns that has a session is one of these. -/
theorem Takes.forward_of_mem (ha : p.Accepted) (hon : p.Onward) (hlimit : i.config.maxTicks = none)
    (h : (i.begin p notify).Takes ts j) {t : Turn Stage} (ht : t ∈ ts)
    (hquiet : t.services.world.host.presenter = .none) {s : Session}
    (hs : t.interpreter.session = some s) : t.Forward s := by
  have hreaches := h.reaches_of_mem ht
  have horder : s.InOrder Session.WaitsEnabled :=
    .of_reaches Session.waitsEnabled_kept (fun _ _ _ => by rintro ⟨⟩) hreaches hs
  have hunlimited : t.interpreter.config.maxTicks = none := by rw [hreaches.config]; exact hlimit
  exact t.forward ha hon hunlimited hs (.of_reaches ha hreaches hs) horder hquiet

/-- Until its end is reported, the ticks that a run has taken and those that are left make up no
more than the ticks of its program. -/
theorem Takes.ended_or_ahead (ha : p.Accepted) (hon : p.Onward) (hlimit : i.config.maxTicks = none)
    (h : (i.begin p notify).Takes ts j)
    (hquiet : ∀ t ∈ ts, t.services.world.host.presenter = .none) :
    (∃ t ∈ ts, t.Ends) ∨
      ∃ s, j.session = some s ∧
        (ts.map Turn.report).countP TickReport.isTick + s.ahead ≤ p.ticksFrom 0 := by
  induction h with
  | refl =>
    refine .inr ⟨_, rfl, ?_⟩
    rw [Session.ahead_eq_ticksFrom rfl]
    simp [Session.start]
  | @update ts j services h ih =>
    rcases ih fun t ht => hquiet t (List.mem_append_left _ ht) with ⟨t, ht, hend⟩ | ⟨s, hs, hle⟩
    · exact .inl ⟨t, List.mem_append_left _ ht, hend⟩
    · have hlast : (⟨j, services⟩ : Turn Stage) ∈ ts ++ [⟨j, services⟩] := by simp
      rw [List.map_append, List.countP_append, List.map_singleton, List.countP_singleton]
      cases (h.update services).forward_of_mem ha hon hlimit hlast (hquiet _ hlast) hs with
      | paused hr hs' =>
        rw [hr]
        exact .inr ⟨s, hs', hle⟩
      | ended hend => exact .inl ⟨_, hlast, hend⟩
      | advanced hs' hlt =>
        refine .inr ⟨_, hs', ?_⟩
        split <;> omega
  | @setPaused ts j paused h ih =>
    rcases ih hquiet with hend | ⟨s, hs, hle⟩
    · exact .inl hend
    · exact .inr ⟨{ s with paused }, by rw [Interpreter.setPaused, hs]; rfl, hle⟩

end Interpreter

namespace Interpreter

/-- A program in which no loop and no jump is enabled comes to its end. Wherever updates on stages
without a presenter lead, with whatever else happens to the world between them, each update that
executes or skips a command increases the cursor, and the stage stays without a presenter. Once
there are as many ticks as the program has commands and delays, and one more, one of them has
reported the completion, behind the last command or at an exit. So one of that many updates alone
does. -/
theorem forward_program_ends {i : Interpreter} {commands : List Command} {p : Program}
    {notify : Bool} (hp : Program.ofCommands commands = .ok p)
    (hon : ∀ c ∈ commands, c.enabled = true → c.kind ≠ .loop ∧ c.kind ≠ .jumpToLabel)
    (hlimit : i.config.maxTicks = none) :
    let bound := 1 + (commands.map fun c => 1 + c.action.delay).sum
    (∀ (ts : List (Turn Stage)) (j : Interpreter), (i.begin p notify).Takes ts j →
      (∀ t ∈ ts, t.services.world.host.presenter = .none) →
      (∀ t ∈ ts, t.reply.services.world.host.presenter = .none ∧
        (t.report.isExecuted ∨ t.report.isSkipped → ∃ before after,
          t.interpreter.cursor? = some before ∧ t.reply.interpreter.cursor? = some after ∧
          before < after)) ∧
      (bound ≤ (ts.map Turn.report).countP TickReport.isTick → ∃ t ∈ ts, t.Ends)) ∧
    ∀ services : Services Stage, services.world.host.presenter = .none →
      let w : Watch Stage := { interpreter := i.begin p notify, services }
      ∃ n ≤ bound, (w.after n).ended = some .endOfProgram ∨ (w.after n).ended = some .exited := by
  obtain ⟨rfl, ha⟩ := Program.accepted_of_ofCommands hp
  intro bound
  have hbound : bound = 1 + p.ticksFrom 0 := by
    simp [bound, Program.ticksFrom, Program.actions, Function.comp_def]
  have hends : ∀ (ts : List (Turn Stage)) (j : Interpreter), (i.begin p notify).Takes ts j →
      (∀ t ∈ ts, t.services.world.host.presenter = .none) →
      bound ≤ (ts.map Turn.report).countP TickReport.isTick → ∃ t ∈ ts, t.Ends := by
    intro ts j h hquiet hle
    rcases h.ended_or_ahead ha hon hlimit hquiet with hend | ⟨s, -, hahead⟩
    · exact hend
    · omega
  refine ⟨fun ts j h hquiet => ⟨fun t ht => ⟨?_, ?_⟩, hends ts j h hquiet⟩, ?_⟩
  · have hconfig := (h.reaches_of_mem ht).config
    exact t.presenter (by rw [hconfig]; exact hlimit) (hquiet t ht)
  · intro hleft
    cases hs : t.interpreter.session with
    | none =>
      have hreply : t.reply = _ := update_of_inactive hs t.services
      simp [Turn.report, hreply] at hleft
    | some s =>
      cases h.forward_of_mem ha hon hlimit ht (hquiet t ht) hs with
      | paused hr => simp [hr] at hleft
      | ended hend =>
        obtain ⟨done, hr, -⟩ := hend
        simp [hr] at hleft
      | advanced hs' _ hcursor =>
        exact ⟨_, _, by rw [cursor?, hs]; rfl, by rw [cursor?, hs']; rfl, hcursor hleft⟩
  · intro services hquiet w
    have hrun := hends (w.turns bound) _ (w.takes bound)
    have hall := Watch.presenter_of_mem_turns (w := w) hlimit hquiet (n := bound)
    obtain ⟨t, ht, done, hr, hreason⟩ := hrun hall (by rw [w.countP_turns rfl])
    obtain ⟨m, hm, rfl⟩ := List.mem_map.mp ht
    refine ⟨m + 1, List.mem_range.mp hm, ?_⟩
    have hresult : ((w.after m).interpreter.update (w.after m).services).result =
      .completed done := hr
    have hended : (w.after (m + 1)).ended = some done.reason := by
      simp only [Watch.after, Watch.tick, hresult]
    rw [hended]
    rcases hreason with hreason | hreason
    · exact .inl (by rw [hreason])
    · exact .inr (by rw [hreason])

/-- A disabled loop with a break and an end that are not, a branch that holds and a wait of one
tick: seven updates of at most thirteen. The break leaves the loop although it does not run. -/
theorem forward_program_ends_break :
    let commands : List Command := [(Command.ofAction .loop).disable, .ofAction .breakLoop,
      .ofAction (.wait 3), .ofAction .endLoop, .ofAction (.conditionalBranch {}),
      .ofAction .elseBranch, .ofAction .endIf, .ofAction (.wait 1)]
    let w : Watch Stage :=
      { interpreter := Interpreter.begin {} ⟨commands, {}⟩ true, services := ⟨{}, ⟨{}, {}⟩⟩ }
    (w.turns 7).map Turn.report = [.skipped 0, .executed 1 .breakLoop 4,
        .executed 4 .conditionalBranch 5, .executed 5 .elseBranch 7, .suspended 7,
        .executed 7 .wait 8, .completed ⟨.global, .endOfProgram, 7, 4⟩] ∧
      (∀ t ∈ w.turns 7, t.report.isExecuted ∨ t.report.isSkipped → ∃ before after,
        t.interpreter.cursor? = some before ∧ t.reply.interpreter.cursor? = some after ∧
        before < after) ∧
      (∃ t ∈ w.turns 13, t.Ends) ∧
      ∃ n ≤ 13, (w.after n).ended = some .endOfProgram ∨ (w.after n).ended = some .exited := by
  intro commands w
  have hp : Program.ofCommands commands = .ok ⟨commands, {}⟩ := rfl
  have hon : ∀ c ∈ commands, c.enabled = true → c.kind ≠ .loop ∧ c.kind ≠ .jumpToLabel := by
    decide
  have hquiet (n : Nat) : ∀ t ∈ w.turns n, t.services.world.host.presenter = .none :=
    Watch.presenter_of_mem_turns rfl rfl
  obtain ⟨hruns, hwatched⟩ := @forward_program_ends {} commands _ true hp hon rfl
  refine ⟨by decide +kernel, ?_, ?_, hwatched _ rfl⟩
  · intro t ht
    exact ((hruns _ _ (w.takes 7) (hquiet 7)).1 t ht).2
  · exact (hruns _ _ (w.takes 13) (hquiet 13)).2 (Nat.le_of_eq (w.countP_turns rfl 13).symm)

end Interpreter

end EventScript
