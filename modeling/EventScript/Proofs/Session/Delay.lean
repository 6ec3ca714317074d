import EventScript.Proofs.Command.Delay
import EventScript.Proofs.Session.Reports

/-!
# Delays take their full time

A session whose cursor comes to a wait stays there for as many ticks as are written, and one more.
`Session.Counts` is the state after some of them: the token holds what is left. A pause in between
leaves that state alone, and since every command that is left is reset, a wait that is entered once
more starts with its full delay again.
-/

namespace EventScript

namespace Session

/-- The session counts down the command `c` at `index`, `passed` ticks after it stood there without
a token at `clock`. -/
structure Counts (c : Command) (index clock passed : Nat) (s : Session) : Prop where
  cursor : s.cursor = index
  command : ∃ d, s.program.get? index = some d ∧ d.reset = c.reset ∧ d.InPhase s.pending
  left : c.action.left s.pending + passed = c.action.delay
  started : s.pending = none ↔ passed = 0
  ticks : s.ticks = clock + passed

namespace Counts

variable {c : Command} {index clock passed : Nat} {s : Session}

/-- A pause or its end leaves the countdown alone. -/
theorem paused (h : s.Counts c index clock passed) (b : Bool) :
    Counts c index clock passed { s with paused := b } :=
  ⟨h.cursor, h.command, h.left, h.started, h.ticks⟩

variable {η : Type} [Host η]

/-- The effect is requested in the first tick. -/
theorem request?_eq (h : s.Counts c index clock passed) :
    c.action.request? s.pending = if passed = 0 then c.action.effect? else none := by
  have hstarted := h.started
  cases hpending : s.pending with
  | none => rw [if_pos (hstarted.mp hpending), Action.request?]
  | some token =>
    have hlater : passed ≠ 0 := fun hzero => by simp [hstarted.mpr hzero] at hpending
    rw [if_neg hlater, Action.request?]

/-- The tick of a countdown, once the clock has gone on. -/
theorem runCommand_eq (h : s.Counts c index clock passed) (hcounts : c.action.counts = true)
    (owner : Owner) (w : World η) :
    ∃ d, s.program.get? s.cursor = some d ∧ d.reset = c.reset ∧
      runCommand d s.pending owner w = d.settle
        ⟨.ok (countdown (c.action.left s.pending)), d.memory,
          w.requesting (if passed = 0 then c.action.effect? else none)⟩ := by
  obtain ⟨d, hd, hreset, hphase⟩ := h.command
  have haction := Command.action_eq_of_reset_eq hreset
  rw [← h.cursor] at hd
  refine ⟨d, hd, hreset, ?_⟩
  rw [runCommand_of_counts hphase (by rw [haction, hcounts]), haction, h.request?_eq]

/-- While ticks are left the session is suspended and goes on counting. -/
theorem suspends (h : s.Counts c index clock passed) (he : c.enabled = true)
    (hcounts : c.action.counts = true) (hlt : passed < c.action.delay) (owner : Owner)
    (w : World η) :
    ∃ s', Steps { s with ticks := s.ticks + 1 } owner w (.report (.suspended index)) s'
      (w.requesting (if passed = 0 then c.action.effect? else none)) ∧
      s'.Counts c index clock (passed + 1) := by
  obtain ⟨d, hd, hreset, hrun⟩ := h.runCommand_eq hcounts owner w
  obtain rfl := h.cursor
  obtain ⟨left, hleft⟩ : ∃ left, c.action.left s.pending = left + 1 :=
    Nat.exists_eq_add_of_le' (by have hsum := h.left; omega)
  rw [hleft] at hrun
  have henabled := (Command.enabled_eq_of_reset_eq hreset).trans he
  have hstep := @Steps.suspended _ _ { s with ticks := s.ticks + 1 } owner w d left _ hd henabled
    hrun.symm rfl
  refine ⟨_, hstep, rfl, ⟨_, Program.get?_set_self hd _, ?_, ?_⟩, ?_, ?_, ?_⟩
  · exact hreset
  · exact ⟨rfl, fun _ => henabled⟩
  · have hsum := h.left
    rw [hleft] at hsum
    change left + (passed + 1) = _
    omega
  · simp
  · have hticks := h.ticks
    change s.ticks + 1 = _
    omega

/-- When none are left the command has ended. -/
theorem executes (h : s.Counts c index clock passed) (he : c.enabled = true)
    (hcounts : c.action.counts = true) (heq : passed = c.action.delay) (owner : Owner)
    (w : World η) :
    ∃ s', Steps { s with ticks := s.ticks + 1 } owner w
      (.report (.executed index c.kind (index + 1))) s'
      (w.requesting (if passed = 0 then c.action.effect? else none)) := by
  obtain ⟨d, hd, hreset, hrun⟩ := h.runCommand_eq hcounts owner w
  obtain rfl := h.cursor
  have hleft : c.action.left s.pending = 0 := by
    have hsum := h.left
    omega
  rw [hleft] at hrun
  have haction := Command.action_eq_of_reset_eq hreset
  have henabled := (Command.enabled_eq_of_reset_eq hreset).trans he
  have hmotion : d.motion = .next := Action.motion_of_counts (by rw [haction, hcounts]) d.memory
  have hmove : s.program.resolve d.motion s.cursor s.stack = (.ok .advance, s.stack) := by
    rw [hmotion]
    rfl
  have hstep := Steps.executed (s := { s with ticks := s.ticks + 1 }) hd henabled hrun.symm
    (by rintro token ⟨⟩) hmove rfl
  rw [show c.kind = d.kind from (congrArg Action.kind haction).symm]
  exact ⟨_, hstep⟩

end Counts

end Session

namespace Interpreter

/-- The tick limit admits some number of ticks. -/
theorem overLimit_eq_none_iff {i : Interpreter} {ticks : Nat} :
    i.overLimit ticks = none ↔ ∀ limit, i.config.maxTicks = some limit → ticks ≤ limit := by
  rw [overLimit, Option.filter_eq_none_iff]
  simp

end Interpreter

/-- A turn at a command that counts down, when `passed` ticks of it have passed. -/
inductive Turn.Counts {η : Type} [Host η] (t : Turn η) (c : Command) (index clock passed : Nat) :
    Prop
  /-- The session is paused and nothing happens. -/
  | paused (hr : t.report = .paused) (hs : t.reply.services = t.services)
    (h : ∃ s, t.reply.interpreter.session = some s ∧ s.Counts c index clock passed)
  | suspended (hlt : passed < c.action.delay) (hr : t.report = .suspended index)
    (hw : t.reply.services.world = t.services.world.requesting
      (if passed = 0 then c.action.effect? else none))
    (h : ∃ s, t.reply.interpreter.session = some s ∧ s.Counts c index clock (passed + 1))
  | executed (heq : passed = c.action.delay) (hr : t.report = .executed index c.kind (index + 1))
    (hw : t.reply.services.world = t.services.world.requesting
      (if passed = 0 then c.action.effect? else none))

/-- Every turn at such a command is one of these, within the tick limit. -/
theorem Turn.counts {η : Type} [Host η] {t : Turn η} {s : Session} {c : Command}
    {index clock passed : Nat} (hs : t.interpreter.session = some s)
    (h : s.Counts c index clock passed) (he : c.enabled = true) (hcounts : c.action.counts = true)
    (hlimit : t.interpreter.overLimit (s.ticks + 1) = none) :
    t.Counts c index clock passed := by
  cases hp : s.paused with
  | true =>
    have hreply : t.reply = _ := Interpreter.update_of_paused hs hp t.services
    exact .paused (by rw [report, hreply]) (by rw [hreply]) ⟨s, by rw [hreply, hs], h⟩
  | false =>
    have hle : passed ≤ c.action.delay := by
      have hsum := h.left
      omega
    rcases Nat.lt_or_eq_of_le hle with hlt | heq
    · obtain ⟨s', hstep, hnext⟩ := h.suspends he hcounts hlt t.interpreter.owner t.services.world
      have hreply : t.reply = _ := Interpreter.update_of_report hs hp hlimit hstep
      exact .suspended hlt (by rw [report, hreply]) (by rw [hreply])
        ⟨s', by rw [hreply], hnext⟩
    · obtain ⟨s', hstep⟩ := h.executes he hcounts heq t.interpreter.owner t.services.world
      have hreply : t.reply = _ := Interpreter.update_of_report hs hp hlimit hstep
      exact .executed heq (by rw [report, hreply]) (by rw [hreply])

namespace Interpreter

variable {η : Type} [Host η]

/-- An interpreter that comes to a command which counts down stays there until its delay is over,
however long it is paused in between. -/
theorem Takes.counts {i j : Interpreter} {ts : List (Turn η)} {s₀ : Session} {c : Command}
    {index clock : Nat} (hs₀ : i.session = some s₀) (hstart : s₀.Counts c index clock 0)
    (he : c.enabled = true) (hcounts : c.action.counts = true)
    (hlimit : ∀ limit, i.config.maxTicks = some limit → clock + c.action.delay + 1 ≤ limit)
    (h : i.Takes ts j)
    (hle : (ts.map Turn.report).countP TickReport.isTick ≤ c.action.delay) :
    j.config = i.config ∧ ∃ s, j.session = some s ∧
      s.Counts c index clock ((ts.map Turn.report).countP TickReport.isTick) := by
  refine ⟨h.reaches.config, ?_⟩
  induction h with
  | refl => exact ⟨s₀, hs₀, hstart⟩
  | @update ts j services h ih =>
    rw [List.map_append, List.countP_append] at hle ⊢
    obtain ⟨s, hs, hcount⟩ := ih (Nat.le_trans (Nat.le_add_right _ _) hle)
    have hadmits : j.overLimit (s.ticks + 1) = none := by
      rw [overLimit_eq_none_iff, h.reaches.config]
      intro limit hl
      have hmax := hlimit limit hl
      have hticks := hcount.ticks
      omega
    cases Turn.counts (t := ⟨j, services⟩) hs hcount he hcounts hadmits with
    | paused hr _ hnext =>
      simp only [List.map_cons, List.map_nil, hr]
      exact hnext
    | suspended _ hr _ hnext =>
      simp only [List.map_cons, List.map_nil, hr]
      exact hnext
    | executed heq hr =>
      simp only [List.map_cons, List.map_nil, hr] at hle
      simp only [List.countP_singleton, TickReport.isTick, if_true] at hle
      omega
  | @setPaused ts j b _ ih =>
    obtain ⟨s, hs, hcount⟩ := ih hle
    exact ⟨_, by rw [Interpreter.setPaused, hs]; rfl, hcount.paused b⟩

/-- Whoever comes to a command by leaving another one has no token for it yet. -/
theorem pending_of_arrived {i : Interpreter} {s : Session} (hs : i.session = some s)
    (hinOrder : s.InOrder Command.InPhase) (services : Services η)
    (h : (Turn.mk i services).report.isExecuted ∨ (Turn.mk i services).report.isSkipped) :
    ∃ s', (Turn.mk i services).reply.interpreter.session = some s' ∧ s'.pending = none := by
  have hu := (Turn.mk i services).updates
  unfold Turn.report at h
  generalize (Turn.mk i services).reply = reply at hu h ⊢
  cases hu with
  | inactive | paused | limited | ended => simp [complete] at h
  | advanced hs' _ _ hstep =>
    obtain rfl := Option.some.inj (hs.symm.trans hs')
    cases hstep with
    | skipped hc hd => exact ⟨_, rfl, Session.inPhase_kept.disabled (hinOrder.here _ hc) hd⟩
    | suspended => simp at h
    | executed => exact ⟨_, rfl, rfl⟩

/-- Delays are exact, in every state of a run of an idle program. A session that comes to a command
has no token for it. Where an enabled wait, or a screen effect, stands at the cursor without a token
and the limit admits it, let `passed` unpaused updates have been made since, however many paused
ones. Up to the delay of the command the next one is suspended there; after as many it executes the
command and the next command follows. None of them changes the game, and none asks anything of the
host but the first, which requests the effect, if the command has one. -/
theorem delay_is_exact {i j : Interpreter} {p : Program} {notify : Bool} {s : Session}
    (hp : ∀ d ∈ p.commands, d.phase = .idle) (h : (i.begin p notify).Reaches j)
    (hs : j.session = some s) :
    (∀ services : Services η, let t : Turn η := ⟨j, services⟩
      t.report.isExecuted ∨ t.report.isSkipped →
      ∃ s', t.reply.interpreter.session = some s' ∧ s'.pending = none) ∧
    ∀ c : Command, s.program.get? s.cursor = some c → c.enabled = true →
      c.action.counts = true → s.pending = none →
      (∀ limit, j.config.maxTicks = some limit → s.ticks + c.action.delay + 1 ≤ limit) →
      ∀ (front rest : List (Turn η)) (t : Turn η) (k : Interpreter),
        j.Takes (front ++ t :: rest) k →
        let passed := (front.map Turn.report).countP TickReport.isTick
        passed ≤ c.action.delay →
        (t.report = .paused → t.reply.services = t.services) ∧
        (t.report ≠ .paused →
          t.report = (if passed < c.action.delay then .suspended s.cursor
            else .executed s.cursor c.kind (s.cursor + 1)) ∧
          t.reply.services.world.game = t.services.world.game ∧
          t.reply.services.world = t.services.world.requesting
            (if passed = 0 then c.action.effect? else none)) := by
  have hinOrder : s.InOrder Command.InPhase := by
    refine .of_reaches Session.inPhase_kept ?_ h hs
    exact fun _ d hd => ⟨hp d (List.mem_of_getElem? hd), fun hsome => by cases hsome⟩
  refine ⟨pending_of_arrived hs hinOrder, ?_⟩
  intro c hc he hcounts hnone hlimit front rest t k htakes passed hpassed
  have hphase := hinOrder.here c hc
  have hstart : s.Counts c s.cursor s.ticks 0 :=
    ⟨rfl, ⟨c, hc, rfl, hphase⟩, by rw [hnone]; rfl, by simp [hnone], rfl⟩
  obtain ⟨hconfig, s', hs', hcount⟩ :=
    htakes.before.counts hs hstart he hcounts hlimit hpassed
  have hadmits : t.interpreter.overLimit (s'.ticks + 1) = none := by
    rw [overLimit_eq_none_iff, hconfig]
    intro limit hl
    have hmax := hlimit limit hl
    have hticks := hcount.ticks
    omega
  cases Turn.counts hs' hcount he hcounts hadmits with
  | paused hr hkept => exact ⟨fun _ => hkept, fun hticked => absurd hr hticked⟩
  | suspended hlt hr hw =>
    refine ⟨?_, fun _ => ⟨?_, ?_, hw⟩⟩
    · intro hpaused
      rw [hr] at hpaused
      cases hpaused
    · rw [hr, if_pos hlt]
    · rw [hw, World.game_requesting]
  | executed heq hr hw =>
    refine ⟨?_, fun _ => ⟨?_, ?_, hw⟩⟩
    · intro hpaused
      rw [hr] at hpaused
      cases hpaused
    · rw [hr, if_neg (by omega)]
    · rw [hw, World.game_requesting]

/-- A fade of two ticks in a loop, at its second visit and with a pause in the middle: it is
suspended twice and then executed, and the effect is requested in the first of these updates. -/
theorem delay_is_exact_again :
    let fade : Command := .ofAction (.fadeScreen (.waiting .outward 2))
    let p : Program := ⟨[.ofAction .loop, fade, .ofAction .endLoop], {}⟩
    let services : Services Stage := ⟨{}, ⟨{}, { presenter := .recording {} }⟩⟩
    let tick := fun i : Interpreter => (i.update services).interpreter
    let j := tick (tick (tick (tick (tick (Interpreter.begin {} p true)))))
    let turn := fun i : Interpreter => Turn.mk i services
    let first := turn j
    let paused := turn ((tick j).setPaused true)
    let second := turn ((tick ((tick j).setPaused true)).setPaused false)
    let last := turn (tick second.interpreter)
    j.Takes [first, paused, second, last] (tick last.interpreter) ∧
      first.report = .suspended 1 ∧
      first.reply.services.world.host.presenter =
        .recording { events := [.screen (.fade .outward 2)] } ∧
      paused.report = .paused ∧ second.report = .suspended 1 ∧
      second.reply.services.world = services.world ∧ last.report = .executed 1 .fadeScreen 2 := by
  intro fade p services tick j turn first paused second last
  have hp : ∀ d ∈ p.commands, d.phase = .idle := by decide
  have hj : (Interpreter.begin {} p true).Reaches j :=
    ((((Reaches.refl.update services).update services).update services).update services).update
      services
  have hseen : (j.session.map fun s => (s.cursor, s.pending, s.program.get? s.cursor)) =
      some (1, none, some fade) := by decide +kernel
  have hlimit : j.config.maxTicks = none := by rw [hj.config]; rfl
  have hpaused : paused.report = .paused := by decide +kernel
  have hticks : first.report ≠ .paused ∧ second.report ≠ .paused ∧ last.report ≠ .paused := by
    decide +kernel
  have hone : ([first, paused].map Turn.report).countP TickReport.isTick = 1 := by
    decide +kernel
  have htwo : ([first, paused, second].map Turn.report).countP TickReport.isTick = 2 := by
    decide +kernel
  -- From here on the run goes its way from `j`, however that was reached.
  clear_value j
  obtain ⟨s, hs, hat⟩ := Option.map_eq_some_iff.mp hseen
  obtain ⟨hcursor, hrest⟩ := Prod.mk.inj hat
  obtain ⟨hnone, hc⟩ := Prod.mk.inj hrest
  have htakes : j.Takes [first, paused, second, last] (tick last.interpreter) :=
    (((((Takes.refl.update services).setPaused true).update services).setPaused false).update
      services).update services
  have hexact := (delay_is_exact (η := Stage) hp hj hs).2 fade hc rfl rfl hnone
    (by rw [hlimit]; rintro _ ⟨⟩)
  rw [hcursor] at hexact
  obtain ⟨hfirst, -, hworld⟩ := (hexact [] _ first _ htakes (by decide)).2 hticks.1
  obtain ⟨hsecond, -, hkept⟩ :=
    (hexact [first, paused] [last] second _ htakes (by rw [hone]; decide)).2 hticks.2.1
  obtain ⟨hlast, -, -⟩ :=
    (hexact [first, paused, second] [] last _ htakes (by rw [htwo]; decide)).2 hticks.2.2
  rw [hone] at hsecond hkept
  rw [htwo] at hlast
  refine ⟨htakes, hfirst, ?_, hpaused, hsecond, hkept, hlast⟩
  rw [hworld]
  rfl

/-- That the commands are idle at the start is needed. A wait that was aborted before makes a
program and starts a session like any other, and the session comes to it enabled, without a token
and within the limit. But it cannot run again, and the first update passes it. -/
theorem aborted_wait_passed :
    let services : Services Stage := ⟨{}, ⟨{}, {}⟩⟩
    let wait := ((Command.ofAction (.wait 3)).abort services.world).2.1
    let p : Program := ⟨[wait], {}⟩
    let i := Interpreter.begin {} p true
    Program.ofCommands [wait] = .ok p ∧
      (startProgram {} p true services).result = .ok () ∧
      (startProgram {} p true services).interpreter = i ∧
      (Turn.mk i services).report = .executed 0 .wait 1 ∧
      ¬ ∀ (j : Interpreter) (s : Session) (c : Command), i.Reaches j → j.session = some s →
        s.program.get? s.cursor = some c → c.enabled = true → c.action.counts = true →
        s.pending = none →
        (∀ limit, j.config.maxTicks = some limit → s.ticks + c.action.delay + 1 ≤ limit) →
        0 < c.action.delay → (Turn.mk j services).report ≠ .paused →
        (Turn.mk j services).report = .suspended s.cursor := by
  intro services wait p i
  have hreport : (Turn.mk i services).report = .executed 0 .wait 1 := by decide +kernel
  refine ⟨rfl, rfl, rfl, hreport, fun hclaim => ?_⟩
  have hsuspended := hclaim i (.start p true) wait .refl rfl rfl rfl rfl rfl
    (by rintro _ ⟨⟩) (by decide) (by rw [hreport]; rintro ⟨⟩)
  rw [hreport] at hsuspended
  cases hsuspended

end Interpreter

end EventScript
