import EventScript.Proofs.Scheduler.Turn
import EventScript.Proofs.Session.Checks
import EventScript.Proofs.Session.ControlStack
import Mathlib.Algebra.Ring.Nat
import Mathlib.Data.List.Induction

/-!
# What the reports of a run tell

`Interpreter.Takes` is a run with its updates, each as the turn that it is: the interpreter before
it and the services that it meets. The reports of the updates are a full account of the run. Each
says where the cursor was and where it went; the ticks and executed commands that a session counts
are those reported, and so are the branches for which the game was asked.
-/

namespace EventScript

namespace TickReport

/-- The update was not paused. -/
@[simp] def isTick : TickReport → Bool
  | paused => false
  | _ => true

/-- A disabled command was stepped over. -/
@[simp] def isSkipped : TickReport → Bool
  | skipped _ => true
  | _ => false

/-- A command needs more ticks. -/
@[simp] def isSuspended : TickReport → Bool
  | suspended _ => true
  | _ => false

/-- A command completed and the cursor went on. -/
@[simp] def isExecuted : TickReport → Bool
  | executed _ _ _ => true
  | _ => false

/-- A command of the kind completed and the cursor went on. -/
@[simp] def executes (kind : Kind) : TickReport → Bool
  | executed _ kind' _ => kind' == kind
  | _ => false

/-- What a report says of the cursor before the update and after it. -/
def Moves (before after : Option Nat) : TickReport → Prop
  | skipped index => before = some index ∧ after = some (index + 1)
  | suspended index => before = some index ∧ after = some index
  | executed index _ next => before = some index ∧ after = some next
  | inactive | paused => after = before
  | completed _ => after = none

end TickReport

namespace Turn

variable {η : Type} [Host η]

/-- What is reported of the turn. -/
def report (t : Turn η) : TickReport := t.reply.result

/-- The number of condition sets that the game was asked for in the turn. -/
def checks (t : Turn η) : Nat :=
  t.reply.services.world.game.checks - t.services.world.game.checks

/-- Every report tells how the cursor moved. -/
theorem moves (t : Turn η) :
    t.report.Moves t.interpreter.cursor? t.reply.interpreter.cursor? := by
  have hu := t.updates
  unfold report
  generalize t.reply = reply at hu ⊢
  cases hu with
  | inactive | paused | limited | ended => rfl
  | advanced hs _ _ hstep =>
    have hcursor := congrArg (Option.map Session.cursor) hs
    cases hstep <;> exact ⟨hcursor, rfl⟩

end Turn

namespace Session

variable {η : Type} [Host η] {p : Program} {s s' : Session} {owner : Owner} {w w' : World η}

private theorem checks_reported (s : Session) (owner : Owner) (c : Command) (ran : Ran η) :
    (s.reported owner c ran).game.checks = ran.world.game.checks := by
  unfold reported
  split <;> rfl

private theorem resolve_ne_halt {q : Program} {c : Command} (hk : c.kind = .conditionalBranch)
    (cursor : Nat) (stack : ControlStack) :
    (q.resolve c.motion cursor stack).1 ≠ .ok .halt := by
  unfold Command.motion Program.resolve
  cases ha : c.action with
  | conditionalBranch conditions =>
    unfold Action.motion
    dsimp only
    split
    · unfold Flow.resolve Flow.moveTo
      dsimp only
      split <;> simp
    · simp [Flow.resolve]
  | _ =>
    rw [Command.kind, ha] at hk
    cases hk

/-- A step that is reported asks the game once where it executed a branch, else not at all. -/
theorem Steps.checks_of_report {r : TickReport} (h : s.InOrder Command.Decides)
    (hs : s.Steps owner w (.report r) s' w') :
    w'.game.checks = w.game.checks + if r.executes .conditionalBranch then 1 else 0 := by
  cases hs with
  | skipped => rfl
  | @suspended c token ran hc he hran hr =>
    subst hran
    have hdecides := h.here c hc
    rw [checks_runCommand hdecides, if_neg (kind_of_suspended hdecides hr)]
    rfl
  | @executed c ran r stack next hc he hran =>
    subst hran
    rw [checks_reported, checks_runCommand (h.here c hc), kind_runCommand]
    simp

/-- The last step of a sound session asks nothing. -/
theorem Steps.checks_of_complete {reason : CompletionReason} (ha : p.Accepted)
    (hsound : s.Sound p) (h : s.InOrder Command.Decides)
    (hs : s.Steps owner w (.complete reason) s' w') : w'.game.checks = w.game.checks := by
  cases hs with
  | ended => rfl
  | @exited c ran stack hc he hran hr hm =>
    subst hran
    have hkind : c.kind ≠ .conditionalBranch := by
      intro hk
      rw [← kind_runCommand c s.pending owner w] at hk
      exact resolve_ne_halt hk s.cursor s.stack (by rw [hm])
    rw [checks_reported, checks_runCommand (h.here c hc), if_neg hkind, Nat.add_zero]
  | faulted hc he hran hr hm => exact absurd (.faulted hc he hran hr hm) (hsound.not_faulted ha)

/-- The last step of a sound session counts a command where it is an exit. -/
theorem Steps.executed_of_complete {reason : CompletionReason} (ha : p.Accepted)
    (hsound : s.Sound p) (hs : s.Steps owner w (.complete reason) s' w') :
    s'.executed = s.executed + if reason = .exited then 1 else 0 := by
  cases hs with
  | ended | exited => rfl
  | faulted hc he hran hr hm => exact absurd (.faulted hc he hran hr hm) (hsound.not_faulted ha)

end Session

namespace Interpreter

variable {η : Type} [Host η]

/-- Where updates and pauses lead, with the updates on the way as turns of the session. Each meets
a factory, a game and a host of its own. -/
inductive Takes (i : Interpreter) : List (Turn η) → Interpreter → Prop
  | refl : Takes i [] i
  | update {ts : List (Turn η)} {j : Interpreter} (services : Services η) :
    Takes i ts j → Takes i (ts ++ [⟨j, services⟩]) (j.update services).interpreter
  | setPaused {ts : List (Turn η)} {j : Interpreter} (paused : Bool) :
    Takes i ts j → Takes i ts (j.setPaused paused)

namespace Takes

variable {i j : Interpreter} {ts : List (Turn η)} {t : Turn η}

/-- The turns lead somewhere. -/
theorem reaches (h : i.Takes ts j) : i.Reaches j := by
  induction h with
  | refl => exact .refl
  | update services _ ih => exact ih.update services
  | setPaused paused _ ih => exact ih.setPaused paused

/-- Each turn is one of an interpreter that the run has reached. -/
theorem reaches_of_mem (h : i.Takes ts j) (ht : t ∈ ts) : i.Reaches t.interpreter := by
  induction h with
  | refl => cases ht
  | update services h ih =>
    rcases List.mem_append.mp ht with ht | ht
    · exact ih ht
    · rw [List.mem_singleton.mp ht]
      exact h.reaches
  | setPaused _ _ ih => exact ih ht

/-- The turns before the last one lead to its interpreter. -/
theorem front {front : List (Turn η)} (h : i.Takes (front ++ [t]) j) :
    i.Takes front t.interpreter := by
  generalize hts : front ++ [t] = ts at h
  induction h with
  | refl => simp at hts
  | update services h =>
    obtain ⟨rfl, hlast⟩ := List.append_inj' hts rfl
    obtain rfl := List.singleton_inj.mp hlast
    exact h
  | setPaused _ _ ih => exact ih hts

/-- The turns before any turn lead to its interpreter. -/
theorem before {front rest : List (Turn η)} (h : i.Takes (front ++ t :: rest) j) :
    i.Takes front t.interpreter := by
  induction rest using List.reverseRecOn generalizing j with
  | nil => exact h.front
  | append_singleton rest u ih =>
    rw [← List.cons_append, ← List.append_assoc] at h
    exact ih h.front

end Takes

end Interpreter

/-- The session has counted what was reported of it. -/
structure Session.Counted (reports : List TickReport) (s : Session) : Prop where
  ticks : s.ticks = reports.countP TickReport.isTick
  executed : s.executed = reports.countP TickReport.isExecuted
  balance : s.ticks = reports.countP TickReport.isSkipped +
    reports.countP TickReport.isSuspended + reports.countP TickReport.isExecuted

namespace Turn

variable {η : Type} [Host η] {t : Turn η} {reports : List TickReport}

/-- A session that goes on counts its turn. -/
theorem counted (h : ∀ s, t.interpreter.session = some s → s.Counted reports) :
    ∀ s, t.reply.interpreter.session = some s → s.Counted (reports ++ [t.report]) := by
  have hu := t.updates
  unfold report
  generalize t.reply = reply at hu ⊢
  cases hu with
  | inactive hs =>
    intro s hs'
    rw [hs] at hs'
    cases hs'
  | paused =>
    intro s hs
    obtain ⟨hticks, hexecuted, hbalance⟩ := h s hs
    constructor <;> simpa
  | limited | ended =>
    rintro s ⟨⟩
  | @advanced s _ _ _ hs _ _ hstep =>
    obtain ⟨hticks, hexecuted, hbalance⟩ := h s hs
    rintro s' ⟨⟩
    cases hstep with
    | skipped | suspended | executed =>
      -- One report more, and it is of one sort.
      constructor <;> simp [Session.settled] <;> omega

variable {p : Program}

/-- The last turn of a sound session adds a tick to its count, and a command where it is an exit. -/
theorem counts_of_completed (ha : p.Accepted)
    (hsound : ∀ s, t.interpreter.session = some s → s.Sound p) {done : Completion}
    (hdone : t.report = .completed done) :
    ∃ s, t.interpreter.session = some s ∧ done.ticks = s.ticks + 1 ∧
      done.executed = s.executed + if done.reason = .exited then 1 else 0 := by
  have hu := t.updates
  unfold report at hdone
  generalize t.reply = reply at hu hdone
  cases hu with
  | inactive | paused => cases hdone
  | advanced _ _ _ hstep =>
    cases hdone
    cases hstep
  | @limited s s' limit world hs _ _ _ hclock hcut =>
    cases hdone
    have hkept := Session.abortInFlight_eq { s with ticks := s.ticks + 1 }
      (t.services.world.report (.tickLimitExceeded t.interpreter.owner limit))
    rw [hcut] at hkept
    have hexecuted := congrArg Session.executed hkept
    exact ⟨s, hs, hclock, hexecuted⟩
  | @ended s s' reason world hs _ _ hstep =>
    cases hdone
    have hexecuted := hstep.executed_of_complete ha ((hsound s hs).ticks (s.ticks + 1))
    exact ⟨s, hs, hstep.ticks, hexecuted⟩

/-- The completion of a session tells what was reported of it. -/
theorem sums_of_completed (ha : p.Accepted)
    (hsound : ∀ s, t.interpreter.session = some s → s.Sound p)
    (h : ∀ s, t.interpreter.session = some s → s.Counted reports) {done : Completion}
    (hdone : t.report = .completed done) :
    let all := reports ++ [t.report]
    done.ticks = all.countP TickReport.isTick ∧
      done.ticks = all.countP TickReport.isSkipped + all.countP TickReport.isSuspended +
        all.countP TickReport.isExecuted + 1 ∧
      done.executed = all.countP TickReport.isExecuted +
        if done.reason = .exited then 1 else 0 := by
  intro all
  obtain ⟨s, hs, hticks, hexecuted⟩ := counts_of_completed ha hsound hdone
  obtain ⟨hcounted, hcommands, hbalance⟩ := h s hs
  -- The last report is a tick, but it skips, suspends and executes nothing.
  unfold all
  rw [hdone]
  refine ⟨?_, ?_, ?_⟩
  · simp [hticks, hcounted]
  · simp [hticks, hbalance]
  · simp [hexecuted, hcommands]

/-- A turn of a sound session asks the game once where a branch is reported as executed, else not
at all. -/
theorem checks_eq (ha : p.Accepted)
    (hsound : ∀ s, t.interpreter.session = some s → s.Sound p)
    (hdecides : ∀ s, t.interpreter.session = some s → s.InOrder Command.Decides) :
    t.reply.services.world.game.checks = t.services.world.game.checks +
      if t.report.executes .conditionalBranch then 1 else 0 := by
  have hu := t.updates
  unfold report
  generalize t.reply = reply at hu ⊢
  cases hu with
  | inactive | paused => rfl
  | @limited s s' limit world hs _ _ _ _ hcut =>
    have hgame := Session.game_abortInFlight { s with ticks := s.ticks + 1 }
      (t.services.world.report (.tickLimitExceeded t.interpreter.owner limit))
    rw [hcut] at hgame
    exact congrArg GameState.checks hgame
  | @advanced s _ _ _ hs _ _ hstep => exact hstep.checks_of_report ((hdecides s hs).clock _)
  | @ended s _ _ _ hs _ _ hstep =>
    exact hstep.checks_of_complete ha ((hsound s hs).ticks _) ((hdecides s hs).clock _)

end Turn

namespace Interpreter

variable {η : Type} [Host η] {i j : Interpreter} {ts : List (Turn η)} {p : Program}
  {notify : Bool}

/-- A session that a run leaves has counted what was reported of it. -/
theorem Takes.counted (h : (i.begin p notify).Takes ts j) :
    ∀ s, j.session = some s → s.Counted (ts.map Turn.report) := by
  induction h with
  | refl =>
    rintro s ⟨⟩
    exact ⟨rfl, rfl, rfl⟩
  | @update ts j services _ ih =>
    rw [List.map_append]
    exact Turn.counted (t := ⟨j, services⟩) ih
  | setPaused paused _ ih =>
    intro s hs
    obtain ⟨s', hs', rfl⟩ := Option.map_eq_some_iff.mp hs
    exact ⟨(ih s' hs').ticks, (ih s' hs').executed, (ih s' hs').balance⟩

private theorem sum_checks (h : ∀ t ∈ ts, t.reply.services.world.game.checks =
    t.services.world.game.checks + if t.report.executes .conditionalBranch then 1 else 0) :
    (ts.map Turn.checks).sum =
      (ts.map Turn.report).countP (TickReport.executes .conditionalBranch) := by
  induction ts with
  | nil => rfl
  | cons t rest ih =>
    have hfirst : t.checks = if t.report.executes .conditionalBranch then 1 else 0 := by
      rw [Turn.checks, h t List.mem_cons_self, Nat.add_sub_cancel_left]
    rw [List.map_cons, List.map_cons, List.sum_cons, List.countP_cons, hfirst,
      ih fun t ht => h t (List.mem_cons_of_mem _ ht), Nat.add_comm]

/-- The reports of a run of an accepted program whose commands were idle account for all of it.
Each says where the cursor was before the update and where it was after it, and the game was asked
once where a branch was executed, else not at all. When the session completes, its ticks are the
updates that were not paused, and these are the ones that skipped, suspended or executed a command
and the last one; its executed commands are those reported, and one more where it was an exit. -/
theorem reports_account {commands : List Command} (hp : Program.ofCommands commands = .ok p)
    (hidle : ∀ c ∈ commands, c.phase = .idle) (h : (i.begin p notify).Takes ts j) :
    let reports := ts.map Turn.report
    (∀ t ∈ ts, t.report.Moves t.interpreter.cursor? t.reply.interpreter.cursor? ∧
      t.reply.services.world.game.checks = t.services.world.game.checks +
        if t.report.executes .conditionalBranch then 1 else 0) ∧
    (ts.map Turn.checks).sum = reports.countP (TickReport.executes .conditionalBranch) ∧
    ∀ front last done, ts = front ++ [last] → last.report = .completed done →
      done.ticks = reports.countP TickReport.isTick ∧
      done.ticks = reports.countP TickReport.isSkipped + reports.countP TickReport.isSuspended +
        reports.countP TickReport.isExecuted + 1 ∧
      done.executed = reports.countP TickReport.isExecuted +
        if done.reason = .exited then 1 else 0 := by
  intro reports
  obtain ⟨rfl, ha⟩ := Program.accepted_of_ofCommands hp
  have hrest : ∀ k c, p.get? k = some c → c.Decides none := fun _ c hc =>
    ⟨⟨hidle c (List.mem_of_getElem? hc), fun hsome => by cases hsome⟩, fun _ => rfl⟩
  have hsound : ∀ t ∈ ts, ∀ s, t.interpreter.session = some s → s.Sound p :=
    fun t ht s => .of_reaches ha (h.reaches_of_mem ht)
  have hchecks : ∀ t ∈ ts, t.reply.services.world.game.checks =
      t.services.world.game.checks + if t.report.executes .conditionalBranch then 1 else 0 :=
    fun t ht => t.checks_eq ha (hsound t ht) fun s =>
      .of_reaches Session.decides_kept hrest (h.reaches_of_mem ht)
  refine ⟨fun t ht => ⟨t.moves, hchecks t ht⟩, sum_checks hchecks, ?_⟩
  rintro front last done rfl hdone
  have hsums := last.sums_of_completed ha (hsound last (by simp)) h.front.counted hdone
  simp only [reports, List.map_append, List.map_cons, List.map_nil]
  exact hsums

/-- A branch that is entered, a disabled comment in it, a wait with a pause in the middle, and an
exit: six ticks, four commands, and the game is asked once. -/
theorem reports_account_exit :
    let commands : List Command := [.ofAction (.conditionalBranch {}),
      (Command.ofAction (.comment "note")).disable, .ofAction .endIf, .ofAction (.wait 1),
      .ofAction .exitEventProcessing]
    let services : Services Stage := ⟨{}, ⟨{}, {}⟩⟩
    let tick := fun i : Interpreter => (i.update services).interpreter
    let start := Interpreter.begin {} ⟨commands, {}⟩ true
    let waiting := tick (tick (tick (tick start)))
    let paused := waiting.setPaused true
    let turns : List (Turn Stage) := [start, tick start, tick (tick start),
      tick (tick (tick start)), paused, paused.setPaused false,
      tick (paused.setPaused false)].map fun i => ⟨i, services⟩
    let done : Completion := ⟨.global, .exited, 6, 4⟩
    turns.map Turn.report = [.executed 0 .conditionalBranch 1, .skipped 1, .executed 2 .endIf 3,
        .suspended 3, .paused, .executed 3 .wait 4, .completed done] ∧
      (turns.map Turn.checks).sum = 1 ∧ done.ticks = 1 + 1 + 3 + 1 ∧ done.executed = 3 + 1 := by
  intro commands services tick start waiting paused turns done
  have hp : Program.ofCommands commands = .ok ⟨commands, {}⟩ := rfl
  have hidle : ∀ c ∈ commands, c.phase = .idle := by decide
  have hreports : turns.map Turn.report = [.executed 0 .conditionalBranch 1, .skipped 1,
      .executed 2 .endIf 3, .suspended 3, .paused, .executed 3 .wait 4, .completed done] := by
    decide +kernel
  -- The update of the paused session leaves it as it is.
  have hkept : tick paused = paused := rfl
  have hrun : start.Takes turns (tick (tick (paused.setPaused false))) := by
    have hwaiting : start.Takes _ waiting :=
      (((Takes.refl.update services).update services).update services).update services
    have hpaused : start.Takes _ (tick paused) := (hwaiting.setPaused true).update services
    rw [hkept] at hpaused
    exact ((hpaused.setPaused false).update services).update services
  obtain ⟨-, hchecks, hsums⟩ := reports_account hp hidle hrun
  have hlast : Turn.report ⟨tick (paused.setPaused false), services⟩ = .completed done := by
    decide +kernel
  obtain ⟨-, hticks, hexecuted⟩ := hsums turns.dropLast _ done rfl hlast
  rw [hreports] at hchecks hticks hexecuted
  exact ⟨hreports, hchecks, hticks, hexecuted⟩

end Interpreter

end EventScript
