import EventScript.Host.Stage
import EventScript.Proofs.Scheduler.Lifecycle
import EventScript.Scheduler.Driver
import Mathlib.Data.Nat.Find

/-!
# Until no session is left

Two loops tick a scheduler until no session is left. One looks before each tick, and once more
after the last one that it is allowed; a driver looks after each tick. `Scheduler.IdleAfter` is the
number of ticks after which both stop. They differ in a scheduler without sessions alone, which a
driver ticks once and the other leaves alone. Under a limit on ticks there is such a number, if no
session is paused: after that many ticks and one more every session has been cut short.
-/

namespace EventScript

namespace Scheduler

variable {η : Type} [Host η]

/-- The scheduler after ticks alone. -/
def ticked (s : Scheduler η) : Nat → Scheduler η
  | 0 => s
  | n + 1 => s.tick.2.ticked n

/-- The completions of these ticks, in their order. -/
def completions (s : Scheduler η) : Nat → List SessionCompleted
  | 0 => []
  | n + 1 => s.tick.1 ++ s.tick.2.completions n

/-- No session is left after `k` ticks, and after no fewer. -/
structure IdleAfter (s : Scheduler η) (k : Nat) : Prop where
  idle : (s.ticked k).isIdle = true
  busy : ∀ m < k, (s.ticked m).isIdle = false

variable {s s' : Scheduler η} {k n : Nat}

/-- Whatever leaves no session, there is a first time for it. -/
theorem exists_idleAfter (h : (s.ticked n).isIdle = true) : ∃ k ≤ n, s.IdleAfter k := by
  have hexists : ∃ m, (s.ticked m).isIdle = true := ⟨n, h⟩
  refine ⟨Nat.find hexists, Nat.find_min' hexists h, Nat.find_spec hexists, ?_⟩
  intro m hm
  exact Bool.eq_false_iff.mpr (Nat.find_min hexists hm)

/-- Where there is no first time, there is none at all. -/
theorem busy_of_not_idleAfter (h : ∀ k ≤ n, ¬ s.IdleAfter k) :
    ∀ m ≤ n, (s.ticked m).isIdle = false := by
  intro m hm
  rw [← Bool.not_eq_true]
  intro hidle
  obtain ⟨k, hk, hafter⟩ := exists_idleAfter hidle
  exact h k (Nat.le_trans hk hm) hafter

/-- After a tick there is one less to go. -/
theorem IdleAfter.tick (h : s.IdleAfter (k + 1)) : s.tick.2.IdleAfter k :=
  ⟨h.idle, fun m hm => h.busy (m + 1) (Nat.succ_lt_succ hm)⟩

/-- Without sessions there is nothing to advance. -/
theorem isIdle_tick (h : s.isIdle = true) : s.tick.2.isIdle = true := by
  unfold isIdle at h
  rw [List.isEmpty_iff] at h
  unfold Scheduler.tick
  rw [h]
  rfl

/-- So a tick leaves `k - 1` to go in any case. -/
theorem IdleAfter.tick_pred (h : s.IdleAfter k) : s.tick.2.IdleAfter (k - 1) := by
  cases k with
  | zero => exact ⟨isIdle_tick h.idle, by simp⟩
  | succ k => exact h.tick

/-! ### The two loops -/

/-- The loop that looks before each tick stops where no session is left. -/
theorem runFor_of_idleAfter (h : s.IdleAfter k) (total : Nat) {budget : Nat} (hk : k ≤ budget) :
    s.runFor total budget = (.ok (s.completions k), s.ticked k) := by
  induction k generalizing s budget with
  | zero => cases budget <;> exact if_pos h.idle
  | succ k ih =>
    obtain ⟨budget, rfl⟩ := Nat.exists_eq_add_of_le' (Nat.lt_of_lt_of_le (Nat.succ_pos k) hk)
    have hbusy : s.isIdle = false := h.busy 0 (Nat.succ_pos k)
    rw [runFor, if_neg (Bool.eq_false_iff.mp hbusy)]
    dsimp only
    rw [ih h.tick (Nat.le_of_succ_le_succ hk)]
    rfl

/-- It gives up where sessions are left after the last tick that it is allowed. -/
theorem runFor_of_busy (total : Nat) {budget : Nat}
    (h : ∀ m ≤ budget, (s.ticked m).isIdle = false) :
    s.runFor total budget =
      (.error (.tickBudgetExhausted total (s.ticked budget).active), s.ticked budget) := by
  induction budget generalizing s with
  | zero => exact if_neg (Bool.eq_false_iff.mp (h 0 (Nat.le_refl 0)))
  | succ budget ih =>
    have hbusy : s.isIdle = false := h 0 (Nat.zero_le _)
    have hlater := ih (s := s.tick.2) fun m hm => h (m + 1) (Nat.succ_le_succ hm)
    rw [runFor, if_neg (Bool.eq_false_iff.mp hbusy)]
    dsimp only
    rw [hlater]
    rfl

/-- The loop that looks after each tick stops one tick later than what is to go after its first. -/
theorem drive_of_idleAfter (h : s.tick.2.IdleAfter k) {budget : Nat} (hk : k < budget) :
    s.drive .untilIdle budget = ⟨k + 1, true, s.ticked (k + 1)⟩ := by
  induction k generalizing s budget with
  | zero =>
    obtain ⟨budget, rfl⟩ := Nat.exists_eq_add_of_le' hk
    exact if_pos ⟨rfl, h.idle⟩
  | succ k ih =>
    obtain ⟨budget, rfl⟩ := Nat.exists_eq_add_of_le' (Nat.lt_of_le_of_lt (Nat.zero_le _) hk)
    have hbusy : s.tick.2.isIdle = false := h.busy 0 (Nat.succ_pos k)
    rw [drive]
    dsimp only
    rw [if_neg (by simp [hbusy]), ih h.tick (Nat.lt_of_succ_lt_succ hk)]
    rfl

/-- Until then it goes on. -/
theorem drive_of_busy {budget : Nat} (h : ∀ m < budget, (s.tick.2.ticked m).isIdle = false) :
    s.drive .untilIdle budget = ⟨budget, false, s.ticked budget⟩ := by
  induction budget generalizing s with
  | zero => rfl
  | succ budget ih =>
    have hbusy : s.tick.2.isIdle = false := h 0 (Nat.succ_pos budget)
    have hlater := ih (s := s.tick.2) fun m hm => h (m + 1) (Nat.succ_lt_succ hm)
    rw [drive]
    dsimp only
    rw [if_neg (by simp [hbusy]), hlater]
    rfl

/-- A driver ticks once at least, and stops then or where no session is left. -/
theorem drive_untilIdle (h : s.IdleAfter k) (budget : Nat) :
    s.drive .untilIdle budget =
      if max 1 k ≤ budget then ⟨max 1 k, true, s.ticked (max 1 k)⟩
      else ⟨budget, false, s.ticked budget⟩ := by
  have hmax : max 1 k = k - 1 + 1 := by omega
  rw [hmax]
  split
  · next hle => exact drive_of_idleAfter h.tick_pred hle
  · next hlt => exact drive_of_busy fun m hm => h.tick_pred.busy m (by omega)

/-! ### The clock -/

private theorem Advances.ticks_eq {l left : List (SessionId × Interpreter)} {ts : List (Turn η)}
    {done : List SessionCompleted} (h : Advances s l ts done left s') : s'.ticks = s.ticks := by
  induction h with
  | nil => rfl
  | goesOn _ _ _ _ ih => exact ih
  | completes _ _ _ _ ih => rw [ih, afterTurn_eq]

/-- A scheduler counts its ticks. -/
theorem ticks_ticked (s : Scheduler η) (n : Nat) : (s.ticked n).ticks = s.ticks + n := by
  induction n generalizing s with
  | zero => rfl
  | succ n ih =>
    have htick : s.tick.2.ticks = s.ticks + 1 :=
      (advances_advance { s with ticks := s.ticks + 1 } s.sessions).ticks_eq
    rw [ticked, ih, htick, Nat.add_right_comm]
    rfl

/-! ### Under a limit on ticks -/

/-- The scheduler and its sessions are configured alike. -/
def Configured (config : RuntimeConfig) (s : Scheduler η) : Prop :=
  s.config = config ∧ ∀ e ∈ s.sessions, e.2.config = config.interpreter

/-- Everything keeps that. -/
theorem configured_kept (config : RuntimeConfig) (outside : Services η → Services η → Prop) :
    Kept outside fun _ s => Configured config s where
  outside _ h := h
  clock _ h := h
  spawn {ts s} owner ds h := by
    rcases s.spawn_cases owner ds with ⟨limit, hs⟩ | ⟨e, -, hs⟩ | ⟨p, -, -, hs⟩ <;> rw [hs]
    · exact h
    · exact h
    · refine ⟨h.1, ?_⟩
      intro e he
      rcases List.mem_append.mp he with he | he
      · exact h.2 e he
      · rw [List.mem_singleton.mp he]
        exact congrArg RuntimeConfig.interpreter h.1
  stop {ts s} id h := by
    rcases s.stop_cases id with hs | ⟨i, -, hs⟩ <;> rw [hs]
    · exact h
    · exact ⟨h.1, fun e he => h.2 e (List.mem_filter.mp he).1⟩
  setPaused {ts s} id paused h := by
    refine ⟨?_, ?_⟩
    · rcases s.modify_cases id fun i => i.setPaused paused with hs | hs <;> rw [hs] <;> exact h.1
    · intro e he
      rcases mem_modify he with he | ⟨i, hi, heq⟩
      · exact h.2 e he
      · rw [heq]
        exact h.2 _ hi
  turn {ts s s' t} ht h := by
    refine ⟨?_, ?_⟩
    · cases ht with
      | goesOn => exact h.1
      | completes =>
        rw [afterTurn_eq]
        exact h.1
    · intro e he
      rcases ht.mem_cases he with he | ⟨hm, heq, -⟩
      · exact h.2 e he
      · rw [heq, Turn.reply]
        exact t.updates.config_owner.1.trans (h.2 _ hm)

end Scheduler

/-- The interpreter has had `age` ticks for its session, which is not paused, and the limit on
ticks allows as many. -/
structure Interpreter.Aged (limit age : Nat) (i : Interpreter) : Prop where
  limited : i.config.maxTicks = some limit
  within : age ≤ limit
  running : ∃ s, i.session = some s ∧ s.paused = false ∧ age ≤ s.ticks

/-- A session that goes on after its turn is one tick older. -/
theorem Turn.aged {η : Type} [Host η] {t : Turn η} {limit age : Nat}
    (h : t.interpreter.Aged limit age)
    (hr : ∀ completion, t.reply.result ≠ .completed completion) :
    t.reply.interpreter.Aged limit (age + 1) := by
  obtain ⟨hlimit, -, s, hs, hpaused, hage⟩ := h
  have hu := t.updates
  generalize t.reply = reply at hr hu ⊢
  cases hu with
  | inactive h => rw [h] at hs; cases hs
  | paused h hp =>
    obtain rfl := Option.some.inj (h.symm.trans hs)
    rw [hp] at hpaused
    cases hpaused
  | limited | ended => exact absurd rfl (hr _)
  | @advanced s₀ s' _ _ h _ hl hstep =>
    obtain rfl := Option.some.inj (h.symm.trans hs)
    have hwithin : s₀.ticks + 1 ≤ limit := by
      simpa [Interpreter.overLimit, hlimit] using hl
    refine ⟨hlimit, by omega, s', rfl, hstep.paused.trans hpaused, ?_⟩
    rw [hstep.ticks]
    exact Nat.succ_le_succ hage

namespace Scheduler

variable {η : Type} [Host η] {s s' : Scheduler η} {limit age : Nat}

/-- What an advance leaves has had its turn. -/
theorem Advances.mem_left {l left : List (SessionId × Interpreter)} {ts : List (Turn η)}
    {done : List SessionCompleted} (h : Advances s l ts done left s')
    {e : SessionId × Interpreter} (he : e ∈ left) :
    ∃ t : Turn η, (e.1, t.interpreter) ∈ l ∧ e.2 = t.reply.interpreter ∧
      ∀ completion, t.reply.result ≠ .completed completion := by
  induction h with
  | nil => cases he
  | @goesOn s s' t id rest left ts done hs hr _ ih =>
    rcases List.mem_cons.mp he with rfl | he
    · exact ⟨t, List.mem_cons_self, rfl, hr⟩
    · obtain ⟨t', hm, hturned⟩ := ih he
      exact ⟨t', List.mem_cons_of_mem _ hm, hturned⟩
  | completes id hs hr _ ih =>
    obtain ⟨t', hm, hturned⟩ := ih he
    exact ⟨t', List.mem_cons_of_mem _ hm, hturned⟩

/-- With every tick the sessions that are left grow older. -/
theorem aged_ticked (n : Nat) (h : ∀ e ∈ s.sessions, e.2.Aged limit age) :
    ∀ e ∈ (s.ticked n).sessions, e.2.Aged limit (age + n) := by
  induction n generalizing s age with
  | zero => exact h
  | succ n ih =>
    have htick : ∀ e ∈ s.tick.2.sessions, e.2.Aged limit (age + 1) := by
      intro e he
      have hadvance := advances_advance { s with ticks := s.ticks + 1 } s.sessions
      obtain ⟨t, hm, heq, hr⟩ := hadvance.mem_left he
      rw [heq]
      exact Turn.aged (h _ hm) hr
    have hlater := ih htick
    rwa [Nat.add_assoc, Nat.add_comm 1] at hlater

/-- Under a limit no session that is not paused outlives one tick more. -/
theorem exists_idleAfter_of_limit {config : RuntimeConfig} (horderly : s.Orderly config)
    (hconfigured : s.Configured config) (hlimit : config.interpreter.maxTicks = some limit)
    (hpaused : ∀ e ∈ s.sessions, e.2.isPaused = false) : ∃ k ≤ limit + 1, s.IdleAfter k := by
  have hborn : ∀ e ∈ s.sessions, e.2.Aged limit 0 := by
    intro e he
    obtain ⟨ses, hs, -⟩ := horderly.live e he
    have hp := hpaused e he
    rw [Interpreter.isPaused, hs] at hp
    exact ⟨(congrArg InterpreterConfig.maxTicks (hconfigured.2 e he)).trans hlimit,
      Nat.zero_le _, ses, hs, hp, Nat.zero_le _⟩
  apply exists_idleAfter
  rw [isIdle, List.isEmpty_iff, List.eq_nil_iff_forall_not_mem]
  intro e he
  have hold := (aged_ticked (limit + 1) hborn e he).within
  omega

/-- Both loops come to the same end. Let `k` be the first number of ticks that leaves no session.
The loop that looks before each tick makes `k` ticks if it may, and returns their completions in
order; if there is no `k` within its budget it uses all of it, and tells how many sessions are left.
A driver makes as many ticks, but one where `k` is zero, and goes on for ever where there is no `k`;
where `k` is not zero it leaves the same scheduler, with its game, host and events. Under a limit on
ticks `k` exists, if no session is paused, and is at most one more than the limit. -/
theorem idle_loops_agree (s : Scheduler η) (n : Nat) :
    (∀ m, (s.ticked m).ticks = s.ticks + m) ∧
    (∀ k ≤ n, s.IdleAfter k → s.runUntilIdle n = (.ok (s.completions k), s.ticked k)) ∧
    ((∀ k ≤ n, ¬ s.IdleAfter k) → s.runUntilIdle n =
      (.error (.tickBudgetExhausted n (s.ticked n).active), s.ticked n)) ∧
    (∀ k, s.IdleAfter k → ∀ budget,
      s.drive .untilIdle budget =
        (if max 1 k ≤ budget then ⟨max 1 k, true, s.ticked (max 1 k)⟩
        else ⟨budget, false, s.ticked budget⟩) ∧
      (1 ≤ k → k ≤ n → k ≤ budget →
        (s.drive .untilIdle budget).scheduler = (s.runUntilIdle n).2)) ∧
    ((∀ k, ¬ s.IdleAfter k) → ∀ budget,
      s.drive .untilIdle budget = ⟨budget, false, s.ticked budget⟩) ∧
    ∀ (config : RuntimeConfig) (services : Services η) (outside : Services η → Services η → Prop)
      (ts : List (Turn η)) (limit : Nat),
      (withServices config services).Reaches outside ts s →
      config.interpreter.maxTicks = some limit → (∀ e ∈ s.sessions, e.2.isPaused = false) →
      ∃ k ≤ limit + 1, s.IdleAfter k := by
  refine ⟨s.ticks_ticked, fun k hk h => runFor_of_idleAfter h n hk,
    fun h => runFor_of_busy n (busy_of_not_idleAfter h), ?_, ?_, ?_⟩
  · intro k h budget
    have hdrive := drive_untilIdle h budget
    refine ⟨hdrive, ?_⟩
    intro hpos hn hbudget
    have hmax : max 1 k = k := Nat.max_eq_right hpos
    rw [hdrive, hmax, if_pos hbudget, runUntilIdle, runFor_of_idleAfter h n hn]
  · intro h budget
    apply drive_of_busy
    intro m _
    exact busy_of_not_idleAfter (fun k _ => h k) (m + 1) (Nat.le_refl _)
  · intro config services outside ts limit hreached hlimit hpaused
    have horderly := (Orderly.kept config outside).of_reaches (.withServices config services)
      hreached
    have hconfigured := (configured_kept config outside).of_reaches
      ⟨rfl, by simp [Scheduler.withServices]⟩ hreached
    exact exists_idleAfter_of_limit horderly hconfigured hlimit hpaused

/-- Under a limit of two ticks a comment has two, and a message that waits for the player is cut
short in the third: just as many as there can be. -/
theorem idle_loops_agree_message :
    let services : Services Stage := ⟨{}, ⟨{}, { presenter := .recording {} }⟩⟩
    let config : RuntimeConfig := { interpreter := { maxTicks := some 2 } }
    let start := fun a => Operation.spawn .global [Factory.describe (.ofAction a)]
    let s := ((withServices config services).perform
      (start (.showMessage (.waiting "Hello")))).perform (start (.comment "Bye"))
    (∃ k ≤ 2 + 1, s.IdleAfter k) ∧
    s.runUntilIdle 2 = (.error (.tickBudgetExhausted 2 1), s.ticked 2) ∧
    s.runUntilIdle 9 = (.ok [⟨⟨2⟩, .global, .endOfProgram, 2, 1⟩,
      ⟨⟨1⟩, .global, .faulted, 3, 0⟩], s.ticked 3) ∧
    s.drive .untilIdle 9 = ⟨3, true, (s.runUntilIdle 9).2⟩ ∧
    (s.ticked 3).drive .untilIdle 9 = ⟨1, true, (s.ticked 3).ticked 1⟩ := by
  intro services config start s
  have hs : (withServices config services).Reaches (fun _ _ => False) _ s :=
    (Reaches.refl.perform _).perform _
  have hidle : s.IdleAfter 3 := ⟨by decide +kernel, by decide +kernel⟩
  have hafter : (s.ticked 3).IdleAfter 0 := ⟨by rw [ticked, hidle.idle], by simp⟩
  obtain ⟨-, -, hgivesUp, -, -, hbound⟩ := idle_loops_agree s 2
  obtain ⟨-, hruns, -, hdrives, -⟩ := idle_loops_agree s 9
  obtain ⟨-, -, -, hdrivesOnce, -⟩ := idle_loops_agree (s.ticked 3) 9
  have hunfinished : ∀ k ≤ 2, ¬ s.IdleAfter k := by
    intro k hk h
    have hbusy := hidle.busy k (Nat.lt_succ_of_le hk)
    rw [h.idle] at hbusy
    cases hbusy
  have hactive : (s.ticked 2).active = 1 := by decide +kernel
  have hdone : s.completions 3 = [⟨⟨2⟩, .global, .endOfProgram, 2, 1⟩,
      ⟨⟨1⟩, .global, .faulted, 3, 0⟩] := by decide +kernel
  have hrun := hruns 3 (by decide) hidle
  have hdriven := (hdrives 3 hidle 9).1
  have hdrivenOnce := (hdrivesOnce 0 hafter 9).1
  rw [show max 1 3 = 3 by rfl, if_pos (by decide)] at hdriven
  rw [show max 1 0 = 1 by rfl, if_pos (by decide)] at hdrivenOnce
  refine ⟨hbound _ _ _ _ 2 hs rfl (by decide +kernel), ?_, ?_, ?_, hdrivenOnce⟩
  · rw [hgivesUp hunfinished, hactive]
  · rw [hrun, hdone]
  · rw [hrun, hdriven]

end Scheduler

end EventScript
