import EventScript.Proofs.Player.Burst
import EventScript.Proofs.Player.Heard

/-!
# When the player waits for every session, and when its verdict is true

A player that lags takes the number of active sessions for its count, but the channel may still
keep ends that this number accounts for: it counts these down once more, and leaves while a
session is active. The ends that it has missed it never looks at, so their faults are lost. How
much may be lost depends on the window of the channel and on the number of scripts alone: with
room for a start and an end of every session nothing is, and with less there are scripts and
moves for which it goes wrong. A single session is waited for in any case.
-/

namespace EventScript

namespace Player

variable {η : Type} [Host η] {capacity n : Nat} {config : RuntimeConfig} {p : Player η}

/-- The player has started `n` scripts over a channel of a capacity. -/
def Starts (capacity n : Nat) (p : Player η) : Prop :=
  ∃ (config : RuntimeConfig) (world : World η) (read : String → Option String)
    (paths : List String), config.eventBufferSize = capacity ∧ paths.length = n ∧
      (new config world).launchAll read 1 paths = .ok p

/-- A player that starts has launched its scripts with a buffer of that size. -/
theorem Starts.launched (h : p.Starts capacity n) :
    ∃ config : RuntimeConfig, config.eventBufferSize = capacity ∧ p.Launched config n := by
  obtain ⟨config, world, read, paths, hcapacity, hlength, hlaunch⟩ := h
  have hlaunched := (Launched.new config world).launchAll hlaunch
  rw [hlength, Nat.zero_add] at hlaunched
  exact ⟨config, hcapacity, hlaunched⟩

/-! ### The first tick after the launch -/

namespace Launched

/-- A tick of the player is a tick of its scheduler. -/
theorem tick_eq (h : p.Launched config n) : p.tick.scheduler = p.scheduler.tick.2 := by
  rw [tick, if_pos h.driving]

/-- The first tick publishes behind the starts. -/
theorem sent_tick (h : p.Launched config n) : p.tick.scheduler.channel.sent =
    p.scheduler.channel.sent ++ p.scheduler.tick.1.map .completed := by
  rw [h.tick_eq, h.tallied.orderly.tick_publishes.1]

/-- As many events are not ends as there are sessions, and these come first. -/
theorem countP_take_le (h : p.Launched config n) (k : Nat) :
    (p.tick.scheduler.channel.sent.take k).countP SessionEvent.isEnd ≤ k - n := by
  have hbalance := h.tallied.balance
  have hlength := h.tallied.length_eq
  rw [h.active_eq] at hbalance
  have hnone : (p.scheduler.channel.sent.take k).countP SessionEvent.isEnd ≤ p.scheduler.ended :=
    (List.take_sublist k p.scheduler.channel.sent).countP_le
  have hends : ((p.scheduler.tick.1.map SessionEvent.completed).take (k - n)).countP
      SessionEvent.isEnd ≤ k - n := Nat.le_trans List.countP_le_length (List.length_take_le _ _)
  have hstarts : p.scheduler.channel.sent.length = n := by omega
  rw [h.sent_tick, List.take_append, List.countP_append, hstarts]
  omega

/-- The player has received nothing yet, so it lags where the ends leave no room for all starts. -/
theorem receive_tick (h : p.Launched config n)
    (hlag : (max config.eventBufferSize 1).nextPowerOfTwo + p.tick.scheduler.active < 2 * n) :
    p.tick.receive = { p.tick with position := p.tick.scheduler.channel.oldest
                                   outstanding := p.tick.scheduler.active } := by
  have holdest := h.tally.tick.oldest_eq
  have hstill : p.tick.position = 0 ∧ p.tick.outstanding = n := by
    rw [tick, if_pos h.driving]
    exact ⟨h.position_eq, h.outstanding_eq⟩
  have hw : p.tick.waiting = true := by
    rw [waiting, hstill.2]
    exact decide_eq_true (by omega)
  rcases receive_cases hw with ⟨-, hr⟩ | ⟨e, hkept, -⟩ | ⟨hend, -⟩
  · exact hr
  · omega
  · rw [Channel.oldest] at holdest
    omega

end Launched

/-! ### Runs in which the player is misled -/

/-- With less room there are scripts of which the player leaves one active. -/
theorem exists_left_active (hn : 2 ≤ n) (hlag : (max capacity 1).nextPowerOfTwo < 2 * n) :
    ∃ (p : Player Stage) (ms : List Move), p.Starts capacity n ∧ (p.after ms).waiting = false ∧
      (p.after ms).scheduler.isIdle = false := by
  obtain ⟨p, id, i, rest, hlaunch, hsessions, hlasts, hends⟩ :=
    launchAll_burst capacity ⟨{}, ({} : Stage)⟩ (n - 1)
  have hstarts : p.Starts capacity n :=
    ⟨_, _, _, _, rfl, by rw [List.length_cons, List.length_replicate]; omega, hlaunch⟩
  obtain ⟨config, hcapacity, hlaunched⟩ := hstarts.launched
  have hactive : p.tick.scheduler.active = 1 := by
    rw [hlaunched.tick_eq]
    exact Scheduler.tick_one_lasts hsessions hlasts hends
  have htally := hlaunched.tally.tick
  have holdest := htally.oldest_eq
  have hbalance := htally.tallied.balance
  rw [hactive] at holdest hbalance
  obtain rfl := hcapacity
  have hwindow := p.tick.scheduler.channel.window_cases
  rw [htally.window_eq] at hwindow
  -- The player lags, and takes the one active session for its count.
  have hreceive := hlaunched.receive_tick (by omega)
  rw [hactive] at hreceive
  -- An end is kept that this count is made without.
  have hkept := hlaunched.countP_take_le p.tick.scheduler.channel.oldest
  have howed : p.tick.receive.outstanding +
      p.tick.receive.passed.countP SessionEvent.isEnd ≤ p.tick.receive.scheduler.ended := by
    rw [hreceive]
    change 1 + (p.tick.scheduler.channel.sent.take p.tick.scheduler.channel.oldest).countP _ ≤
      p.tick.scheduler.ended
    omega
  have hposition : p.tick.receive.scheduler.channel.oldest = p.tick.receive.position := by
    rw [hreceive]
  obtain ⟨ms, hwaiting, hscheduler⟩ := gives_up (Nat.le_of_eq hposition) howed
  refine ⟨p, .tick :: .receive :: ms, hstarts, hwaiting, ?_⟩
  change (p.tick.receive.after ms).scheduler.isIdle = false
  rw [hscheduler, hreceive, ← Bool.not_eq_true, htally.isIdle_iff]
  omega

/-- With less room there are scripts of which the player misses every fault. -/
theorem exists_faults_missed (hlag : (max capacity 1).nextPowerOfTwo < 2 * n) :
    ∃ (p : Player Stage) (ms : List Move), p.Starts capacity n ∧ (p.after ms).waiting = false ∧
      (p.after ms).verdict = .ok () ∧ (p.after ms).scheduler.faults ≠ 0 := by
  let config : RuntimeConfig :=
    { interpreter := { maxTicks := some 0 }, eventBufferSize := capacity }
  let world : World Stage := ⟨{}, {}⟩
  obtain ⟨p, rest, hlaunch, -⟩ := launchAll_blank (p := new config world) rfl 1 n
  have hstarts : p.Starts capacity n :=
    ⟨config, world, _, _, rfl, List.length_replicate, hlaunch⟩
  have hlaunched : p.Launched config n := by
    have h := (Launched.new config world).launchAll hlaunch
    rwa [List.length_replicate, Nat.zero_add] at h
  have hends : ∀ e ∈ p.scheduler.sessions, e.2.Ends Stage .faulted := by
    intro e he
    obtain ⟨owner, program, hfresh⟩ := hlaunched.fresh e he
    rw [hfresh]
    exact Interpreter.ends_of_limit Stage rfl owner program
  obtain ⟨hactive, hreasons⟩ := Scheduler.tick_all_end hends
  rw [← hlaunched.tick_eq] at hactive
  have hreceive := hlaunched.receive_tick (by rw [hactive]; exact hlag)
  have hscheduler : (p.after [.tick, .receive]).scheduler = p.scheduler.tick.2 := by
    change p.tick.receive.scheduler = _
    rw [hreceive, ← hlaunched.tick_eq]
  refine ⟨p, [.tick, .receive], hstarts, ?_, ?_, ?_⟩
  · change p.tick.receive.waiting = false
    rw [hreceive, waiting, hactive]
    rfl
  · change p.tick.receive.verdict = .ok ()
    have hnone : p.tick.faulted = 0 := by rw [tick, if_pos hlaunched.driving, hlaunched.faulted_eq]
    rw [hreceive]
    exact if_pos hnone
  · have hlength := p.scheduler.tick_length
    rw [hscheduler, Scheduler.faults, ← hlaunched.tick_eq, hlaunched.sent_tick,
      List.countP_append, Scheduler.countP_completed fun d hd => decide_eq_true (hreasons d hd)]
    rw [← hlaunched.tick_eq, hactive, hlaunched.active_eq] at hlength
    omega

/-! ### The whole truth -/

private theorem exists_of_toOption_map {ε α β : Type} {r : Except ε α} {f : α → β} {b : β}
    (h : r.toOption.map f = some b) : ∃ a, r = .ok a ∧ f a = b := by
  cases r with
  | error e => cases h
  | ok a => exact ⟨a, rfl, Option.some.inj h⟩

/-- The player leaves no session active, whatever the scripts do and whatever is configured, and
in whatever order it ticks and receives, just where it has a single script at most or where the
channel keeps a start and an end of every session. -/
theorem waits_for_all_iff (capacity n : Nat) :
    (∀ (η : Type) [Host η] (p : Player η), p.Starts capacity n → ∀ ms,
      (p.after ms).waiting = false → (p.after ms).scheduler.isIdle = true) ↔
    n ≤ 1 ∨ 2 * n ≤ (max capacity 1).nextPowerOfTwo := by
  constructor
  · intro hall
    by_contra hroom
    have hlag : (max capacity 1).nextPowerOfTwo < 2 * n := by omega
    obtain ⟨p, ms, hstarts, hwaiting, hactive⟩ := exists_left_active (by omega) hlag
    have hidle := hall Stage p hstarts ms hwaiting
    rw [hactive] at hidle
    cases hidle
  · intro hroom η _ p hstarts ms hwaiting
    obtain ⟨config, hcapacity, hlaunched⟩ := hstarts.launched
    rcases hroom with hone | hfits
    · obtain ⟨htally, hle⟩ := hlaunched.active_le_after hone ms
      have hzero : (p.after ms).outstanding = 0 := by simpa [waiting] using hwaiting
      have hbalance := htally.tallied.balance
      rw [htally.isIdle_iff]
      omega
    · obtain ⟨htally, hexact⟩ := hlaunched.exact_after (hcapacity ▸ hfits) ms
      rw [htally.isIdle_iff]
      exact (hexact.ended_eq htally hwaiting).1

/-- Two of three scripts end in the first tick, over a channel that keeps one event. The player
misses one of the ends and counts the other twice, so it leaves the third session active. -/
theorem left_active_of_three :
    ∃ p : Player Stage, (new { eventBufferSize := 1 } ⟨{}, {}⟩).launchAll scripts 1
        ["first", "other", "other"] = .ok p ∧
      (p.after [.tick, .receive, .receive]).waiting = false ∧
      (p.after [.tick, .receive, .receive]).scheduler.isIdle = false := by
  have hrun : ((new { eventBufferSize := 1 } (⟨{}, {}⟩ : World Stage)).launchAll scripts 1
      ["first", "other", "other"]).toOption.map (fun p =>
        ((p.after [.tick, .receive, .receive]).waiting,
          (p.after [.tick, .receive, .receive]).scheduler.isIdle)) = some (false, false) := by
    decide +kernel
  obtain ⟨p, hlaunch, hleft⟩ := exists_of_toOption_map hrun
  exact ⟨p, hlaunch, congrArg Prod.fst hleft, congrArg Prod.snd hleft⟩

/-- The verdict of the player, once it waits no more, counts just the sessions that were
published as faulted, whatever the scripts do and whatever is configured, and in whatever order
it ticks and receives, just where the channel keeps a start and an end of every session. -/
theorem verdict_true_iff (capacity n : Nat) :
    (∀ (η : Type) [Host η] (p : Player η), p.Starts capacity n → ∀ ms,
      (p.after ms).waiting = false → (p.after ms).verdict =
        if (p.after ms).scheduler.faults = 0 then .ok ()
        else .error (.faulted (p.after ms).scheduler.faults)) ↔
    2 * n ≤ (max capacity 1).nextPowerOfTwo := by
  constructor
  · intro hall
    by_contra hroom
    obtain ⟨p, ms, hstarts, hwaiting, hverdict, hfaults⟩ :=
      exists_faults_missed (Nat.lt_of_not_le hroom)
    have htrue := hall Stage p hstarts ms hwaiting
    rw [hverdict, if_neg hfaults] at htrue
    cases htrue
  · intro hfits η _ p hstarts ms hwaiting
    obtain ⟨config, hcapacity, hlaunched⟩ := hstarts.launched
    obtain ⟨htally, hexact⟩ := hlaunched.exact_after (hcapacity ▸ hfits) ms
    exact verdict_of_faulted (hexact.faulted_eq htally hwaiting)

/-- A single session faults in the first tick, over a channel that keeps one event. The player
has not received the start yet, so it lags and never looks at the fault. -/
theorem fault_missed_of_one :
    ∃ p : Player Stage, (new { interpreter := { maxTicks := some 0 }, eventBufferSize := 1 }
        ⟨{}, {}⟩).launchAll scripts 1 ["other"] = .ok p ∧
      (p.after [.tick, .receive]).waiting = false ∧
      (p.after [.tick, .receive]).verdict = .ok () ∧
      (p.after [.tick, .receive]).scheduler.faults = 1 := by
  have hrun : ((new { interpreter := { maxTicks := some 0 }, eventBufferSize := 1 }
      (⟨{}, {}⟩ : World Stage)).launchAll scripts 1 ["other"]).toOption.map (fun p =>
        ((p.after [.tick, .receive]).waiting, (p.after [.tick, .receive]).faulted,
          (p.after [.tick, .receive]).scheduler.faults)) = some (false, 0, 1) := by
    decide +kernel
  obtain ⟨p, hlaunch, hmissed⟩ := exists_of_toOption_map hrun
  have hfaulted := congrArg (fun r => r.2.1) hmissed
  exact ⟨p, hlaunch, congrArg Prod.fst hmissed, if_pos hfaulted, congrArg (fun r => r.2.2) hmissed⟩

end Player

end EventScript
