import EventScript.Host.Stage
import EventScript.Proofs.Desk.Basic

/-!
# The tick limit

A limit on ticks plays no part as long as no session gets more ticks than it allows. The next tick
after that runs no command: it gives up the command in flight as a stop does, and ends the session
as faulted. Ticks are the updates of a session that were not paused; `Desk.count` counts them from
the start of the session on, and the commands that were executed in them.
-/

namespace EventScript

namespace Interpreter

/-- The interpreter under another limit on ticks. -/
def limited (limit : Option Nat) (i : Interpreter) : Interpreter :=
  { i with config := { i.config with maxTicks := limit } }

variable {limit : Option Nat}

/-- Programs are refused and taken under any limit. -/
theorem startProgram_limited {η : Type} (i : Interpreter) (p : Program) (notify : Bool)
    (services : Services η) : (i.limited limit).startProgram p notify services =
      (i.startProgram p notify services).mapInterpreter (limited limit) := by
  obtain ⟨config, owner, session, completed⟩ := i
  cases session <;> rfl

variable {η : Type} [Host η]

/-- So they are where they are built first. -/
theorem start_limited (i : Interpreter) (ds : List Descriptor) (services : Services η) :
    (i.limited limit).start ds services =
      (i.start ds services).mapInterpreter (limited limit) := by
  obtain ⟨config, owner, session, completed⟩ := i
  cases session with
  | some s => rfl
  | none =>
    simp only [start, limited]
    split <;> rfl

/-- A stop does not ask for the limit. -/
theorem stop_limited (i : Interpreter) (services : Services η) :
    (i.limited limit).stop services = (i.stop services).mapInterpreter (limited limit) := by
  obtain ⟨config, owner, session, completed⟩ := i
  cases session <;> rfl

/-- An update that stays within the limit goes as it goes without any. -/
theorem update_limited {i : Interpreter} {n : Nat} (hfree : i.config.maxTicks = none)
    (hn : ∀ s, i.session = some s → s.paused = false → s.ticks < n) (services : Services η) :
    (i.limited (some n)).update services =
      (i.update services).mapInterpreter (limited (some n)) := by
  have hu := updates_update i services
  generalize i.update services = reply at hu ⊢
  -- Where the session runs, its tick is within the limit.
  have hwithin : ∀ s, i.session = some s → s.paused = false →
      (i.limited (some n)).overLimit (s.ticks + 1) = none := by
    intro s hs hp
    have hlt := hn s hs hp
    simp [overLimit, limited]
    omega
  cases hu with
  | inactive hs => exact update_of_inactive (i := i.limited (some n)) hs services
  | paused hs hp => exact update_of_paused (i := i.limited (some n)) hs hp services
  | limited _ _ hl => rw [hfree] at hl; cases hl
  | advanced hs hp _ hstep => exact update_of_report hs hp (hwithin _ hs hp) hstep
  | ended hs hp _ hstep => exact update_of_complete hs hp (hwithin _ hs hp) hstep

/-- A stop does not touch the game. -/
theorem game_stop (i : Interpreter) (services : Services η) :
    (i.stop services).services.world.game = services.world.game := by
  unfold stop
  cases i.session with
  | none => rfl
  | some s => exact s.game_abortInFlight services.world

/-- The tick that passes the limit gives up the command in flight as a stop does, once the limit is
reported, and ends the session as faulted. -/
theorem update_over_limit {i : Interpreter} {s : Session} {n : Nat} (hs : i.session = some s)
    (hp : s.paused = false) (hl : i.config.maxTicks = some n) (hn : s.ticks = n)
    (services : Services η) :
    let done : Completion := ⟨i.owner, .faulted, n + 1, s.executed⟩
    let reported : Services η :=
      { services with world := services.world.report (.tickLimitExceeded i.owner n) }
    i.update services =
      { result := .completed done
        announced := if s.notify then some done else none
        interpreter := { i with session := none, completed := true }
        services := (i.stop reported).services } := by
  intro done reported
  have hover : i.overLimit (s.ticks + 1) = some n := by simp [overLimit, hl, hn]
  have hcut := s.abortInFlight_eq reported.world
  unfold update stop
  rw [hs]
  dsimp only
  rw [if_neg (by rw [hp]; decide), hover]
  dsimp only
  rw [s.abortInFlight_ticks]
  generalize s.abortInFlight reported.world = cut at hcut ⊢
  obtain ⟨s', world⟩ := cut
  dsimp only at hcut
  rw [hcut, complete, Session.completion, hn]

end Interpreter

namespace Desk

/-- What has become of the session that was started last. -/
structure Count where
  /-- Its ticks: updates that were not paused. -/
  ticks : Nat := 0
  /-- Commands that were executed in them. -/
  executed : Nat := 0

variable {η : Type}

/-- The desk under a limit on ticks. -/
def limited (limit : Nat) (d : Desk η) : Desk η :=
  d.mapInterpreter (Interpreter.limited (some limit))

/-- The entry of the same call under a limit on ticks. -/
def Entry.limited (limit : Nat) (e : Entry η) : Entry η :=
  e.mapInterpreter (Interpreter.limited (some limit))

/-- Count what an entry reports. -/
def Count.add (c : Count) (e : Entry η) : Count :=
  match e.reply.result with
  | .started (.ok _) => {}
  | .updated (.executed _ _ _) => ⟨c.ticks + 1, c.executed + 1⟩
  | .updated (.skipped _) | .updated (.suspended _) | .updated (.completed _) =>
    { c with ticks := c.ticks + 1 }
  | _ => c

/-- The count at the end of a run. -/
def count (run : List (Entry η)) : Count := run.foldl Count.add {}

/-- The session, if there is one, has counted the same. -/
def Count.Fits (c : Count) (i : Interpreter) : Prop :=
  ∀ s, i.session = some s → s.ticks = c.ticks ∧ s.executed = c.executed

section

variable [Host η] {c : Count} {d : Desk η}

/-- Every call keeps that: a start counts anew, and a tick counts one more. -/
theorem Count.Fits.enter (h : c.Fits d.interpreter) (call : Call η) :
    (c.add (d.enter call)).Fits (d.enter call).desk.interpreter := by
  have hr := d.replies_reply call
  unfold Desk.enter Entry.desk
  generalize d.reply call = r at hr ⊢
  cases hr with
  | running | runningProgram | malformed | idle | outside => exact h
  | accepted | acceptedProgram =>
    rintro s ⟨⟩
    exact ⟨rfl, rfl⟩
  | stopped =>
    rintro s ⟨⟩
  | setPaused paused =>
    intro s hs
    obtain ⟨s₀, hs₀, rfl⟩ := Option.map_eq_some_iff.mp hs
    exact h s₀ hs₀
  | updated hu =>
    cases hu with
    | inactive | paused => exact h
    | limited | ended =>
      rintro s ⟨⟩
    | advanced hs _ _ hstep =>
      obtain ⟨hticks, hexecuted⟩ := h _ hs
      rintro s ⟨⟩
      refine ⟨?_, ?_⟩
      · rw [hstep.ticks]
        cases hstep <;> exact congrArg (· + 1) hticks
      · cases hstep with
        | skipped | suspended => exact hexecuted
        | executed => exact congrArg (· + 1) hexecuted

/-- An update of a session that runs is a tick. -/
theorem Count.ticks_add_update {s : Session} (hs : d.interpreter.session = some s)
    (hp : s.paused = false) : (c.add (d.enter .update)).ticks = c.ticks + 1 := by
  have hr := d.replies_reply .update
  unfold Desk.enter
  generalize d.reply .update = r at hr ⊢
  cases hr with
  | updated hu =>
    cases hu with
    | inactive h => rw [h] at hs; cases hs
    | paused h hpaused =>
      obtain rfl := Option.some.inj (h.symm.trans hs)
      rw [hpaused] at hp
      cases hp
    | limited | ended => rfl
    | advanced _ _ _ hstep => cases hstep <;> rfl

/-- No call changes the configuration or the owner. -/
theorem config_owner_enter (d : Desk η) (call : Call η) :
    (d.enter call).desk.interpreter.config = d.interpreter.config ∧
      (d.enter call).desk.interpreter.owner = d.interpreter.owner := by
  have hr := d.replies_reply call
  unfold enter Entry.desk
  generalize d.reply call = r at hr ⊢
  cases hr with
  | updated hu => exact hu.config_owner
  | _ => exact ⟨rfl, rfl⟩

/-- A call that does not pass the limit gets its reply as if there were none. -/
theorem enter_limited {limit : Nat} (hfree : d.interpreter.config.maxTicks = none)
    (hfits : c.Fits d.interpreter) (call : Call η)
    (hwithin : (c.add (d.enter call)).ticks ≤ limit) :
    (d.limited limit).enter call = (d.enter call).limited limit := by
  have hcall : (d.limited limit).reply call =
      (d.reply call).mapInterpreter (Interpreter.limited (some limit)) := by
    cases call with
    | start ds => exact congrArg (Reply.map _) (d.interpreter.start_limited ds d.services)
    | startProgram p notify =>
      exact congrArg (Reply.map _) (d.interpreter.startProgram_limited p notify d.services)
    | update =>
      refine congrArg (Reply.map _) (Interpreter.update_limited hfree ?_ d.services)
      intro s hs hp
      rw [(hfits s hs).1]
      rw [Count.ticks_add_update hs hp] at hwithin
      exact hwithin
    | stop => exact congrArg (Reply.map _) (d.interpreter.stop_limited d.services)
    | setPaused | outside => rfl
  exact congrArg (Entry.mk call) hcall

/-- Calls that do not pass the limit get their replies as if there were none, and the session that
they leave has counted what they report. -/
theorem run_limited {limit : Nat} (hfree : d.interpreter.config.maxTicks = none)
    (hfits : c.Fits d.interpreter) (calls : List (Call η))
    (hwithin : ∀ front, front <+: d.run calls → (front.foldl Count.add c).ticks ≤ limit) :
    (d.limited limit).run calls = (d.run calls).map (Entry.limited limit) ∧
      (d.limited limit).after calls = (d.after calls).limited limit ∧
      ((d.run calls).foldl Count.add c).Fits (d.after calls).interpreter := by
  induction calls generalizing d c with
  | nil => exact ⟨rfl, rfl, hfits⟩
  | cons call rest ih =>
    have hfirst : [d.enter call] <+: d.run (call :: rest) := List.prefix_append [_] _
    have hlimited := enter_limited hfree hfits call (hwithin _ hfirst)
    obtain ⟨hrun, hafter, hlater⟩ := ih
      ((congrArg InterpreterConfig.maxTicks (config_owner_enter d call).1).trans hfree)
      (hfits.enter call)
      fun front hfront => hwithin _ ((List.prefix_cons_inj (d.enter call)).mpr hfront)
    refine ⟨?_, ?_, hlater⟩
    · rw [run, hlimited, run, List.map_cons]
      exact congrArg (List.cons _) hrun
    · rw [after, hlimited]
      exact hafter

/-- Calls change neither the configuration nor the owner. -/
theorem config_owner_after (d : Desk η) (calls : List (Call η)) :
    (d.after calls).interpreter.config = d.interpreter.config ∧
      (d.after calls).interpreter.owner = d.interpreter.owner := by
  induction calls generalizing d with
  | nil => exact ⟨rfl, rfl⟩
  | cons call rest ih =>
    obtain ⟨hconfig, howner⟩ := config_owner_enter d call
    obtain ⟨hconfigs, howners⟩ := ih (d.enter call).desk
    exact ⟨hconfigs.trans hconfig, howners.trans howner⟩

end

variable [Host η]

/-- The limit is passed by the tick that comes after all that it allows. An interpreter under a
limit replies to calls as one without does, and leaves the same behind, as long as no session has
had more ticks than the limit. Where one has had just as many and goes on without the limit, its
next tick under the limit executes no command: it reports the limit, gives up the command in flight
as a stop does, with the game left alone, and ends the session as faulted, one tick later than the
last and with as many commands as were executed by then. -/
theorem tick_limit_passed {d : Desk η} (hfree : d.interpreter.config.maxTicks = none)
    (hidle : d.interpreter.session = none) (limit : Nat) (calls : List (Call η))
    (hwithin : ∀ front, front <+: d.run calls → (count front).ticks ≤ limit) :
    let last := d.after calls
    let reached := count (d.run calls)
    (d.limited limit).run calls = (d.run calls).map (Entry.limited limit) ∧
      (d.limited limit).after calls = last.limited limit ∧
      ∀ s, last.interpreter.session = some s → s.paused = false → reached.ticks = limit →
        let done : Completion :=
          ⟨d.interpreter.owner, .faulted, limit + 1, reached.executed⟩
        let reported : Services η := { last.services with
          world := last.services.world.report (.tickLimitExceeded d.interpreter.owner limit) }
        let stopped := (last.interpreter.stop reported).services
        ((d.limited limit).after calls).reply .update =
            { result := .updated (.completed done)
              announced := if s.notify then some done else none
              interpreter :=
                { d.interpreter.limited (some limit) with session := none, completed := true }
              services := stopped } ∧
          stopped.world.game = last.services.world.game := by
  intro last reached
  have hfits : Count.Fits {} d.interpreter := by
    intro s hs
    rw [hidle] at hs
    cases hs
  obtain ⟨hrun, hafter, hcounted⟩ := run_limited hfree hfits calls hwithin
  refine ⟨hrun, hafter, ?_⟩
  intro s hs hp hreached done reported stopped
  obtain ⟨hticks, hexecuted⟩ := hcounted s hs
  -- Under the limit, the interpreter is still configured as at its start, and has its owner.
  obtain ⟨hconfig, howner⟩ :
      (last.interpreter.limited (some limit)).config =
          (d.interpreter.limited (some limit)).config ∧
        (last.interpreter.limited (some limit)).owner = d.interpreter.owner := by
    have hsame := config_owner_after (d.limited limit) calls
    rwa [hafter] at hsame
  refine ⟨?_, last.interpreter.game_stop reported⟩
  have hover := Interpreter.update_over_limit hs hp rfl (hticks.trans hreached) last.services
    (i := last.interpreter.limited (some limit))
  dsimp only at hover
  rw [last.interpreter.stop_limited, hconfig, howner, hexecuted] at hover
  rw [hafter]
  exact congrArg (Reply.map Answer.updated) hover

/-- A message is still open when the limit of two ticks is passed; the pause before that does not
count. The message is closed, and one command was executed. -/
theorem tick_limit_passed_message :
    let commands := [Command.ofAction (.comment "Hello"),
      .ofAction (.showMessage (.waiting "Hello"))]
    let calls : List (Call Stage) := [.startProgram ⟨commands, {}⟩ true, .update, .update,
      .setPaused true, .update, .setPaused false]
    let d : Desk Stage := ⟨{}, ⟨{}, ⟨{}, { presenter := .recording {} }⟩⟩⟩
    let passing := ((d.limited 2).after calls).reply .update
    passing.announced = some ⟨.global, .faulted, 3, 1⟩ ∧
      passing.services.world.host.presenter = .recording
        { events := [.messageShown 1 none "Hello", .messageClosed 1], lastHandle := 1 } := by
  intro commands calls d passing
  have hwithin : ∀ n < 7, (count ((d.run calls).take n)).ticks ≤ 2 := by decide +kernel
  obtain ⟨-, -, hpassed⟩ := tick_limit_passed (d := d) rfl rfl 2 calls (by
    intro front hfront
    rw [List.prefix_iff_eq_take.mp hfront]
    exact hwithin _ (Nat.lt_succ_of_le hfront.length_le))
  obtain ⟨hreply, -⟩ := hpassed _ rfl rfl (by decide +kernel)
  have hpassing : passing = _ := hreply
  rw [hpassing]
  exact ⟨by decide +kernel, rfl⟩

end Desk

end EventScript
