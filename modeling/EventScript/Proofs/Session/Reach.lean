import EventScript.Program.Interpreter
import EventScript.Proofs.Session.Step

/-!
# What an update of an interpreter can be, and where updates lead

`Interpreter.Updates` lists the outcomes of an update with all that it changes.
`Interpreter.Reaches` closes an interpreter under updates and pauses. Each update of a run
meets a factory, a game and a host of its own, so nothing is assumed of what others do to
them between two updates.

`Session.InOrder` is the shape of what a run keeps of the phases and memories of commands: one
condition for the command at the cursor and its token, and for all others without a token.
-/

namespace EventScript

namespace Interpreter

variable {η : Type} [Host η]

/-- What an update can be. -/
inductive Updates (i : Interpreter) (services : Services η) : Reply TickReport η → Prop
  /-- There is no session. -/
  | inactive (h : i.session = none) :
    Updates i services { result := .inactive, interpreter := i, services }
  | paused {s : Session} (h : i.session = some s) (hp : s.paused = true) :
    Updates i services { result := .paused, interpreter := i, services }
  /-- The tick limit is passed, and the command in flight is aborted. -/
  | limited {s s' : Session} {limit : Nat} {world : World η} (h : i.session = some s)
    (hp : s.paused = false) (hl : i.config.maxTicks = some limit) (hlt : limit < s.ticks + 1)
    (ht : s'.ticks = s.ticks + 1)
    (ha : Session.abortInFlight { s with ticks := s.ticks + 1 }
      (services.world.report (.tickLimitExceeded i.owner limit)) = (s', world)) :
    Updates i services (i.complete s' .faulted { services with world })
  /-- The session goes on. -/
  | advanced {s s' : Session} {r : TickReport} {world : World η} (h : i.session = some s)
    (hp : s.paused = false) (hl : i.overLimit (s.ticks + 1) = none)
    (hs : Session.Steps { s with ticks := s.ticks + 1 } i.owner services.world
      (.report r) s' world) :
    Updates i services { result := r, interpreter := { i with session := some s' },
                         services := { services with world } }
  /-- The session ends by its last step. -/
  | ended {s s' : Session} {reason : CompletionReason} {world : World η}
    (h : i.session = some s) (hp : s.paused = false) (hl : i.overLimit (s.ticks + 1) = none)
    (hs : Session.Steps { s with ticks := s.ticks + 1 } i.owner services.world
      (.complete reason) s' world) :
    Updates i services (i.complete s' reason { services with world })

/-- Every update is one of these. -/
theorem updates_update (i : Interpreter) (services : Services η) :
    i.Updates services (i.update services) := by
  unfold update
  cases h : i.session with
  | none => exact .inactive h
  | some s =>
    dsimp only
    by_cases hp : s.paused = true
    · rw [if_pos hp]
      exact .paused h hp
    · rw [if_neg hp]
      rw [Bool.not_eq_true] at hp
      cases hl : i.overLimit (s.ticks + 1) with
      | some limit =>
        have hlimit := Option.filter_eq_some_iff.mp hl
        have hticks := congrArg Session.ticks (Session.abortInFlight_eq
          { s with ticks := s.ticks + 1 }
          (services.world.report (.tickLimitExceeded i.owner limit)))
        exact .limited h hp hlimit.1 (of_decide_eq_true hlimit.2) hticks rfl
      | none =>
        have hs := Session.steps_step { s with ticks := s.ticks + 1 } i.owner services.world
        dsimp only
        generalize Session.step { s with ticks := s.ticks + 1 } i.owner services.world = stepped
          at hs
        obtain ⟨st, s', world⟩ := stepped
        cases st with
        | report r => exact .advanced h hp hl hs
        | complete reason => exact .ended h hp hl hs

/-- Without a session an update does nothing. -/
theorem update_of_inactive {i : Interpreter} (h : i.session = none) (services : Services η) :
    i.update services = { result := .inactive, interpreter := i, services } := by
  rw [update, h]

/-- An update of a paused session does nothing either. -/
theorem update_of_paused {i : Interpreter} {s : Session} (h : i.session = some s)
    (hp : s.paused = true) (services : Services η) :
    i.update services = { result := .paused, interpreter := i, services } := by
  rw [update, h]
  exact if_pos hp

/-- Where there is no limit on ticks, none is passed. -/
theorem overLimit_of_unlimited {i : Interpreter} (h : i.config.maxTicks = none) (ticks : Nat) :
    i.overLimit ticks = none := by
  rw [overLimit, h]
  rfl

/-- Within the tick limit, an update of a session that runs is a step of it. -/
theorem update_of_report {i : Interpreter} {services : Services η} {s s' : Session}
    {r : TickReport} {world : World η} (h : i.session = some s) (hp : s.paused = false)
    (hl : i.overLimit (s.ticks + 1) = none)
    (hs : Session.Steps { s with ticks := s.ticks + 1 } i.owner services.world
      (.report r) s' world) :
    i.update services = { result := r, interpreter := { i with session := some s' },
                          services := { services with world } } := by
  unfold update
  rw [h]
  dsimp only
  rw [if_neg (by rw [hp]; decide), hl]
  dsimp only
  rw [hs.step_eq]

/-- Within the tick limit, an update of a session that runs ends it where its step does. -/
theorem update_of_complete {i : Interpreter} {services : Services η} {s s' : Session}
    {reason : CompletionReason} {world : World η} (h : i.session = some s)
    (hp : s.paused = false) (hl : i.overLimit (s.ticks + 1) = none)
    (hs : Session.Steps { s with ticks := s.ticks + 1 } i.owner services.world
      (.complete reason) s' world) :
    i.update services = i.complete s' reason { services with world } := by
  unfold update
  rw [h]
  dsimp only
  rw [if_neg (by rw [hp]; decide), hl]
  dsimp only
  rw [hs.step_eq]

/-- Where updates and pauses lead. -/
inductive Reaches (i : Interpreter) : Interpreter → Prop
  | refl : Reaches i i
  | update {j : Interpreter} {η : Type} [Host η] (services : Services η) :
    Reaches i j → Reaches i (j.update services).interpreter
  | setPaused {j : Interpreter} (paused : Bool) : Reaches i j → Reaches i (j.setPaused paused)

/-- An update changes neither the configuration nor the owner. -/
theorem Updates.config_owner {i : Interpreter} {services : Services η}
    {reply : Reply TickReport η} (h : i.Updates services reply) :
    reply.interpreter.config = i.config ∧ reply.interpreter.owner = i.owner := by
  cases h <;> exact ⟨rfl, rfl⟩

/-- No run changes the configuration. -/
theorem Reaches.config {i j : Interpreter} (h : i.Reaches j) : j.config = i.config := by
  induction h with
  | refl => rfl
  | update services _ ih => rw [(updates_update _ services).config_owner.1, ih]
  | setPaused _ _ ih => exact ih

/-- What holds of a session at its start, whatever the ticks and pauses, and is kept by
every step that does not end it, holds in every session that a run reaches. -/
theorem Reaches.session_invariant {P : Session → Prop} {i j : Interpreter} {p : Program}
    {notify : Bool} (start : P (.start p notify))
    (ticks : ∀ s n, P s → P { s with ticks := n })
    (paused : ∀ s b, P s → P { s with paused := b })
    (step : ∀ {η : Type} [Host η] {s s' : Session} {owner : Owner} {w w' : World η}
      {r : TickReport}, s.Steps owner w (.report r) s' w' → P s → P s')
    (h : (i.begin p notify).Reaches j) {s : Session} (hs : j.session = some s) : P s := by
  induction h generalizing s with
  | refl => cases hs; exact start
  | @update j η _ services _ ih =>
    have hu := updates_update j services
    generalize j.update services = reply at hu hs
    cases hu with
    | inactive h => exact ih hs
    | paused h => exact ih hs
    | limited => cases hs
    | advanced h _ _ hstep =>
      cases hs
      exact step hstep (ticks _ _ (ih h))
    | ended => cases hs
  | @setPaused j b _ ih =>
    obtain ⟨s', hs', rfl⟩ := Option.map_eq_some_iff.mp hs
    exact paused s' b (ih hs')

end Interpreter

/-! ### The commands between two ticks -/

namespace Session

/-- A condition on a command that waits for a token, or for none, which its ticks keep. No
disabled command waits, one that suspends waits for the token that it left, and one that has
ended is reset. -/
structure KeptByTicks (R : Command → Option Token → Prop) : Prop where
  disabled {c : Command} {pending : Option Token} :
    R c pending → c.enabled = false → pending = none
  suspended {η : Type} [Host η] {c : Command} {pending : Option Token} {owner : Owner}
    {w : World η} {token : Token} : R c pending → c.enabled = true →
      (runCommand c pending owner w).result = .ok (.suspended token) →
      R (runCommand c pending owner w).command (some token)
  reset {c : Command} {pending : Option Token} : R c pending → R c.reset none

/-- The condition holds of the command at the cursor with the token of the session, and of
every other command without one. -/
structure InOrder (R : Command → Option Token → Prop) (s : Session) : Prop where
  elsewhere : ∀ i c, i ≠ s.cursor → s.program.get? i = some c → R c none
  here : ∀ c, s.program.get? s.cursor = some c → R c s.pending
  left : s.pending.isSome → ∃ c, s.program.get? s.cursor = some c

namespace InOrder

variable {R : Command → Option Token → Prop} {s s' : Session}

/-- Without a token the cursor may stand anywhere. -/
theorem of_program (hp : ∀ i c, s.program.get? i = some c → R c none) (h : s.pending = none) :
    s.InOrder R where
  elsewhere i c _ hc := hp i c hc
  here c hc := by rw [h]; exact hp s.cursor c hc
  left hsome := by rw [h] at hsome; cases hsome

/-- Without a token no command waits for one. -/
theorem program (h : s.InOrder R) (hnone : s.pending = none) :
    ∀ i c, s.program.get? i = some c → R c none := by
  intro i c hc
  by_cases hi : i = s.cursor
  · subst hi
    have hhere := h.here c hc
    rwa [hnone] at hhere
  · exact h.elsewhere i c hi hc

/-- The number of ticks plays no part. -/
theorem clock (h : s.InOrder R) (n : Nat) : InOrder R { s with ticks := n } :=
  ⟨h.elsewhere, h.here, h.left⟩

/-- A step that does not end the session keeps its commands in order. -/
theorem step (hR : KeptByTicks R) {η : Type} [Host η] {owner : Owner} {w w' : World η}
    {r : TickReport} (hs : s.Steps owner w (.report r) s' w') (h : s.InOrder R) :
    s'.InOrder R := by
  cases hs with
  | skipped hc hd =>
    have hnone := hR.disabled (h.here _ hc) hd
    exact of_program (h.program hnone) hnone
  | @suspended c token ran hc he hran hr =>
    subst hran
    have hset := Program.get?_set_self hc (runCommand c s.pending owner w).command
    refine ⟨?_, ?_, fun _ => ⟨_, hset⟩⟩
    · intro i d hi hd
      rw [Program.get?_set_of_ne (Ne.symm hi)] at hd
      exact h.elsewhere i d hi hd
    · intro d hd
      obtain rfl := Option.some.inj (hset.symm.trans hd)
      exact hR.suspended (h.here c hc) he hr
  -- Wherever the cursor goes, the command that has ended is reset and no other one waited.
  | @executed c ran r stack next hc he hran =>
    have hreset : R ran.command.reset none := by
      rw [hran, reset_runCommand]
      exact hR.reset (h.here c hc)
    exact of_program (Program.forall_set hreset h.elsewhere) rfl

/-- In every session that a run reaches the commands are in order, if they are so at rest. -/
theorem of_reaches (hR : KeptByTicks R) {i j : Interpreter} {p : Program} {notify : Bool}
    (hp : ∀ k c, p.get? k = some c → R c none) (h : (i.begin p notify).Reaches j)
    (hs : j.session = some s) : s.InOrder R :=
  h.session_invariant (of_program hp rfl) (fun _ n h => h.clock n)
    (fun _ _ h => ⟨h.elsewhere, h.here, h.left⟩) (step hR) hs

end InOrder

end Session

end EventScript
