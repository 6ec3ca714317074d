import EventScript.Host.Stage
import EventScript.Proofs.Factory.Stock
import EventScript.Proofs.Scheduler.Lifecycle

/-!
# Where the instances of a pool are

The instances that a scheduler has taken from the pool of its factory are in the programs of
its active sessions: a start takes one for each command of the new program, and a session that
leaves, whichever way, gives back all that its program had. `Scheduler.Stocked` keeps this
account, and every call keeps it.
-/

namespace EventScript

/-- Number of instances in the program of the session, if there is one. -/
def Interpreter.borrowed (i : Interpreter) : Nat := (i.session.map fun s => s.program.size).getD 0

section

variable {η : Type} [Host η]

/-- No step changes the number of commands. -/
theorem Session.Steps.size_eq {s s' : Session} {owner : Owner} {w w' : World η} {st : Step}
    (h : s.Steps owner w st s' w') : s'.program.size = s.program.size :=
  Program.size_eq_of_written_eq h.written

/-- Nor does an abort. -/
theorem Session.size_abortInFlight (s : Session) (w : World η) :
    (s.abortInFlight w).1.program.size = s.program.size := by
  unfold abortInFlight
  split
  · rfl
  · exact List.length_set

variable {capacity n : Nat}

/-- A turn gives back what its session has no more. -/
theorem Turn.lends {t : Turn η}
    (h : t.services.factory.pool.Lends capacity (n + t.interpreter.borrowed)) :
    t.reply.services.factory.pool.Lends capacity (n + t.reply.interpreter.borrowed) := by
  have hu := t.updates
  generalize t.reply = reply at hu ⊢
  cases hu with
  | inactive | paused => exact h
  | @limited s s' limit world hs _ _ _ _ ha =>
    have hcut := congrArg (fun p => p.1.program.size) ha
    have hsize : s.program.size = s'.program.size := by rwa [Session.size_abortInFlight] at hcut
    rw [Interpreter.borrowed, hs, Option.map_some, Option.getD_some, hsize] at h
    exact Pool.Lends.releaseAll h
  | @advanced s s' r world hs _ _ hstep =>
    rw [Interpreter.borrowed, hs, Option.map_some, Option.getD_some, ← hstep.size_eq] at h
    exact h
  | @ended s s' reason world hs _ _ hstep =>
    rw [Interpreter.borrowed, hs, Option.map_some, Option.getD_some, ← hstep.size_eq] at h
    exact Pool.Lends.releaseAll h

/-- A turn that completes its session leaves it nothing. -/
theorem Turn.borrowed_of_completed {t : Turn η} {completion : Completion}
    (hr : t.reply.result = .completed completion) : t.reply.interpreter.borrowed = 0 := by
  have hu := t.updates
  generalize t.reply = reply at hr hu ⊢
  cases hu with
  | inactive | paused => cases hr
  | limited | ended => rfl
  | advanced _ _ _ hstep => cases hr; cases hstep

/-- A stop gives back all that the session has. -/
theorem Interpreter.stop_lends {i : Interpreter} {services : Services η}
    (h : services.factory.pool.Lends capacity (n + i.borrowed)) :
    (i.stop services).services.factory.pool.Lends capacity n := by
  unfold stop
  cases hs : i.session with
  | none =>
    rw [borrowed, hs] at h
    exact h
  | some s =>
    rw [borrowed, hs, Option.map_some, Option.getD_some,
      ← Session.size_abortInFlight s services.world] at h
    exact Pool.Lends.releaseAll h

end

namespace Scheduler

variable {η : Type}

/-- Number of instances in the programs of sessions. -/
def lent (l : List (SessionId × Interpreter)) : Nat := (l.map fun e => e.2.borrowed).sum

/-- The session between two parts of a list counts like one beside them. -/
theorem lent_append_cons (before after : List (SessionId × Interpreter)) (id : SessionId)
    (i : Interpreter) :
    lent (before ++ (id, i) :: after) = lent (before ++ after) + i.borrowed := by
  simp only [lent, List.map_append, List.map_cons, List.sum_append_nat, List.sum_cons]
  omega

/-- The instances that the pool has out are those of the active sessions. -/
structure Stocked (config : RuntimeConfig) (s : Scheduler η) : Prop where
  orderly : s.Orderly config
  lends : s.services.factory.pool.Lends config.interpreter.poolCapacity (lent s.sessions)

namespace Stocked

variable {config : RuntimeConfig} {s : Scheduler η}

/-- A new scheduler has nothing out. -/
theorem new (config : RuntimeConfig) (world : World η) :
    (Scheduler.new config world).Stocked config :=
  ⟨.withServices .., .new _⟩

/-- A pause borrows nothing and gives nothing back. -/
theorem setPaused (h : s.Stocked config) (id : SessionId) (paused : Bool) :
    (s.modify id fun i => i.setPaused paused).2.Stocked config := by
  refine ⟨h.orderly.setPaused id paused, ?_⟩
  have hlends := h.lends
  have hsame : ∀ i : Interpreter, (i.setPaused paused).borrowed = i.borrowed := by
    intro i
    rw [Interpreter.borrowed, Interpreter.setPaused, Option.map_map]
    rfl
  rcases s.modify_cases id fun i => i.setPaused paused with hm | hm <;> rw [hm]
  · exact hlends
  · have hlent : lent (s.sessions.map fun e =>
        if e.1 = id then (id, e.2.setPaused paused) else e) = lent s.sessions := by
      rw [lent, List.map_map, lent]
      congr 1
      apply List.map_congr_left
      intro e _
      by_cases he : e.1 = id
      · simp [he, hsame]
      · simp [he]
    rwa [← hlent] at hlends

variable [Host η]

/-- A start takes the instances of the new program. -/
theorem spawn (h : s.Stocked config) (owner : Owner) (ds : List Descriptor) :
    (s.spawn owner ds).2.Stocked config := by
  refine ⟨h.orderly.spawn owner ds, ?_⟩
  have hbuilt : (s.made ds).factory.pool.Lends _
      (_ + ((s.made ds).result.toOption.map Program.size).getD 0) :=
    Factory.build_lends h.lends ds s.config.interpreter.mode
  rcases s.spawn_cases owner ds with ⟨limit, hs⟩ | ⟨e, hmade, hs⟩ | ⟨p, -, hmade, hs⟩ <;> rw [hs]
  · exact h.lends
  · rw [hmade] at hbuilt
    exact hbuilt
  · rw [hmade] at hbuilt
    have hlent : lent (s.sessions ++ [(⟨s.nextId⟩, s.opened owner p)]) =
        lent s.sessions + p.size := by
      rw [lent_append_cons, List.append_nil]
      rfl
    rw [Except.toOption, Option.map_some, Option.getD_some, ← hlent] at hbuilt
    exact hbuilt

/-- A stop gives back what the session has. -/
theorem stop (h : s.Stocked config) (id : SessionId) : (s.stop id).2.Stocked config := by
  refine ⟨h.orderly.stop id, ?_⟩
  have hlends := h.lends
  rcases s.stop_cases id with hs | ⟨i, hm, hs⟩ <;> rw [hs]
  · exact hlends
  · obtain ⟨before, after, hl⟩ := List.append_of_mem hm
    rw [hl, lent_append_cons] at hlends
    change (i.stop s.services).services.factory.pool.Lends _
      (lent (s.sessions.filter fun e => e.1 ≠ id))
    rw [h.orderly.filter_eq hl]
    exact Interpreter.stop_lends hlends

/-- A turn keeps the account. -/
theorem turn (h : s.Stocked config) {s' : Scheduler η} {t : Turn η} (ht : s.Turned t s') :
    s'.Stocked config := by
  refine ⟨h.orderly.turn ht, ?_⟩
  have hlends := h.lends
  cases ht with
  | goesOn hl hs hr =>
    rw [hl, lent_append_cons, ← hs] at hlends
    have hafter := Turn.lends hlends
    rwa [← lent_append_cons] at hafter
  | completes hl hs hr =>
    rw [hl, lent_append_cons, ← hs] at hlends
    have hafter := Turn.lends hlends
    rw [Turn.borrowed_of_completed hr] at hafter
    dsimp only [afterTurn]
    rw [services_announce]
    exact hafter

/-- Everything keeps the account, as long as others leave the factory alone. -/
theorem kept (config : RuntimeConfig) :
    Kept (fun a b : Services η => b.factory = a.factory) fun _ s => Stocked config s where
  outside hf h := ⟨h.orderly.unrelated .., hf ▸ h.lends⟩
  clock n h := ⟨h.orderly.unrelated _ n, h.lends⟩
  spawn owner ds h := h.spawn owner ds
  stop id h := h.stop id
  setPaused id paused h := h.setPaused id paused
  turn ht h := h.turn ht

end Stocked

/-- Whatever calls a new scheduler gets, and whatever others do to the game and the host in
between: every instance that was ever made is idle, dropped, or in the program of one active
session; what is idle is filed under its kind and within the capacity; and without sessions
nothing is out. -/
theorem instances_conserved {η : Type} [Host η] {config : RuntimeConfig} {world : World η}
    {ts : List (Turn η)} {s : Scheduler η}
    (h : (Scheduler.new config world).Reaches (fun a b => b.factory = a.factory) ts s) :
    let p := s.services.factory.pool
    p.acquired = p.reused + p.discarded + (Kind.all.map p.idleCount).sum +
      (s.sessions.map fun e => e.2.borrowed).sum ∧
    (∀ k, p.idleCount k ≤ config.interpreter.poolCapacity ∧ ∀ c ∈ p.idle k, c.kind = k) ∧
    (s.sessions = [] →
      p.acquired = p.reused + p.discarded + (Kind.all.map p.idleCount).sum) := by
  intro p
  have hlends := ((Stocked.kept config).of_reaches (.new config world) h).lends
  refine ⟨hlends.balance, ?_, ?_⟩
  · intro k
    refine ⟨hlends.bounded k, ?_⟩
    intro c hc
    rw [hlends.clean k c hc]
    exact Action.kind_default k
  · intro hnone
    have hbalance := hlends.balance
    have hzero : lent ([] : List (SessionId × Interpreter)) = 0 := rfl
    rwa [hnone, hzero, Nat.add_zero] at hbalance

/-- A program is rejected, and the next one, which has one of its comments, is cut short by the
tick limit. The pool has room for one of the two comments that come back then. -/
theorem instances_conserved_limited :
    let config : RuntimeConfig := { interpreter := { poolCapacity := 1, maxTicks := some 2 } }
    let start := fun as : List Action =>
      Operation.spawn .global (as.map fun a => Factory.describe (.ofAction a))
    let rejected := start [.comment "a", .loop]
    let cut := start [.comment "b", .comment "c", .wait 9]
    let s := (((Scheduler.new config (⟨{}, {}⟩ : World Stage)).perform rejected).perform
      cut).perform (.runUntilIdle 5)
    let p := s.services.factory.pool
    (p.acquired, p.reused, p.discarded) = (5, 1, 1) ∧
      p.acquired = p.reused + p.discarded + (Kind.all.map p.idleCount).sum := by
  intro config start rejected cut s p
  have hs : (Scheduler.new config ⟨{}, {}⟩).Reaches (fun a b => b.factory = a.factory) _ s :=
    ((Reaches.refl.perform rejected).perform cut).perform (.runUntilIdle 5)
  obtain ⟨-, -, hidle⟩ := instances_conserved hs
  have hnone : s.sessions.isEmpty = true := by decide +kernel
  exact ⟨by decide +kernel, hidle (List.isEmpty_iff.mp hnone)⟩

end Scheduler

end EventScript
