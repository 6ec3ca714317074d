import EventScript.Proofs.Session.Reach
import EventScript.Scheduler.Basic

/-!
# Turns of a tick

A tick gives each session one turn, in the order of the ids: its interpreter is updated with
the services that the turns before it have left. `Scheduler.Advances` lists the turns with
all that they change; `Scheduler.Turned` is one of them as a change of the whole scheduler,
and `Scheduler.tick_induction` carries what every turn keeps over a tick.
-/

namespace EventScript

/-- A session at its turn: its interpreter and the services that it meets. -/
structure Turn (η : Type) where
  interpreter : Interpreter
  services : Services η

namespace Turn

variable {η : Type} [Host η]

/-- What the turn comes to. -/
def reply (t : Turn η) : Reply TickReport η := t.interpreter.update t.services

/-- The turns of sessions in order. -/
def inOrder (services : Services η) : List (SessionId × Interpreter) → List (Turn η)
  | [] => []
  | (_, i) :: rest =>
    let turn : Turn η := ⟨i, services⟩
    turn :: inOrder turn.reply.services rest

/-- What a turn can come to. -/
theorem updates (t : Turn η) : t.interpreter.Updates t.services t.reply :=
  Interpreter.updates_update t.interpreter t.services

/-- A turn that does not complete its session announces nothing. -/
theorem announced_eq_none {t : Turn η}
    (hr : ∀ completion, t.reply.result ≠ .completed completion) : t.reply.announced = none := by
  have hu := t.updates
  generalize t.reply = reply at hr hu
  cases hu with
  | inactive | paused | advanced => rfl
  | limited | ended => exact absurd rfl (hr _)

end Turn

namespace Scheduler

variable {η : Type}

/-- The scheduler after a turn of a session, but for the list of sessions. -/
def afterTurn [Host η] (s : Scheduler η) (id : SessionId) (t : Turn η) : Scheduler η :=
  { s with services := t.reply.services }.announce id t.reply.announced

/-- An announcement leaves the services alone. -/
@[simp] theorem services_announce (s : Scheduler η) (id : SessionId) (c : Option Completion) :
    (s.announce id c).services = s.services := by
  cases c <;> rfl

variable [Host η]

/-- It differs in the services and in what is published alone. -/
theorem afterTurn_eq (s : Scheduler η) (id : SessionId) (t : Turn η) :
    s.afterTurn id t =
      { s with services := t.reply.services, channel := (s.afterTurn id t).channel } := by
  unfold afterTurn
  cases t.reply.announced <;> rfl

/-- What an advance of sessions can be: their turns, the completions, the sessions that go
on, and the scheduler after it. -/
inductive Advances : Scheduler η → List (SessionId × Interpreter) → List (Turn η) →
    List SessionCompleted → List (SessionId × Interpreter) → Scheduler η → Prop
  | nil {s : Scheduler η} : Advances s [] [] [] [] s
  /-- The session goes on. -/
  | goesOn {s s' : Scheduler η} {t : Turn η} (id : SessionId)
    {rest left : List (SessionId × Interpreter)} {ts : List (Turn η)}
    {done : List SessionCompleted} (hs : t.services = s.services)
    (hr : ∀ completion, t.reply.result ≠ .completed completion)
    (hrest : Advances { s with services := t.reply.services } rest ts done left s') :
    Advances s ((id, t.interpreter) :: rest) (t :: ts) done ((id, t.reply.interpreter) :: left) s'
  /-- The session completes. -/
  | completes {s s' : Scheduler η} {t : Turn η} (id : SessionId)
    {rest left : List (SessionId × Interpreter)} {ts : List (Turn η)}
    {done : List SessionCompleted} {completion : Completion} (hs : t.services = s.services)
    (hr : t.reply.result = .completed completion)
    (hrest : Advances (s.afterTurn id t) rest ts done left s') :
    Advances s ((id, t.interpreter) :: rest) (t :: ts) (⟨id, completion⟩ :: done) left s'

/-- Every advance is one of these. -/
theorem advances_advance (s : Scheduler η) (l : List (SessionId × Interpreter)) :
    Advances s l (Turn.inOrder s.services l) (s.advance l).1 (s.advance l).2.1
      (s.advance l).2.2 := by
  induction l generalizing s with
  | nil => exact .nil
  | cons e rest ih =>
    obtain ⟨id, i⟩ := e
    have hrest := ih (s.afterTurn id ⟨i, s.services⟩)
    rw [afterTurn, services_announce] at hrest
    by_cases hr : ∃ completion, (Turn.mk i s.services).reply.result = .completed completion
    · obtain ⟨completion, hr⟩ := hr
      have h := Advances.completes id rfl hr hrest
      rw [Turn.reply] at hr
      simp only [advance, hr]
      exact h
    · have hr : ∀ completion, (Turn.mk i s.services).reply.result ≠ .completed completion :=
        fun completion h => hr ⟨completion, h⟩
      have ha := Turn.announced_eq_none hr
      rw [ha] at hrest
      have h := Advances.goesOn id rfl hr hrest
      rw [Turn.reply] at ha
      simp only [advance, ha]
      split
      · next completion hc => exact absurd hc (hr completion)
      · exact h

/-- What the turn of one session makes of a scheduler. -/
inductive Turned (s : Scheduler η) (t : Turn η) : Scheduler η → Prop
  /-- The session goes on. -/
  | goesOn {before after : List (SessionId × Interpreter)} {id : SessionId}
    (hl : s.sessions = before ++ (id, t.interpreter) :: after) (hs : t.services = s.services)
    (hr : ∀ completion, t.reply.result ≠ .completed completion) :
    Turned s t { s with services := t.reply.services
                        sessions := before ++ (id, t.reply.interpreter) :: after }
  /-- The session completes. -/
  | completes {before after : List (SessionId × Interpreter)} {id : SessionId}
    {completion : Completion}
    (hl : s.sessions = before ++ (id, t.interpreter) :: after) (hs : t.services = s.services)
    (hr : t.reply.result = .completed completion) :
    Turned s t { s.afterTurn id t with sessions := before ++ after }

/-- The session whose turn it was is active before. -/
theorem Turned.mem {s s' : Scheduler η} {t : Turn η} (h : s.Turned t s') :
    ∃ id, (id, t.interpreter) ∈ s.sessions := by
  cases h with
  | @goesOn _ _ id hl | @completes _ _ id _ hl => exact ⟨id, by rw [hl]; simp⟩

/-- A session that is active after a turn was active before, or had its turn and goes on. -/
theorem Turned.mem_cases {s s' : Scheduler η} {t : Turn η} (h : s.Turned t s')
    {e : SessionId × Interpreter} (he : e ∈ s'.sessions) :
    e ∈ s.sessions ∨ (e.1, t.interpreter) ∈ s.sessions ∧ e.2 = t.reply.interpreter ∧
      ∀ completion, t.reply.result ≠ .completed completion := by
  cases h with
  | goesOn hl hs hr =>
    rw [hl]
    rcases List.mem_append.mp he with he | he
    · exact .inl (List.mem_append_left _ he)
    · rcases List.mem_cons.mp he with rfl | he
      · exact .inr ⟨by simp, rfl, hr⟩
      · exact .inl (List.mem_append_right _ (List.mem_cons_of_mem _ he))
  | completes hl =>
    rw [hl]
    rcases List.mem_append.mp he with he | he
    · exact .inl (List.mem_append_left _ he)
    · exact .inl (List.mem_append_right _ (List.mem_cons_of_mem _ he))

private theorem afterTurn_listed (s : Scheduler η) (id : SessionId) (t : Turn η)
    (l l' : List (SessionId × Interpreter)) :
    { { s with sessions := l }.afterTurn id t with sessions := l' } =
      { s.afterTurn id t with sessions := l' } := by
  unfold afterTurn
  cases t.reply.announced <;> rfl

private theorem Advances.induction {P : List (Turn η) → Scheduler η → Prop}
    (turn : ∀ {ts : List (Turn η)} {s s' : Scheduler η} {t : Turn η}, Turned s t s' → P ts s →
      P (ts ++ [t]) s')
    {s s' : Scheduler η} {l left : List (SessionId × Interpreter)} {ts : List (Turn η)}
    {done : List SessionCompleted} (h : Advances s l ts done left s') {ts₀ : List (Turn η)}
    {before : List (SessionId × Interpreter)} (h₀ : P ts₀ { s with sessions := before ++ l }) :
    P (ts₀ ++ ts) { s' with sessions := before ++ left } := by
  induction h generalizing ts₀ before with
  | nil => rwa [List.append_nil]
  | @goesOn s s' t id rest left ts done hs hr _ ih =>
    have ht := Turned.goesOn (s := { s with sessions := before ++ (id, t.interpreter) :: rest })
      rfl hs hr
    have hturned := turn ht h₀
    -- The session that goes on joins those that have had their turn.
    rw [List.append_cons before (id, t.reply.interpreter)] at hturned
    have hlater := ih hturned
    rw [List.append_assoc, List.append_assoc] at hlater
    exact hlater
  | @completes s s' t id rest left ts done completion hs hr _ ih =>
    have ht := Turned.completes (s := { s with sessions := before ++ (id, t.interpreter) :: rest })
      rfl hs hr
    have hturned := turn ht h₀
    rw [afterTurn_listed] at hturned
    have hlater := ih hturned
    rwa [List.append_assoc] at hlater

/-- The turns of a tick. -/
def turns (s : Scheduler η) : List (Turn η) := Turn.inOrder s.services s.sessions

/-- What every turn keeps, whatever the number of ticks, is kept by a tick. -/
theorem tick_induction {P : List (Turn η) → Scheduler η → Prop}
    (clock : ∀ {ts : List (Turn η)} {s : Scheduler η} (n : Nat), P ts s →
      P ts { s with ticks := n })
    (turn : ∀ {ts : List (Turn η)} {s s' : Scheduler η} {t : Turn η}, Turned s t s' → P ts s →
      P (ts ++ [t]) s')
    {s : Scheduler η} {ts : List (Turn η)} (h : P ts s) : P (ts ++ s.turns) s.tick.2 := by
  have hstart : P ts { s with ticks := s.ticks + 1, sessions := [] ++ s.sessions } :=
    clock (s.ticks + 1) h
  exact (advances_advance { s with ticks := s.ticks + 1 } s.sessions).induction turn hstart

end Scheduler

end EventScript
