import EventScript.Player.Basic
import EventScript.Proofs.Scheduler.Channel
import EventScript.Proofs.Scheduler.Lifecycle

/-!
# The player's count of its sessions

A player that has launched its scripts waits for as many sessions as are active and has heard
of nothing. From there on its scheduler is only ticked: `Scheduler.Tallied` says that every
session is active or its end has been published, so that nothing is sent but the starts and as
many ends. `Player.Tally` adds that the receiver stands inside what has been sent; every move
keeps it. What the player itself counts is another matter: `Player.receive_cases` tells what a
receive makes of it.
-/

namespace EventScript

namespace SessionEvent

/-- The event ends a session. -/
def isEnd : SessionEvent → Bool
  | started _ _ => false
  | completed _ | stopped _ _ => true

/-- The event completes a session as faulted. -/
def isFault : SessionEvent → Bool
  | completed done => done.completion.reason = .faulted
  | started _ _ | stopped _ _ => false

end SessionEvent

namespace Scheduler

variable {η : Type} {config : RuntimeConfig} {n : Nat} {s s' : Scheduler η}

/-- Number of sessions whose end has been published. -/
def ended (s : Scheduler η) : Nat := s.channel.sent.countP SessionEvent.isEnd

/-- Number of sessions that have been published as faulted. -/
def faults (s : Scheduler η) : Nat := s.channel.sent.countP SessionEvent.isFault

/-- A scheduler that has started `n` sessions and stopped none. -/
structure Tallied (config : RuntimeConfig) (n : Nat) (s : Scheduler η) : Prop where
  orderly : s.Orderly config
  capacity_eq : s.channel.capacity = config.eventBufferSize
  balance : s.active + s.ended = n
  length_eq : s.channel.sent.length = n + s.ended

section

variable [Host η] {l left : List (SessionId × Interpreter)} {ts : List (Turn η)}
  {done : List SessionCompleted}

/-- Every session of a tick is done or left. -/
theorem Advances.length_eq (h : Advances s l ts done left s') :
    done.length + left.length = l.length := by
  induction h with
  | nil => rfl
  | goesOn id _ _ _ ih => rw [List.length_cons, List.length_cons, ← ih]; rfl
  | completes id _ _ _ ih => rw [List.length_cons, List.length_cons, ← ih, Nat.succ_add]

/-- Every session completes in a tick or is active after it. -/
theorem tick_length (s : Scheduler η) : s.tick.1.length + s.tick.2.active = s.active :=
  (advances_advance { s with ticks := s.ticks + 1 } s.sessions).length_eq

/-- A tick leaves the size of the channel alone. -/
theorem Advances.capacity_eq (h : Advances s l ts done left s') :
    s'.channel.capacity = s.channel.capacity := by
  induction h with
  | nil => rfl
  | goesOn id _ _ _ ih => exact ih
  | @completes s _ t _ _ _ _ _ _ _ _ _ ih =>
    rw [ih, afterTurn]
    cases t.reply.announced <;> rfl

end

/-- A count of completions that are all alike. -/
theorem countP_completed {done : List SessionCompleted} {counts : SessionEvent → Bool}
    (h : ∀ d ∈ done, counts (.completed d) = true) :
    (done.map SessionEvent.completed).countP counts = done.length := by
  rw [List.countP_map]
  exact List.countP_eq_length.mpr h

namespace Tallied

/-- A new scheduler has started nothing. -/
theorem withServices (config : RuntimeConfig) (services : Services η) :
    (Scheduler.withServices config services).Tallied config 0 :=
  ⟨.withServices config services, rfl, rfl, rfl⟩

/-- The services play no part. -/
theorem unrelated (h : s.Tallied config n) (services : Services η) :
    Tallied config n { s with services } :=
  ⟨h.orderly.unrelated services s.ticks, h.capacity_eq, h.balance, h.length_eq⟩

variable [Host η]

/-- An accepted start adds one session. -/
theorem spawn (h : s.Tallied config n) {owner : Owner} {ds : List Descriptor} {id : SessionId}
    (hok : (s.spawn owner ds).1 = .ok id) : (s.spawn owner ds).2.Tallied config (n + 1) := by
  have horderly := h.orderly.spawn owner ds
  rcases s.spawn_cases owner ds with ⟨limit, hs⟩ | ⟨e, -, hs⟩ | ⟨p, -, -, hs⟩ <;>
    rw [hs] at hok horderly ⊢
  · cases hok
  · cases hok
  · have hended : (s.channel.sent ++ [SessionEvent.started ⟨s.nextId⟩ owner]).countP
        SessionEvent.isEnd = s.ended := List.countP_append
    refine ⟨horderly, h.capacity_eq, ?_, ?_⟩
    · change (s.sessions ++ [_]).length + List.countP _ (s.channel.sent ++ [_]) = n + 1
      rw [hended, List.length_append, ← h.balance]
      exact Nat.add_right_comm _ _ _
    · change (s.channel.sent ++ [_]).length = n + 1 + List.countP _ (s.channel.sent ++ [_])
      rw [hended, List.length_append, h.length_eq]
      exact Nat.add_right_comm _ _ _

/-- A tick publishes an end for each session that leaves. -/
theorem tick (h : s.Tallied config n) : s.tick.2.Tallied config n := by
  have hadvance := advances_advance { s with ticks := s.ticks + 1 } s.sessions
  have hlength := s.tick_length
  have hsent := h.orderly.tick_publishes.1
  have hended : s.tick.2.ended = s.ended + s.tick.1.length := by
    rw [ended, hsent, List.countP_append, countP_completed fun _ _ => rfl, ended]
  have hbalance := h.balance
  have horderly := @Kept.tick _ _ _ _ s [] (Orderly.kept config fun _ _ => False) h.orderly
  refine ⟨horderly, hadvance.capacity_eq.trans h.capacity_eq, by omega, ?_⟩
  · rw [hsent, List.length_append, List.length_map, h.length_eq, hended, Nat.add_assoc]

end Tallied

end Scheduler

namespace Player

variable {η : Type} {config : RuntimeConfig} {n : Nat} {p p' : Player η}

/-- The player has launched `n` scripts and nothing else has happened. -/
structure Launched (config : RuntimeConfig) (n : Nat) (p : Player η) : Prop where
  tallied : p.scheduler.Tallied config n
  active_eq : p.scheduler.active = n
  fresh : ∀ e ∈ p.scheduler.sessions, ∃ owner program,
    e.2 = Interpreter.begin { config := config.interpreter, owner } program true
  position_eq : p.position = 0
  outstanding_eq : p.outstanding = n
  faulted_eq : p.faulted = 0
  driving : p.driving = true

/-- A new player has launched nothing. -/
theorem Launched.new (config : RuntimeConfig) (world : World η) :
    (Player.new config world).Launched config 0 where
  tallied := .withServices config _
  active_eq := rfl
  fresh _ he := by cases he
  position_eq := rfl
  outstanding_eq := rfl
  faulted_eq := rfl
  driving := rfl

/-- The events that the receiver has passed. -/
def passed (p : Player η) : List SessionEvent := p.scheduler.channel.sent.take p.position

/-- The player has passed an event. -/
def hear (p : Player η) (e : SessionEvent) : Player η :=
  { p with position := p.position + 1
           outstanding := p.outstanding - [e].countP SessionEvent.isEnd
           faulted := p.faulted + [e].countP SessionEvent.isFault }

/-- What a receive of a player that still waits can be. -/
theorem receive_cases (hw : p.waiting = true) :
    (p.position < p.scheduler.channel.oldest ∧
      p.receive = { p with position := p.scheduler.channel.oldest
                           outstanding := p.scheduler.active }) ∨
    (∃ e, p.scheduler.channel.oldest ≤ p.position ∧
      p.scheduler.channel.sent[p.position]? = some e ∧ p.receive = p.hear e) ∨
    p.scheduler.channel.sent.length ≤ p.position ∧ p.receive = p := by
  unfold receive
  rw [if_pos hw]
  rcases p.scheduler.channel.receive_cases p.position with ⟨hlag, hr⟩ | ⟨e, hkept, he, hr⟩ |
    ⟨hend, hr⟩ <;> rw [hr]
  · exact .inl ⟨hlag, rfl⟩
  · refine .inr (.inl ⟨e, hkept, he, ?_⟩)
    cases e with
    | started id owner => rfl
    | stopped id owner => rfl
    | completed done =>
      by_cases hf : done.completion.reason = .faulted
      · simp [note, hear, SessionEvent.isFault, SessionEvent.isEnd, hf]
      · simp [note, hear, SessionEvent.isFault, SessionEvent.isEnd, hf]
  · exact .inr (.inr ⟨hend, rfl⟩)

/-- The player's scheduler has been ticked alone, and its receiver is inside what was sent. -/
structure Tally (config : RuntimeConfig) (n : Nat) (p : Player η) : Prop where
  tallied : p.scheduler.Tallied config n
  position_le : p.position ≤ p.scheduler.channel.sent.length

/-- A player that has just launched its scripts has the tally of them. -/
theorem Launched.tally (h : p.Launched config n) : p.Tally config n :=
  ⟨h.tallied, by rw [h.position_eq]; exact Nat.zero_le _⟩

/-- The events passed with one more. -/
theorem passed_hear {e : SessionEvent} (he : p.scheduler.channel.sent[p.position]? = some e) :
    (p.hear e).passed = p.passed ++ [e] := by
  unfold passed hear
  dsimp only
  rw [List.take_add_one, he]
  rfl

/-- A receive stays inside what was sent. -/
theorem Tally.receive (h : p.Tally config n) : p.receive.Tally config n := by
  by_cases hw : p.waiting = true
  · rcases receive_cases hw with ⟨-, hr⟩ | ⟨e, -, he, hr⟩ | ⟨-, hr⟩ <;> rw [hr]
    · exact ⟨h.tallied, Nat.sub_le _ _⟩
    · exact ⟨h.tallied, (List.getElem?_eq_some_iff.mp he).1⟩
    · exact h
  · rwa [Player.receive, if_neg hw]

variable [Host η]

/-- The player after moves in order. -/
def after (p : Player η) (ms : List Move) : Player η := ms.foldl move p

namespace Launched

/-- A session that is enrolled is one launch more. -/
theorem enroll (h : p.Launched config n) {path : String} {owner : Owner} {ds : List Descriptor}
    (hok : p.enroll path owner ds = .ok p') : p'.Launched config (n + 1) := by
  unfold Player.enroll at hok
  split at hok
  · cases hok
  · next id s hs =>
    obtain rfl := Except.ok.inj hok
    have htallied := h.tallied.spawn (congrArg Prod.fst hs)
    have hsessions : s.active = n + 1 ∧ ∀ e ∈ s.sessions, ∃ owner program,
        e.2 = Interpreter.begin { config := config.interpreter, owner } program true := by
      rcases p.scheduler.spawn_cases owner ds with ⟨_, hc⟩ | ⟨_, -, hc⟩ | ⟨program, -, -, hc⟩ <;>
        rw [hc] at hs
      · cases hs
      · cases hs
      · obtain rfl := congrArg Prod.snd hs
        refine ⟨?_, ?_⟩
        · rw [← h.active_eq]
          exact List.length_append
        · intro e he
          rcases List.mem_append.mp he with he | he
          · exact h.fresh e he
          · rw [List.mem_singleton.mp he, ← h.tallied.orderly.config_eq]
            exact ⟨owner, program, rfl⟩
    rw [hs] at htallied
    exact ⟨htallied, hsessions.1, hsessions.2, h.position_eq,
      congrArg (· + 1) h.outstanding_eq, h.faulted_eq, h.driving⟩

/-- So is a script that is read and enrolled. -/
theorem launch (h : p.Launched config n) {fallback : Owner} {path : String}
    {text : Option String} (hok : p.launch fallback path text = .ok p') :
    p'.Launched config (n + 1) := by
  unfold Player.launch at hok
  split at hok
  · cases hok
  · split at hok
    · cases hok
    · split at hok
      · cases hok
      · apply enroll _ hok
        exact ⟨h.tallied.unrelated _, h.active_eq, h.fresh, h.position_eq, h.outstanding_eq,
          h.faulted_eq, h.driving⟩

/-- Scripts that all start are launched. -/
theorem launchAll (h : p.Launched config n) {read : String → Option String} {number : Nat}
    {paths : List String} (hok : p.launchAll read number paths = .ok p') :
    p'.Launched config (n + paths.length) := by
  induction paths generalizing p n number with
  | nil => exact Except.ok.inj hok ▸ h
  | cons path rest ih =>
    unfold Player.launchAll at hok
    dsimp only at hok
    split at hok
    · next p₁ hp =>
      have hrest := ih (h.launch hp) hok
      rwa [Nat.add_assoc, Nat.add_comm 1] at hrest
    · cases hok

end Launched

namespace Tally

/-- A tick of the player keeps its tally. -/
theorem tick (h : p.Tally config n) : p.tick.Tally config n := by
  unfold Player.tick
  split
  · refine ⟨h.tallied.tick, Nat.le_trans h.position_le ?_⟩
    dsimp only
    rw [h.tallied.orderly.tick_publishes.1, List.length_append]
    exact Nat.le_add_right _ _
  · exact h

/-- A tick leaves the events alone that the player has passed. -/
theorem passed_tick (h : p.Tally config n) : p.tick.passed = p.passed := by
  unfold Player.tick
  split
  · unfold passed
    dsimp only
    rw [h.tallied.orderly.tick_publishes.1, List.take_append_of_le_length h.position_le]
  · rfl

end Tally

end Player

end EventScript
