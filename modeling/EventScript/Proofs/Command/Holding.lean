import EventScript.Host.Stage
import EventScript.Proofs.Command.Waiting
import EventScript.Proofs.Host.Accounts

/-!
# What a command holds of a recording host

A waiting message or prompt holds the handle in its token. Here one tick of an action, and the
abort of a command in flight, are followed over a recording host: what the command held is
replaced by what it holds afterwards, and the books of the host stay right. A message that
nobody waits for is passing from then on.
-/

namespace EventScript

/-- What an action holds while it waits for a token. -/
def Action.held : Action → Token → Option Holding
  | showMessage _, token => some (.message token)
  | showChoices _, token => some (.prompt token)
  | _, _ => none

/-- What an action holds after a tick. -/
def Action.awaited (a : Action) : Except CommandError Progress → Option Holding
  | .ok (.suspended token) => a.held token
  | _ => none

/-- The requests that a stage has recorded. -/
def Stage.seen (s : Stage) : List HostEvent :=
  match s.presenter with
  | .recording r => r.events
  | _ => []

/-- Between two worlds the action has shown a message that it does not wait for. -/
def Action.ShowsUnawaited (a : Action) (w w' : World Stage) (handle : Handle) : Prop :=
  ∃ p, a = .showMessage p ∧ p.waitForInput = false ∧
    w'.host.seen = w.host.seen ++ [.messageShown handle p.speaker p.text]

/-- The host of the world records, and its books agree with what is held. -/
inductive World.Accounts (held : List Holding) (passing : Handle → Prop) : World Stage → Prop
  | intro {game : GameState} {log : List Diagnostic} {r : Recording}
    (h : r.Accounts held passing) : Accounts held passing ⟨game, ⟨.recording r, log⟩⟩

namespace World.Accounts

variable {w : World Stage} {held : List Holding} {passing : Handle → Prop}

/-- The books are those of the recording host. -/
theorem iff_recording :
    w.Accounts held passing ↔
      ∃ r, w.host.presenter = .recording r ∧ r.Accounts held passing := by
  constructor
  · rintro ⟨h⟩
    exact ⟨_, rfl, h⟩
  · obtain ⟨game, presenter, log⟩ := w
    rintro ⟨r, rfl, h⟩
    exact ⟨h⟩

/-- The order of the holdings is of no account. -/
theorem perm (h : w.Accounts held passing) {held' : List Holding} (hp : held.Perm held') :
    w.Accounts held' passing := by
  obtain ⟨h⟩ := h
  exact ⟨h.perm hp⟩

/-- More may be passing. -/
theorem mono (h : w.Accounts held passing) {passing' : Handle → Prop}
    (hp : ∀ handle, passing handle → passing' handle) : w.Accounts held passing' := by
  obtain ⟨h⟩ := h
  exact ⟨h.mono hp⟩

/-- A diagnostic goes to the log. -/
theorem report (h : w.Accounts held passing) (d : Diagnostic) :
    (w.report d).Accounts held passing := by
  obtain ⟨h⟩ := h
  exact ⟨h⟩

/-- Diagnostics go to the log. -/
theorem reportAll (h : w.Accounts held passing) (ds : List Diagnostic) :
    (w.reportAll ds).Accounts held passing := by
  induction ds generalizing w with
  | nil => exact h
  | cons d rest ih => exact ih (h.report d)

/-- The game is of no account. -/
theorem game (h : w.Accounts held passing) (game : GameState) :
    World.Accounts held passing { w with game } := by
  obtain ⟨h⟩ := h
  exact ⟨h⟩

end World.Accounts

/-- After a tick of an action the books agree with what it holds now, besides the rest. -/
def Performed.Accounts (done : Performed Stage) (a : Action) (rest : List Holding)
    (passing : Handle → Prop) : Prop :=
  done.world.Accounts ((a.awaited done.result).toList ++ rest) passing

section

variable {w : World Stage} {rest : List Holding} {passing : Handle → Prop} {handle : Handle}

/-- A poll of a message that is held gives it up where it is closed. -/
theorem pollMessage_accounts (h : w.Accounts (.message handle :: rest) passing)
    (p : ShowMessage) (memory : Memory) :
    (pollMessage handle memory w).Accounts (.showMessage p) rest passing := by
  obtain @⟨game, log, r, h⟩ := h
  have hclosed : Host.messageClosed handle (Stage.mk (.recording r) log) =
    (r.isClosed handle, ⟨.recording r, log⟩) := rfl
  simp only [pollMessage, hclosed]
  split
  · next hc =>
    have hc : handle ∉ r.openMessages := by simpa [Recording.isClosed] using hc
    exact ⟨h.forget fun ho => absurd ho hc⟩
  · exact ⟨h⟩

/-- A poll of a prompt that is held gives it up where it is answered. -/
theorem poll_accounts (h : w.Accounts (.prompt handle :: rest) passing)
    (p : ShowChoices) (memory : Memory) :
    (p.poll handle memory w).Accounts (.showChoices p) rest passing := by
  obtain @⟨game, log, r, h⟩ := h
  have hanswer : Host.choiceAnswer handle (Stage.mk (.recording r) log) =
    ((r.choiceAnswer handle).1, ⟨.recording (r.choiceAnswer handle).2, log⟩) := rfl
  obtain ⟨hnone, hsome⟩ := h.choiceAnswer
  simp only [ShowChoices.poll, hanswer]
  split
  · next hc => exact ⟨hnone hc⟩
  · next answer hc =>
    have hgone := hsome (by rw [hc]; simp)
    split <;> exact ⟨hgone⟩

private theorem accounts_of_quiet {a : Action} {done : Performed Stage}
    (ha : ∀ token, a.held token = none) (h : done.world.Accounts rest passing) :
    done.Accounts a rest passing := by
  have hnone : a.awaited done.result = none := by
    unfold Action.awaited
    split
    · exact ha _
    · rfl
  rw [Performed.Accounts, hnone]
  exact h

private theorem performEffect_accounts (h : w.Accounts rest passing) {a : Action}
    (ha : ∀ token, a.held token = none) (effect : ScreenEffect) (wait : Bool) (ticks : UInt32)
    (memory : Memory) : (performEffect effect wait ticks memory w).Accounts a rest passing := by
  obtain ⟨h⟩ := h
  exact accounts_of_quiet ha ⟨h.record rfl⟩

/-- At its start an action comes to hold what it opens, but for a message that it does not
wait for. -/
theorem Action.start_accounts (a : Action) (owner : Owner) (memory : Memory)
    (h : w.Accounts rest passing)
    (hp : ∀ handle, a.ShowsUnawaited w (a.start owner memory w).world handle → passing handle) :
    (a.start owner memory w).Accounts a rest passing := by
  cases a with
  | showMessage p =>
    obtain @⟨game, log, r, h⟩ := h
    have hshow : Host.showMessage ⟨owner, p.speaker, p.text⟩ (Stage.mk (.recording r) log) =
      (r.lastHandle + 1, ⟨.recording (r.showMessage ⟨owner, p.speaker, p.text⟩).2, log⟩) := rfl
    simp only [start, hshow] at hp ⊢
    cases hwait : p.waitForInput with
    | true => exact pollMessage_accounts ⟨h.showMessage _⟩ p memory
    | false =>
      -- Nobody waits: the new handle is given up at once, and what it shows is passing.
      rw [if_neg (by rw [hwait]; decide)] at hp
      exact ⟨(h.showMessage _).forget fun _ => hp _ ⟨p, rfl, hwait, rfl⟩⟩
  | showChoices p =>
    obtain @⟨game, log, r, h⟩ := h
    simp only [start]
    split
    · exact ⟨h⟩
    · exact poll_accounts ⟨h.showChoices _⟩ p memory
  | controlVariables p =>
    simp only [start]
    split
    · exact accounts_of_quiet (fun _ => rfl) (h.game _)
    · exact accounts_of_quiet (fun _ => rfl) h
  | transferPlayer p =>
    obtain ⟨h⟩ := h
    exact accounts_of_quiet (fun _ => rfl) ⟨h.record rfl⟩
  | fadeScreen p => exact performEffect_accounts h (fun _ => rfl) _ _ _ _
  | shakeScreen p => exact performEffect_accounts h (fun _ => rfl) _ _ _ _
  | _ => exact accounts_of_quiet (fun _ => rfl) (h.game _)

/-- An action that goes on holds its handle, or gives it up. -/
theorem Action.resume_accounts (a : Action) {token : Token} (memory : Memory)
    (h : w.Accounts ((a.held token).toList ++ rest) passing) :
    (a.resume token memory w).Accounts a rest passing := by
  cases a with
  | showMessage p => exact pollMessage_accounts h p memory
  | showChoices p => exact poll_accounts h p memory
  | _ => exact accounts_of_quiet (fun _ => rfl) h

/-- A tick replaces what the action held by what it holds now. A message that it does not wait
for is passing from then on. -/
theorem Action.perform_accounts {a : Action} {pending : Option Token} (owner : Owner)
    (h : w.Accounts ((pending.bind a.held).toList ++ rest) passing) :
    (a.perform pending owner w).Accounts a rest fun handle =>
      passing handle ∨ a.ShowsUnawaited w (a.perform pending owner w).world handle := by
  cases pending with
  | none => exact a.start_accounts owner .clear (h.mono fun _ => .inl) fun _ => .inr
  | some token => exact a.resume_accounts (a.waitingMemory token) (h.mono fun _ => .inl)

/-- A command that is aborted in flight gives up what it holds. -/
theorem Command.abort_accounts {c : Command} {pending : Option Token} (hc : c.Ready pending)
    (h : w.Accounts ((pending.bind c.action.held).toList ++ rest) passing) :
    (c.abort w).2.2.Accounts rest passing := by
  cases pending with
  | none =>
    rw [abort, hc.phase]
    exact h
  | some token =>
    rw [abort, hc.phase, hc.memory]
    cases ha : c.action with
    | showMessage p =>
      rw [ha] at h
      obtain ⟨h⟩ := h
      exact ⟨h.closeMessage⟩
    | showChoices p =>
      rw [ha] at h
      obtain ⟨h⟩ := h
      exact ⟨h.cancelChoices⟩
    | _ =>
      rw [ha] at h
      exact h

end

end EventScript
