import EventScript.Proofs.Scheduler.Lifecycle
import EventScript.Proofs.Scheduler.Sessions
import EventScript.Proofs.Session.Holding

/-!
# No dangling prompts

Sessions of a scheduler share one recording host, and the player acts on it between two calls.
The prompts that are pending are those that sessions in flight wait for, and an open message is
waited for or was shown by a command that does not wait. `Scheduler.Balanced` is the invariant:
the books of the host agree with what all sessions hold together.
-/

namespace EventScript

/-- The player plays. The factory, the game and the log may change as well. -/
def Services.Played (before after : Services Stage) : Prop :=
  ∃ r r', before.world.host.presenter = .recording r ∧
    after.world.host.presenter = .recording r' ∧ (r' = r ∨ r.Played r')

/-- The recording host of a stage, if that presents. -/
def Stage.recording? (s : Stage) : Option Recording :=
  match s.presenter with
  | .recording r => some r
  | _ => none

/-- What the session of an interpreter holds. -/
def Interpreter.held (i : Interpreter) : Option Holding := i.session.bind Session.held

/-- At this turn a session has shown a message that it does not wait for. -/
def Turn.ShowsUnawaited (t : Turn Stage) (handle : Handle) : Prop :=
  ∃ s, t.interpreter.session = some s ∧
    s.ShowsUnawaited t.services.world t.reply.services.world handle

/-! ### Turns and stops -/

section

variable {rest : List Holding} {passing : Handle → Prop}

/-- A turn replaces what its session held by what it holds now. -/
theorem Turn.accounts {t : Turn Stage} (hu : t.interpreter.Underway)
    (h : t.services.world.Accounts (t.interpreter.held.toList ++ rest) passing) :
    t.reply.services.world.Accounts (t.reply.interpreter.held.toList ++ rest) fun handle =>
      passing handle ∨ t.ShowsUnawaited handle := by
  have hupdates := t.updates
  unfold Turn.ShowsUnawaited
  generalize t.reply = reply at hupdates ⊢
  cases hupdates with
  | inactive | paused => exact h.mono fun _ => .inl
  | @limited s s' limit world hs _ _ _ _ ha =>
    rw [Interpreter.held, hs] at h
    have hreported := h.report (.tickLimitExceeded t.interpreter.owner limit)
    have htidy := (hu.tidy hs).clock (s.ticks + 1)
    have hafter := Session.abortInFlight_accounts htidy hreported
    rw [ha] at hafter
    exact hafter.mono fun _ => .inl
  | @advanced s s' r world hs _ _ hstep =>
    rw [Interpreter.held, hs] at h
    apply (hstep.accounts ((hu.tidy hs).clock _) h).mono
    exact fun _ => Or.imp_right fun hshown => ⟨s, hs, hshown⟩
  | @ended s s' reason world hs _ _ hstep =>
    rw [Interpreter.held, hs] at h
    have hafter := hstep.accounts ((hu.tidy hs).clock _) h
    rw [hstep.held_of_complete] at hafter
    apply hafter.mono
    exact fun _ => Or.imp_right fun hshown => ⟨s, hs, hshown⟩

/-- A session that completes holds nothing. -/
theorem Turn.held_of_completed {t : Turn Stage} {completion : Completion}
    (hr : t.reply.result = .completed completion) : t.reply.interpreter.held = none := by
  have hupdates := t.updates
  generalize t.reply = reply at hr hupdates ⊢
  cases hupdates with
  | inactive | paused => cases hr
  | advanced _ _ _ hstep => cases hr; cases hstep
  | limited | ended => rfl

/-- A session that is stopped gives up what it holds. -/
theorem Interpreter.stop_accounts {i : Interpreter} {services : Services Stage}
    (hu : i.Underway) (h : services.world.Accounts (i.held.toList ++ rest) passing) :
    (i.stop services).services.world.Accounts rest passing := by
  rw [held] at h
  unfold stop
  cases hs : i.session with
  | none =>
    rw [hs] at h
    exact h
  | some s =>
    rw [hs] at h
    exact Session.abortInFlight_accounts (hu.tidy hs) h

end

namespace Scheduler

/-! ### What all sessions hold -/

/-- What listed sessions hold together. -/
def holdings (l : List (SessionId × Interpreter)) : List Holding :=
  l.filterMap fun e => e.2.held

/-- Any session may be counted first. -/
theorem holdings_perm (before after : List (SessionId × Interpreter)) (id : SessionId)
    (i : Interpreter) : (holdings (before ++ (id, i) :: after)).Perm
      (i.held.toList ++ holdings (before ++ after)) := by
  have hperm : (holdings (before ++ (id, i) :: after)).Perm
      (holdings ((id, i) :: (before ++ after))) := List.perm_middle.filterMap _
  have hfirst : holdings ((id, i) :: (before ++ after)) =
      i.held.toList ++ holdings (before ++ after) := by
    rw [holdings, List.filterMap_cons]
    cases i.held <;> rfl
  rwa [hfirst] at hperm

/-- A pause changes no holding. -/
theorem holdings_setPaused (l : List (SessionId × Interpreter)) (id : SessionId)
    (paused : Bool) :
    holdings (l.map fun e => if e.1 = id then (id, e.2.setPaused paused) else e) =
      holdings l := by
  rw [holdings, List.filterMap_map, holdings]
  congr 1
  funext e
  by_cases he : e.1 = id
  · cases hs : e.2.session with
    | none => simp [he, Interpreter.held, Interpreter.setPaused, hs]
    | some s => simp [he, Interpreter.held, Interpreter.setPaused, hs, Session.held]
  · simp [he]

/-- An active session has an action in flight that remembers the handle. -/
def Holds (s : Scheduler Stage) (a : Action) (handle : Handle) : Prop :=
  ∃ e ∈ s.sessions, ∃ ses, e.2.session = some ses ∧ ses.Holds a handle

/-- The books of the host agree with what all sessions hold, and a message that nobody holds
was shown at one of the turns by a session that does not wait for it. -/
structure Balanced (config : RuntimeConfig) (ts : List (Turn Stage)) (s : Scheduler Stage) :
    Prop where
  orderly : s.Orderly config
  underway : s.Underway
  accounts : s.services.world.Accounts (holdings s.sessions) fun handle =>
    ∃ t ∈ ts, t.ShowsUnawaited handle

namespace Balanced

variable {config : RuntimeConfig} {ts : List (Turn Stage)} {s : Scheduler Stage}

/-- What is held is what a waiting action remembers. -/
theorem mem_holdings (h : s.Balanced config ts) {x : Holding} :
    x ∈ holdings s.sessions ↔
      ∃ a, a.mayWait = true ∧ a.held x.handle = some x ∧ s.Holds a x.handle := by
  rw [holdings, List.mem_filterMap]
  constructor
  · rintro ⟨e, he, hx⟩
    obtain ⟨ses, hs, hx⟩ := Option.bind_eq_some_iff.mp hx
    obtain ⟨a, hwait, ha, hholds⟩ := ((h.underway e he).tidy hs).held_iff.mp hx
    exact ⟨a, hwait, ha, e, he, ses, hs, hholds⟩
  · rintro ⟨a, hwait, ha, e, he, ses, hs, hholds⟩
    refine ⟨e, he, Option.bind_eq_some_iff.mpr ⟨ses, hs, ?_⟩⟩
    exact ((h.underway e he).tidy hs).held_iff.mpr ⟨a, hwait, ha, hholds⟩

/-- A held prompt is one that an action in flight waits for. -/
theorem prompt_mem_holdings (h : s.Balanced config ts) {handle : Handle} :
    .prompt handle ∈ holdings s.sessions ↔ ∃ p, s.Holds (.showChoices p) handle := by
  rw [h.mem_holdings]
  constructor
  · rintro ⟨a, -, ha, hholds⟩
    cases a <;> cases ha
    exact ⟨_, hholds⟩
  · rintro ⟨p, hholds⟩
    exact ⟨.showChoices p, rfl, rfl, hholds⟩

/-- A held message is one that an action in flight waits for. -/
theorem message_mem_holdings (h : s.Balanced config ts) {handle : Handle} :
    .message handle ∈ holdings s.sessions ↔
      ∃ p, p.waitForInput = true ∧ s.Holds (.showMessage p) handle := by
  rw [h.mem_holdings]
  constructor
  · rintro ⟨a, hwait, ha, hholds⟩
    cases a <;> cases ha
    exact ⟨_, hwait, hholds⟩
  · rintro ⟨p, hwait, hholds⟩
    exact ⟨.showMessage p, hwait, rfl, hholds⟩

/-- A new scheduler on a new host is in balance. -/
theorem new (config : RuntimeConfig) (factory : Factory) (game : GameState)
    (log : List Diagnostic) (autoClose : Bool) :
    Balanced config [] (withServices config
      ⟨factory, ⟨game, ⟨.recording { autoClose }, log⟩⟩⟩) where
  orderly := .withServices ..
  underway _ he := by cases he
  accounts := ⟨.new autoClose⟩

/-- A turn keeps the balance. -/
theorem turn (h : s.Balanced config ts) {s' : Scheduler Stage} {t : Turn Stage}
    (ht : s.Turned t s') : s'.Balanced config (ts ++ [t]) := by
  refine ⟨h.orderly.turn ht, h.underway.turn ht, ?_⟩
  have hpassing : ∀ handle, ((∃ t ∈ ts, t.ShowsUnawaited handle) ∨ t.ShowsUnawaited handle) →
      ∃ t' ∈ ts ++ [t], t'.ShowsUnawaited handle := by
    rintro handle (⟨t', ht', hshown⟩ | hshown)
    · exact ⟨t', List.mem_append_left _ ht', hshown⟩
    · exact ⟨t, by simp, hshown⟩
  -- The session that has its turn is counted first, and all others are the rest.
  have haccounts := h.accounts
  obtain ⟨id, hm⟩ := ht.mem
  have hu : t.interpreter.Underway := h.underway _ hm
  cases ht with
  | goesOn hl hs hr =>
    rw [hl, ← hs] at haccounts
    have hafter := Turn.accounts hu (haccounts.perm (holdings_perm ..))
    exact (hafter.perm (holdings_perm ..).symm).mono hpassing
  | completes hl hs hr =>
    rw [hl, ← hs] at haccounts
    have hafter := Turn.accounts hu (haccounts.perm (holdings_perm ..))
    rw [Turn.held_of_completed hr] at hafter
    dsimp only [afterTurn]
    rw [services_announce]
    exact hafter.mono hpassing

/-- So does a start: a new session holds nothing. -/
theorem spawn (h : s.Balanced config ts) (owner : Owner) (ds : List Descriptor) :
    (s.spawn owner ds).2.Balanced config ts := by
  refine ⟨h.orderly.spawn owner ds, h.underway.spawn owner ds, ?_⟩
  have haccounts := h.accounts
  rcases s.spawn_cases owner ds with ⟨limit, hs⟩ | ⟨e, -, hs⟩ | ⟨p, -, -, hs⟩ <;> rw [hs]
  · exact haccounts
  · exact haccounts.reportAll _
  · have hheld : (s.opened owner p).held = none := Session.held_of_pending rfl
    have hnew : holdings (s.sessions ++ [(⟨s.nextId⟩, s.opened owner p)]) =
        holdings s.sessions := by
      rw [holdings, List.filterMap_append, holdings]
      simp [hheld]
    rw [← hnew] at haccounts
    exact haccounts.reportAll _

/-- So does a stop: the session gives up what it holds. -/
theorem stop (h : s.Balanced config ts) (id : SessionId) : (s.stop id).2.Balanced config ts := by
  refine ⟨h.orderly.stop id, h.underway.stop id, ?_⟩
  have haccounts := h.accounts
  rcases s.stop_cases id with hs | ⟨i, hm, hs⟩ <;> rw [hs]
  · exact haccounts
  · obtain ⟨before, after, hl⟩ := List.append_of_mem hm
    rw [hl] at haccounts
    have hafter := Interpreter.stop_accounts (h.underway _ hm)
      (haccounts.perm (holdings_perm ..))
    change World.Accounts (holdings (s.sessions.filter fun e => e.1 ≠ id)) _ _
    rw [h.orderly.filter_eq hl]
    exact hafter

/-- So does a pause. -/
theorem setPaused (h : s.Balanced config ts) (id : SessionId) (paused : Bool) :
    (s.modify id fun i => i.setPaused paused).2.Balanced config ts := by
  refine ⟨h.orderly.setPaused id paused, h.underway.setPaused id paused, ?_⟩
  have haccounts := h.accounts
  rcases s.modify_cases id fun i => i.setPaused paused with hm | hm <;> rw [hm]
  · exact haccounts
  · rwa [← holdings_setPaused s.sessions id paused] at haccounts

/-- So does the player. -/
theorem played (h : s.Balanced config ts) {services : Services Stage}
    (hp : s.services.Played services) : Balanced config ts { s with services } := by
  refine ⟨h.orderly.unrelated .., h.underway, ?_⟩
  obtain ⟨r, hr, haccounts⟩ := World.Accounts.iff_recording.mp h.accounts
  obtain ⟨r₀, r', hr₀, hr', hplayed⟩ := hp
  obtain rfl := Presenter.recording.inj (hr.symm.trans hr₀)
  apply World.Accounts.iff_recording.mpr
  rcases hplayed with rfl | hplayed
  · exact ⟨r', hr', haccounts⟩
  · exact ⟨r', hr', haccounts.played hplayed⟩

/-- Everything keeps the balance. -/
theorem kept (config : RuntimeConfig) : Kept Services.Played (Balanced config) where
  outside hp h := h.played hp
  clock _ h := ⟨h.orderly.unrelated .., h.underway, h.accounts⟩
  spawn owner ds h := h.spawn owner ds
  stop id h := h.stop id
  setPaused id paused h := h.setPaused id paused
  turn ht h := h.turn ht

end Balanced

/-- Whatever calls a scheduler on a recording host gets, whether or not the host closes messages
at once, and whatever the player does in between: the prompts that are pending are those that
commands in flight of active sessions wait for; an open message is waited for by such a command
or was shown by one that does not wait; so without sessions no prompt is pending and only
messages of the latter kind are open; and no handle is closed or withdrawn twice. -/
theorem prompts_pending_iff_held {config : RuntimeConfig} {factory : Factory} {game : GameState}
    {log : List Diagnostic} {autoClose : Bool} {ts : List (Turn Stage)} {s : Scheduler Stage}
    (h : (withServices config ⟨factory, ⟨game, ⟨.recording { autoClose }, log⟩⟩⟩).Reaches
      Services.Played ts s) :
    ∃ r, s.services.world.host.presenter = .recording r ∧
      (∀ handle, handle ∈ r.pendingChoices ↔ ∃ p, s.Holds (.showChoices p) handle) ∧
      (∀ handle ∈ r.openMessages,
        (∃ p, p.waitForInput = true ∧ s.Holds (.showMessage p) handle) ∨
          ∃ t ∈ ts, t.ShowsUnawaited handle) ∧
      (s.sessions = [] → r.pendingChoices = [] ∧
        ∀ handle ∈ r.openMessages, ∃ t ∈ ts, t.ShowsUnawaited handle) ∧
      (r.events.filterMap HostEvent.ended?).Nodup := by
  have hbalanced := (Balanced.kept config).of_reaches (.new ..) h
  obtain ⟨r, hr, haccounts⟩ := World.Accounts.iff_recording.mp hbalanced.accounts
  refine ⟨r, hr, ?_, ?_, ?_, ?_⟩
  · exact fun handle => (haccounts.prompts handle).trans hbalanced.prompt_mem_holdings
  · exact fun handle ho =>
      (haccounts.messages handle ho).imp_left hbalanced.message_mem_holdings.mp
  · intro hnone
    rw [hnone] at haccounts
    refine ⟨List.eq_nil_iff_forall_not_mem.mpr ?_, ?_⟩
    · intro handle hp
      cases (haccounts.prompts handle).mp hp
    · intro handle ho
      rcases haccounts.messages handle ho with hheld | hshown
      · cases hheld
      · exact hshown
  · exact (List.nodup_append.mp haccounts.distinct).2.1

/-- One session passes a message by and waits for an answer, another waits for its message to
be dismissed. When both are stopped, the message that nobody waited for stays open alone. -/
theorem prompts_pending_iff_held_stopped :
    let start : Scheduler Stage := withServices {} ⟨{}, ⟨{}, ⟨.recording {}, []⟩⟩⟩
    let author := fun as : List Action =>
      Operation.spawn .global (as.map fun a => Factory.describe (.ofAction a))
    let asking := author [.showMessage { text := "Well?" }, .showChoices { choices := ["Yes"] }]
    let waiting := author [.showMessage (.waiting "Hello")]
    let s := (((start.perform asking).perform waiting).perform .tick).perform .tick
    (∃ p, s.Holds (.showChoices p) 3) ∧
      ∃ ts, start.Reaches Services.Played ts s.stopAll ∧ ∃ t ∈ ts, t.ShowsUnawaited 1 := by
  intro start author asking waiting s
  have hs : start.Reaches Services.Played _ s :=
    (((Reaches.refl.perform asking).perform waiting).perform .tick).perform .tick
  have hstopped : start.Reaches Services.Played _ s.stopAll := hs.perform .stopAll
  obtain ⟨r, hr, hprompts, -⟩ := prompts_pending_iff_held hs
  obtain ⟨r', hr', -, -, hidle, -⟩ := prompts_pending_iff_held hstopped
  have hpending : s.services.world.host.recording?.map Recording.pendingChoices = some [3] := by
    decide +kernel
  have hopen : s.stopAll.services.world.host.recording?.map Recording.openMessages = some [1] := by
    decide +kernel
  have hnone : s.stopAll.sessions.isEmpty = true := by decide +kernel
  rw [Stage.recording?, hr] at hpending
  rw [Stage.recording?, hr'] at hopen
  refine ⟨(hprompts 3).mp ?_, _, hstopped, (hidle (List.isEmpty_iff.mp hnone)).2 1 ?_⟩
  · rw [Option.some.inj hpending]
    exact List.mem_singleton_self 3
  · rw [Option.some.inj hopen]
    exact List.mem_singleton_self 1

end Scheduler

end EventScript
