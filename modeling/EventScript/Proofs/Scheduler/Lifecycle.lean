import EventScript.Host.Stage
import EventScript.Proofs.Scheduler.Calls

/-!
# Lives of sessions

Every session of a scheduler is announced once when it starts, and at most once more when it
completes or is stopped. `Scheduler.Orderly` ties the events that were published to the
sessions that are active and to the counter of ids. Every call keeps it: an id is new when it
is given out, and the end of a session is published just where it leaves the scheduler.
-/

namespace EventScript

/-- The session that an event starts. -/
def SessionEvent.started? : SessionEvent → Option SessionId
  | started id _ => some id
  | _ => none

/-- The ends of a session of an owner. -/
inductive SessionEvent.Ends (id : SessionId) (owner : Owner) : SessionEvent → Prop
  | completed {c : Completion} (h : c.owner = owner) : Ends id owner (.completed ⟨id, c⟩)
  | stopped : Ends id owner (.stopped id owner)

/-- The interpreter has a session that announces its completion. -/
def Interpreter.Live (i : Interpreter) : Prop :=
  ∃ s, i.session = some s ∧ s.notify = true

/-! ### Turns of live sessions -/

section

variable {η : Type} [Host η]

/-- A live session that goes on stays live. -/
theorem Turn.live {t : Turn η} (h : t.interpreter.Live)
    (hr : ∀ completion, t.reply.result ≠ .completed completion) : t.reply.interpreter.Live := by
  have hu := t.updates
  generalize t.reply = reply at hr hu ⊢
  cases hu with
  | inactive | paused => exact h
  | @advanced s s' _ _ hs _ _ hstep =>
    obtain ⟨s₀, hs₀, hnotify⟩ := h
    obtain rfl := Option.some.inj (hs.symm.trans hs₀)
    exact ⟨s', rfl, hstep.notify.trans hnotify⟩
  | limited | ended => exact absurd rfl (hr _)

/-- A live session that completes announces just that, for its owner. -/
theorem Turn.announced {t : Turn η} {completion : Completion} (h : t.interpreter.Live)
    (hr : t.reply.result = .completed completion) :
    t.reply.announced = some completion ∧ completion.owner = t.interpreter.owner := by
  obtain ⟨s₀, hs₀, hnotify⟩ := h
  have hu := t.updates
  generalize t.reply = reply at hr hu ⊢
  cases hu with
  | inactive | paused => cases hr
  | @limited s s' _ _ hs _ _ _ _ ha =>
    obtain rfl := Option.some.inj (hs.symm.trans hs₀)
    cases hr
    have hn : s'.notify = true := by
      have hcut := congrArg (fun p => p.1.notify) ha
      rw [Session.abortInFlight_eq] at hcut
      exact hcut.symm.trans hnotify
    exact ⟨by simp [Interpreter.complete, hn], rfl⟩
  | advanced _ _ _ hstep => cases hr; cases hstep
  | @ended s s' _ _ hs _ _ hstep =>
    obtain rfl := Option.some.inj (hs.symm.trans hs₀)
    cases hr
    have hn : s'.notify = true := hstep.notify.trans hnotify
    exact ⟨by simp [Interpreter.complete, hn], rfl⟩

end

namespace Scheduler

variable {η : Type}

/-- The events of one session, oldest first. -/
def story (s : Scheduler η) (id : SessionId) : List SessionEvent :=
  s.channel.sent.filter fun e => e.session = id

/-- A published event is the last of its session. -/
theorem story_publish (s : Scheduler η) (e : SessionEvent) (id : SessionId) :
    (s.publish e).story id = s.story id ++ if e.session = id then [e] else [] := by
  by_cases h : e.session = id <;> simp [story, publish, Channel.send, h]

/-- The story of a session that is not active: it never began, or it has ended. -/
inductive Told (id : SessionId) : List SessionEvent → Prop
  | unborn : Told id []
  | ended {owner : Owner} {e : SessionEvent} (h : e.Ends id owner) :
    Told id [.started id owner, e]

/-- A session that is taken out changes no story. -/
@[simp] theorem story_without (s : Scheduler η) (id id' : SessionId) (services : Services η) :
    (s.without id services).story id' = s.story id' := rfl

/-- Nor does one that is put in. -/
@[simp] theorem story_withNew (s : Scheduler η) (i : Interpreter) (services : Services η)
    (id : SessionId) : (s.withNew i services).story id = s.story id := rfl

/-- What has been published agrees with the sessions and with the counter of ids. -/
structure Orderly (config : RuntimeConfig) (s : Scheduler η) : Prop where
  config_eq : s.config = config
  next_pos : 0 < s.nextId
  counted : s.channel.sent.filterMap SessionEvent.started? =
    (List.range' 1 (s.nextId - 1)).map SessionId.mk
  unborn : ∀ id : SessionId, s.nextId ≤ id.number → s.story id = []
  issued : ∀ id ∈ s.ids, id.number < s.nextId
  ascending : s.ids.Pairwise fun a b => a.number < b.number
  live : ∀ e ∈ s.sessions, e.2.Live
  begun : ∀ e ∈ s.sessions, s.story e.1 = [.started e.1 e.2.owner]
  told : ∀ id, id ∉ s.ids → Told id (s.story id)
  bounded : ∀ limit, config.maxSessions = some limit → s.active ≤ limit

namespace Orderly

variable {config : RuntimeConfig} {s : Scheduler η}

/-- A new scheduler is orderly. -/
theorem withServices (config : RuntimeConfig) (services : Services η) :
    Orderly config (Scheduler.withServices config services) where
  config_eq := rfl
  next_pos := Nat.one_pos
  counted := rfl
  unborn _ _ := rfl
  issued := by simp [Scheduler.withServices, ids]
  ascending := by simp [Scheduler.withServices, ids]
  live := by simp [Scheduler.withServices]
  begun := by simp [Scheduler.withServices]
  told _ _ := .unborn
  bounded := by simp [Scheduler.withServices, active]

/-- Neither the services nor the number of ticks play a part. -/
theorem unrelated (h : s.Orderly config) (services : Services η) (ticks : Nat) :
    Orderly config { s with services, ticks } :=
  ⟨h.config_eq, h.next_pos, h.counted, h.unborn, h.issued, h.ascending, h.live, h.begun, h.told,
    h.bounded⟩

/-- Sessions may change as long as their ids and owners stay. -/
theorem replace (h : s.Orderly config) {l : List (SessionId × Interpreter)}
    (services : Services η) (hids : l.map Prod.fst = s.ids) (hlive : ∀ e ∈ l, e.2.Live)
    (hbegun : ∀ e ∈ l, s.story e.1 = [.started e.1 e.2.owner]) :
    Orderly config { s with services, sessions := l } := by
  refine ⟨h.config_eq, h.next_pos, h.counted, h.unborn, ?_, ?_, hlive, hbegun, ?_, ?_⟩
  · rw [ids, hids]
    exact h.issued
  · rw [ids, hids]
    exact h.ascending
  · rw [ids, hids]
    exact h.told
  · intro limit hlimit
    have hlen := congrArg List.length hids
    rw [ids, List.length_map, List.length_map] at hlen
    rw [active, hlen]
    exact h.bounded limit hlimit

/-- A pause changes no id and no owner. -/
theorem setPaused (h : s.Orderly config) (id : SessionId) (paused : Bool) :
    Orderly config (s.modify id fun i => i.setPaused paused).2 := by
  have hmem := fun e (he : e ∈ (s.modify id fun i => i.setPaused paused).2.sessions) =>
    mem_modify he
  rcases s.modify_cases id fun i => i.setPaused paused with hm | hm <;> rw [hm] at hmem ⊢
  · exact h
  · apply h.replace s.services
    · rw [List.map_map]
      apply List.map_congr_left
      intro e _
      by_cases he : e.1 = id <;> simp [he]
    · intro e he
      rcases hmem e he with he | ⟨i, hi, heq⟩
      · exact h.live e he
      · obtain ⟨ses, hs, hnotify⟩ := h.live _ hi
        rw [heq]
        exact ⟨{ ses with paused }, congrArg (Option.map _) hs, hnotify⟩
    · intro e he
      rcases hmem e he with he | ⟨i, hi, heq⟩
      · exact h.begun e he
      · rw [heq]
        exact h.begun _ hi

/-- A session leaves with its end. -/
theorem close (h : s.Orderly config) {id : SessionId} {i : Interpreter} {e : SessionEvent}
    (services : Services η) (hm : (id, i) ∈ s.sessions) (he : e.Ends id i.owner) :
    Orderly config ((s.without id services).publish e) := by
  have hsession : e.session = id := by cases he <;> rfl
  have hstarted : e.started? = none := by cases he <;> rfl
  have hid : id ∈ s.ids := List.mem_map.mpr ⟨_, hm, rfl⟩
  have hstory : ∀ id', id ≠ id' →
      ((s.without id services).publish e).story id' = s.story id' := by
    intro id' hne
    rw [story_publish, story_without, hsession, if_neg hne, List.append_nil]
  refine ⟨h.config_eq, h.next_pos, ?_, ?_, ?_, ?_, ?_, ?_, ?_, ?_⟩
  · change (s.channel.sent ++ [e]).filterMap _ = _
    rw [List.filterMap_append, h.counted]
    simp [hstarted, publish, without]
  · intro id' hid'
    rw [hstory id' (by rintro rfl; exact Nat.not_le.mpr (h.issued id hid) hid')]
    exact h.unborn id' hid'
  · intro id' hid'
    rw [ids_publish, mem_ids_without] at hid'
    exact h.issued id' hid'.1
  · exact h.ascending.sublist (List.filter_sublist.map Prod.fst)
  · exact fun f hf => h.live f (List.mem_filter.mp hf).1
  · intro f hf
    obtain ⟨hf, hne⟩ := List.mem_filter.mp hf
    rw [hstory f.1 (Ne.symm (of_decide_eq_true hne))]
    exact h.begun f hf
  · intro id' hid'
    by_cases hne : id = id'
    · subst hne
      -- Its story was the start alone, and the end that is published closes it.
      rw [story_publish, story_without, hsession, if_pos rfl, h.begun _ hm]
      exact .ended he
    · rw [ids_publish, mem_ids_without, not_and] at hid'
      rw [hstory id' hne]
      exact h.told id' fun hin => hid' hin (Ne.symm hne)
  · intro limit hlimit
    exact Nat.le_trans (List.length_filter_le _ _) (h.bounded limit hlimit)

/-- A new session comes with its start. -/
theorem enter (h : s.Orderly config) {i : Interpreter} (services : Services η) (hi : i.Live)
    (hfull : s.fullAt = none) :
    Orderly config ((s.withNew i services).publish (.started ⟨s.nextId⟩ i.owner)) := by
  -- Nobody has had the next id, so no story but the new one changes.
  have hnew : (⟨s.nextId⟩ : SessionId) ∉ s.ids :=
    fun hid => Nat.lt_irrefl _ (h.issued _ hid)
  have hstory : ∀ id, (⟨s.nextId⟩ : SessionId) ≠ id →
      ((s.withNew i services).publish (.started ⟨s.nextId⟩ i.owner)).story id = s.story id := by
    intro id hne
    rw [story_publish, story_withNew, SessionEvent.session, if_neg hne, List.append_nil]
  refine ⟨h.config_eq, Nat.succ_pos _, ?_, ?_, ?_, ?_, ?_, ?_, ?_, ?_⟩
  · change (s.channel.sent ++ [SessionEvent.started ⟨s.nextId⟩ i.owner]).filterMap _ = _
    have hnext : 1 + (s.nextId - 1) = s.nextId := Nat.add_sub_cancel' h.next_pos
    have hrange := congrArg (List.map SessionId.mk)
      (List.range'_1_concat (s := 1) (n := s.nextId - 1))
    rw [Nat.sub_add_cancel h.next_pos, hnext, List.map_append] at hrange
    rw [List.filterMap_append, h.counted]
    exact hrange.symm
  · intro id hid
    have hlt : s.nextId < id.number := hid
    rw [hstory id (by rintro rfl; exact Nat.lt_irrefl _ hlt)]
    exact h.unborn id (Nat.le_of_lt hlt)
  · intro id hid
    rw [ids_publish, ids_withNew, List.mem_append, List.mem_singleton] at hid
    rcases hid with hid | rfl
    · exact Nat.lt_succ_of_lt (h.issued id hid)
    · exact Nat.lt_succ_self _
  · rw [ids_publish, ids_withNew, List.pairwise_append]
    refine ⟨h.ascending, List.pairwise_singleton .., ?_⟩
    intro a ha b hb
    rw [List.mem_singleton.mp hb]
    exact h.issued a ha
  · intro e he
    rcases List.mem_append.mp he with he | he
    · exact h.live e he
    · rw [List.mem_singleton.mp he]
      exact hi
  · intro e he
    rcases List.mem_append.mp he with he | he
    · have hid : e.1 ∈ s.ids := List.mem_map_of_mem he
      rw [hstory e.1 (by rintro heq; exact hnew (heq ▸ hid))]
      exact h.begun e he
    · rw [List.mem_singleton.mp he, story_publish, story_withNew, h.unborn _ (Nat.le_refl _)]
      simp [SessionEvent.session]
  · intro id hid
    rw [ids_publish, ids_withNew, List.mem_append, List.mem_singleton, not_or] at hid
    rw [hstory id (Ne.symm hid.2)]
    exact h.told id hid.1
  · intro limit hlimit
    have hroom := hfull
    rw [fullAt, h.config_eq, hlimit, Option.filter_some] at hroom
    have hlt : s.active < limit := by simpa using hroom
    change (s.sessions ++ [_]).length ≤ limit
    rw [List.length_append]
    exact hlt

/-- In ascending order an id tells the place of a session. -/
theorem filter_eq (h : s.Orderly config) {before after : List (SessionId × Interpreter)}
    {id : SessionId} {i : Interpreter} (hl : s.sessions = before ++ (id, i) :: after) :
    (s.sessions.filter fun e => e.1 ≠ id) = before ++ after := by
  have hascending := h.ascending
  rw [ids, hl, List.map_append, List.map_cons, List.pairwise_append, List.pairwise_cons]
    at hascending
  obtain ⟨-, ⟨hafter, -⟩, hbefore⟩ := hascending
  -- Ids ascend strictly on both sides, so no other session has this one.
  have hne : ∀ e ∈ before ++ after, e.1 ≠ id := by
    intro e he heq
    rcases List.mem_append.mp he with he | he
    · have hlt := hbefore e.1 (List.mem_map_of_mem he) id List.mem_cons_self
      exact Nat.lt_irrefl _ (heq ▸ hlt)
    · have hlt := hafter e.1 (List.mem_map_of_mem he)
      exact Nat.lt_irrefl _ (heq ▸ hlt)
  have hkeep := List.filter_eq_self.mpr fun e he => decide_eq_true (hne e he)
  rw [List.filter_append] at hkeep
  rw [hl, List.filter_append, List.filter_cons_of_neg (by simp)]
  exact hkeep

/-- A session is active just where it has started and not ended. -/
theorem active_iff (h : s.Orderly config) (id : SessionId) :
    (∃ i, (id, i) ∈ s.sessions) ↔ ∃ owner, s.story id = [.started id owner] := by
  constructor
  · rintro ⟨i, hi⟩
    exact ⟨i.owner, h.begun _ hi⟩
  · rintro ⟨owner, hstory⟩
    by_cases hid : id ∈ s.ids
    · obtain ⟨⟨id, i⟩, hi, rfl⟩ := List.mem_map.mp hid
      exact ⟨i, hi⟩
    · have htold := h.told id hid
      rw [hstory] at htold
      cases htold

/-- A session has not begun, or is active, or has ended. -/
theorem story_cases (h : s.Orderly config) (id : SessionId) :
    s.story id = [] ∨ (∃ owner, s.story id = [.started id owner]) ∨
    (∃ owner c, c.owner = owner ∧ s.story id = [.started id owner, .completed ⟨id, c⟩]) ∨
    ∃ owner, s.story id = [.started id owner, .stopped id owner] := by
  by_cases hid : id ∈ s.ids
  · obtain ⟨e, he, rfl⟩ := List.mem_map.mp hid
    exact .inr (.inl ⟨e.2.owner, h.begun e he⟩)
  · have htold := h.told id hid
    generalize s.story id = story at htold ⊢
    cases htold with
    | unborn => exact .inl rfl
    | ended he =>
      cases he with
      | completed ho => exact .inr (.inr (.inl ⟨_, _, ho, rfl⟩))
      | stopped => exact .inr (.inr (.inr ⟨_, rfl⟩))

variable [Host η]

/-- A turn keeps the order. -/
theorem turn (h : s.Orderly config) {s' : Scheduler η} {t : Turn η} (ht : s.Turned t s') :
    s'.Orderly config := by
  have hmem := fun e (he : e ∈ s'.sessions) => ht.mem_cases he
  cases ht with
  | @goesOn before after id hl hs hr =>
    apply h.replace
    · rw [ids, hl, List.map_append, List.map_append]
      rfl
    · intro e he
      rcases hmem e he with he | ⟨hm, heq, hr⟩
      · exact h.live e he
      · rw [heq]
        exact Turn.live (h.live _ hm) hr
    · intro e he
      rcases hmem e he with he | ⟨hm, heq, -⟩
      · exact h.begun e he
      · rw [heq, t.updates.config_owner.2]
        exact h.begun _ hm
  | @completes before after id completion hl hs hr =>
    have hm : (id, t.interpreter) ∈ s.sessions := by rw [hl]; simp
    obtain ⟨ha, ho⟩ := Turn.announced (h.live _ hm) hr
    have hclosed := h.close t.reply.services hm (.completed ho)
    rw [without, h.filter_eq hl] at hclosed
    rw [afterTurn, ha]
    exact hclosed

/-- A start keeps the order. -/
theorem spawn (h : s.Orderly config) (owner : Owner) (ds : List Descriptor) :
    (s.spawn owner ds).2.Orderly config := by
  rcases s.spawn_cases owner ds with ⟨limit, hs⟩ | ⟨e, -, hs⟩ | ⟨p, hfull, -, hs⟩ <;> rw [hs]
  · exact h
  · exact h.unrelated _ _
  · exact h.enter _ ⟨.start p true, rfl, rfl⟩ hfull

/-- A stop keeps the order. -/
theorem stop (h : s.Orderly config) (id : SessionId) : (s.stop id).2.Orderly config := by
  rcases s.stop_cases id with hs | ⟨i, hm, hs⟩ <;> rw [hs]
  · exact h
  · exact h.close _ hm .stopped

/-- Everything keeps the order. -/
theorem kept (config : RuntimeConfig) (outside : Services η → Services η → Prop) :
    Kept outside fun _ s => Orderly config s where
  outside _ h := h.unrelated _ _
  clock n h := h.unrelated _ n
  spawn owner ds h := h.spawn owner ds
  stop id h := h.stop id
  setPaused id paused h := h.setPaused id paused
  turn ht h := h.turn ht

end Orderly

section

variable [Host η]

/-- An advance of live sessions publishes just the completions that it returns, each for a
session of its own. -/
theorem Advances.published {s s' : Scheduler η} {l left : List (SessionId × Interpreter)}
    {ts : List (Turn η)} {done : List SessionCompleted} (h : Advances s l ts done left s')
    (hlive : ∀ e ∈ l, e.2.Live) :
    s'.channel.sent = s.channel.sent ++ done.map .completed ∧
      (done.map SessionCompleted.id).Sublist (l.map Prod.fst) := by
  induction h with
  | nil => simp
  | goesOn _ _ _ _ ih =>
    obtain ⟨hsent, hids⟩ := ih fun e he => hlive e (List.mem_cons_of_mem _ he)
    exact ⟨hsent, hids.cons _⟩
  | completes id hs hr _ ih =>
    obtain ⟨hsent, hids⟩ := ih fun e he => hlive e (List.mem_cons_of_mem _ he)
    rw [afterTurn, (Turn.announced (hlive _ List.mem_cons_self) hr).1] at hsent
    refine ⟨?_, hids.cons_cons _⟩
    rw [hsent]
    simp [announce, publish, Channel.send]

/-- A tick publishes just the completions that it returns, in ascending order of the ids. -/
theorem Orderly.tick_publishes {config : RuntimeConfig} {s : Scheduler η}
    (h : s.Orderly config) :
    s.tick.2.channel.sent = s.channel.sent ++ s.tick.1.map .completed ∧
      s.tick.1.Pairwise fun a b => a.id.number < b.id.number := by
  obtain ⟨hsent, hids⟩ :=
    (advances_advance { s with ticks := s.ticks + 1 } s.sessions).published h.live
  refine ⟨hsent, ?_⟩
  have hascending : (s.tick.1.map SessionCompleted.id).Pairwise fun a b => a.number < b.number :=
    h.ascending.sublist hids
  rwa [List.pairwise_map] at hascending

/-- A start that fails leaves the sessions, the events and the counter alone. -/
theorem spawn_failed {s : Scheduler η} {owner : Owner} {ds : List Descriptor} {e : RuntimeError}
    (h : (s.spawn owner ds).1 = .error e) :
    (s.spawn owner ds).2.sessions = s.sessions ∧ (s.spawn owner ds).2.channel = s.channel ∧
      (s.spawn owner ds).2.nextId = s.nextId := by
  rcases s.spawn_cases owner ds with ⟨limit, hs⟩ | ⟨e, -, hs⟩ | ⟨p, -, -, hs⟩ <;> rw [hs] at h ⊢
  · exact ⟨rfl, rfl, rfl⟩
  · exact ⟨rfl, rfl, rfl⟩
  · cases h

/-- A stop that fails changes nothing. -/
theorem stop_failed {s : Scheduler η} {id : SessionId} {e : RuntimeError}
    (h : (s.stop id).1 = .error e) : (s.stop id).2 = s := by
  rcases s.stop_cases id with hs | ⟨i, -, hs⟩ <;> rw [hs] at h ⊢
  cases h

omit [Host η] in
/-- A pause that fails changes nothing. -/
theorem modify_failed {s : Scheduler η} {id : SessionId} {f : Interpreter → Interpreter}
    {e : RuntimeError} (h : (s.modify id f).1 = .error e) : (s.modify id f).2 = s := by
  rcases s.modify_cases id f with hs | hs <;> rw [hs] at h ⊢
  cases h

/-- Whatever calls a scheduler gets, and whatever others do in between: the events of a session
are none, its start, or its start and its one end; starts are numbered from one without a gap;
the sessions that have started and not ended are the active ones, each with an interpreter at
work and never more than allowed; a tick publishes just the completions that it returns, in
ascending order; and a call that fails changes no session, publishes nothing and takes no id. -/
theorem sessions_start_and_end_once {config : RuntimeConfig} {services : Services η}
    {outside : Services η → Services η → Prop} {ts : List (Turn η)} {s : Scheduler η}
    (h : (withServices config services).Reaches outside ts s) :
    (∀ id, s.story id = [] ∨ (∃ owner, s.story id = [.started id owner]) ∨
      (∃ owner c, c.owner = owner ∧ s.story id = [.started id owner, .completed ⟨id, c⟩]) ∨
      ∃ owner, s.story id = [.started id owner, .stopped id owner]) ∧
    s.channel.sent.filterMap SessionEvent.started? =
      (List.range' 1 (s.nextId - 1)).map SessionId.mk ∧
    (∀ id, (∃ i, (id, i) ∈ s.sessions) ↔ ∃ owner, s.story id = [.started id owner]) ∧
    (∀ e ∈ s.sessions, e.2.isRunning = true) ∧
    (∀ limit, config.maxSessions = some limit → s.active ≤ limit) ∧
    (s.tick.2.channel.sent = s.channel.sent ++ s.tick.1.map .completed ∧
      s.tick.1.Pairwise fun a b => a.id.number < b.id.number) ∧
    (∀ owner ds e, (s.spawn owner ds).1 = .error e →
      (s.spawn owner ds).2.sessions = s.sessions ∧ (s.spawn owner ds).2.channel = s.channel ∧
        (s.spawn owner ds).2.nextId = s.nextId) ∧
    ∀ id e, ((s.stop id).1 = .error e → (s.stop id).2 = s) ∧
      ((s.pause id).1 = .error e → (s.pause id).2 = s) ∧
      ((s.resume id).1 = .error e → (s.resume id).2 = s) := by
  have horderly := (Orderly.kept config outside).of_reaches (.withServices config services) h
  refine ⟨horderly.story_cases, horderly.counted, horderly.active_iff, ?_, horderly.bounded,
    horderly.tick_publishes, fun _ _ _ => spawn_failed, ?_⟩
  · intro e he
    obtain ⟨ses, hs, -⟩ := horderly.live e he
    rw [Interpreter.isRunning, hs]
    rfl
  · exact fun id e => ⟨stop_failed, modify_failed, modify_failed⟩

end

/-- One session waits for the player and is stopped; another has run to its end before that. -/
theorem sessions_start_and_end_once_pair :
    let services : Services Stage := ⟨{}, ⟨{}, { presenter := .recording {} }⟩⟩
    let owner : Owner := ⟨7⟩
    let start := fun a => Operation.spawn owner [Factory.describe (.ofAction a)]
    let message := start (.showMessage (.waiting "Hello"))
    let s := ((((withServices {} services).perform message).perform
      (start (.comment "Bye"))).perform (.runUntilIdle 2)).perform (.stop ⟨1⟩)
    s.channel.sent = [.started ⟨1⟩ owner, .started ⟨2⟩ owner,
      .completed ⟨⟨2⟩, owner, .endOfProgram, 2, 1⟩, .stopped ⟨1⟩ owner] ∧
    ∀ id owner, s.story id ≠ [.started id owner] := by
  intro services owner start message s
  have hs : (withServices {} services).Reaches (fun _ _ => False) _ s :=
    (((Reaches.refl.perform _).perform _).perform _).perform _
  obtain ⟨-, -, hactive, -⟩ := sessions_start_and_end_once hs
  have hidle : s.sessions.isEmpty = true := by decide +kernel
  rw [List.isEmpty_iff] at hidle
  refine ⟨by decide +kernel, ?_⟩
  intro id owner hstory
  obtain ⟨i, hi⟩ := (hactive id).mpr ⟨owner, hstory⟩
  rw [hidle] at hi
  cases hi

end Scheduler

end EventScript
