import EventScript.Proofs.Desk.Basic
import EventScript.Proofs.Isolation.Interpreter
import EventScript.Proofs.Scheduler.Lifecycle

/-!
# A session beside the others

`Scheduler.Beside` compares a session of a scheduler to a desk that has the session to itself: the
interpreter of the session is the one of the desk, the games agree on what it mentions, and the
other sessions write nothing of that. A tick of the scheduler and an update at the desk keep this,
and so does every other call that is not about the session.
-/

namespace EventScript

/-- The program of the session writes none of some places. -/
def Interpreter.Spares (cells : List Cell) (i : Interpreter) : Prop :=
  ∀ cell ∈ i.mentions.writes, cell ∉ cells

/-- An interpreter that mentions less spares as much. -/
theorem Interpreter.Spares.mono {cells : List Cell} {i j : Interpreter} (h : i.Spares cells)
    (hm : j.mentions ⊆ i.mentions) : j.Spares cells :=
  fun cell hc => h cell (Mentions.writes_mono hm hc)

/-- An update leaves a session behind just where there was one and it was not completed. -/
theorem Interpreter.Updates.isRunning_iff {η : Type} [Host η] {i : Interpreter}
    {services : Services η} {reply : Reply TickReport η} (h : i.Updates services reply) :
    reply.interpreter.isRunning = true ↔
      i.isRunning = true ∧ ∀ completion, reply.result ≠ .completed completion := by
  cases h with
  | inactive h => simp [Interpreter.isRunning, h]
  | paused h => simp [Interpreter.isRunning, h]
  | limited | ended => simp [Interpreter.isRunning, Interpreter.complete]
  | advanced h _ _ hstep => cases hstep <;> simp [Interpreter.isRunning, h]

/-- A session that goes on spares what it spared. -/
theorem Interpreter.Spares.update {η : Type} [Host η] {cells : List Cell} {i : Interpreter}
    (h : i.Spares cells) (services : Services η) : (i.update services).interpreter.Spares cells :=
  h.mono (i.mentions_update services)

/-- The turn of another session leaves alone what it spares. -/
theorem Turn.spares {cells : List Cell} {w : World Stage} {t : Turn Stage}
    (hw : w.Agree cells t.services.world) (ht : t.interpreter.Spares cells) :
    w.Agree cells t.reply.services.world :=
  (Interpreter.update_inStep ⟨hw.right, hw.right, fun _ _ => rfl⟩).world.agree_of_disjoint hw ht

namespace Scheduler

/-- The place of an interpreter among the sessions, as long as it has a session. -/
def seat (id : SessionId) (i : Interpreter) : List (SessionId × Interpreter) :=
  if i.isRunning then [(id, i)] else []

/-- Completions of a session, as events. -/
def told (id : SessionId) (completions : List Completion) : List SessionEvent :=
  completions.map fun c => .completed ⟨id, c⟩

/-- After a turn the services are those that it leaves. -/
theorem services_afterTurn {η : Type} [Host η] (s : Scheduler η) (id : SessionId) (t : Turn η) :
    (s.afterTurn id t).services = t.reply.services := by
  rw [afterTurn, services_announce]

/-- A turn tells what it announces, of its session alone. -/
theorem story_afterTurn {η : Type} [Host η] (s : Scheduler η) (id id' : SessionId) (t : Turn η) :
    (s.afterTurn id' t).story id =
      s.story id ++ if id' = id then told id' t.reply.announced.toList else [] := by
  unfold afterTurn announce told
  cases t.reply.announced with
  | none => simp [story]
  | some c => rw [story_publish]; rfl

variable {cells : List Cell} {id : SessionId}

/-- Among sessions in a world, one is as it is at a desk of its own: where that has a session, it
is here, and the worlds agree on what it mentions. The other sessions spare that. -/
structure Beside (id : SessionId) (cells : List Cell) (d : Desk Stage)
    (l : List (SessionId × Interpreter)) (w : World Stage) : Prop where
  seat : (l.filter fun e => e.1 = id) = seat id d.interpreter
  within : d.interpreter.mentions.footprint ⊆ cells
  world : d.services.world.Agree cells w
  spared : ∀ e ∈ l, e.1 ≠ id → e.2.Spares cells

namespace Beside

variable {d : Desk Stage} {i : Interpreter} {other : SessionId} {w : World Stage}
  {l rest : List (SessionId × Interpreter)}

/-- All sessions are others where there is none at the desk. -/
theorem of_idle (hi : d.interpreter.session = none)
    (hl : ∀ e ∈ l, e.1 ≠ id ∧ e.2.Spares cells) (hw : d.services.world.Agree cells w) :
    Beside id cells d l w where
  seat := by
    rw [Scheduler.seat, Interpreter.isRunning, hi]
    exact List.filter_eq_nil_iff.mpr fun e he => by simpa using (hl e he).1
  within := by
    rw [Interpreter.mentions, hi]
    exact List.nil_subset _
  world := hw
  spared e he _ := (hl e he).2

/-- All others are others to the session at the desk. -/
theorem cons_own (hi : d.interpreter.isRunning = true)
    (hwithin : d.interpreter.mentions.footprint ⊆ cells)
    (hl : ∀ e ∈ l, e.1 ≠ id ∧ e.2.Spares cells) (hw : d.services.world.Agree cells w) :
    Beside id cells d ((id, d.interpreter) :: l) w where
  seat := by
    have hnone : (l.filter fun e => e.1 = id) = [] :=
      List.filter_eq_nil_iff.mpr fun e he => by simpa using (hl e he).1
    rw [List.filter_cons_of_pos (by simp), hnone, Scheduler.seat, if_pos hi]
  within := hwithin
  world := hw
  spared := List.forall_mem_cons.mpr ⟨fun hne => absurd rfl hne, fun e he _ => (hl e he).2⟩

/-- One session more that spares the cells changes nothing. -/
theorem cons_other (h : Beside id cells d l w) (hid : other ≠ id) (hi : i.Spares cells) :
    Beside id cells d ((other, i) :: l) w where
  seat := by
    rw [List.filter_cons_of_neg (by simpa using hid)]
    exact h.seat
  within := h.within
  world := h.world
  spared := List.forall_mem_cons.mpr ⟨fun _ => hi, h.spared⟩

/-- Where the session comes first, it is the one at the desk, and only others are behind it. -/
theorem of_cons_own (h : Beside id cells d ((id, i) :: rest) w) :
    i = d.interpreter ∧ i.isRunning = true ∧ ∀ e ∈ rest, e.1 ≠ id ∧ e.2.Spares cells := by
  have hseat := h.seat
  rw [List.filter_cons_of_pos (by simp), Scheduler.seat] at hseat
  split at hseat
  · next hrun =>
    obtain ⟨hi, hrest⟩ := List.cons_eq_cons.mp hseat
    obtain rfl := (Prod.mk.inj hi).2
    refine ⟨rfl, hrun, ?_⟩
    intro e he
    have hne : e.1 ≠ id := by simpa using List.filter_eq_nil_iff.mp hrest e he
    exact ⟨hne, h.spared e (List.mem_cons_of_mem _ he) hne⟩
  · cases hseat

/-- The first session spares the cells if it is another one. -/
theorem of_cons_other (h : Beside id cells d ((other, i) :: rest) w) (hid : other ≠ id) :
    i.Spares cells ∧ Beside id cells d rest w := by
  refine ⟨h.spared _ List.mem_cons_self hid, ?_, h.within, h.world, ?_⟩
  · rw [← h.seat, List.filter_cons_of_neg (by simpa using hid)]
  · exact fun e he => h.spared e (List.mem_cons_of_mem _ he)

/-- The turn of another session changes nothing of this. -/
theorem other_turn {t : Turn Stage} (h : Beside id cells d l t.services.world)
    (ht : t.interpreter.Spares cells) : Beside id cells d l t.reply.services.world :=
  ⟨h.seat, h.within, Turn.spares h.world ht, h.spared⟩

/-- The turn of the session itself comes to the same as an update at the desk. -/
theorem own_turn {t : Turn Stage}
    (h : Beside id cells d ((id, t.interpreter) :: rest) t.services.world) :
    t.reply.announced = (d.enter .update).reply.announced ∧
      t.reply.interpreter = (d.enter .update).desk.interpreter ∧
      (d.enter .update).desk.interpreter.mentions.footprint ⊆ cells ∧
      (d.enter .update).desk.services.world.Agree cells t.reply.services.world := by
  obtain ⟨i, services⟩ := d
  obtain rfl : t.interpreter = i := h.of_cons_own.1
  obtain ⟨-, hannounced, hinterpreter, hmoved⟩ :=
    Interpreter.update_inStep (h.world.mono h.within)
  refine ⟨hannounced.symm, hinterpreter.symm, ?_, hmoved.agree h.world⟩
  exact List.Subset.trans
    (Mentions.footprint_mono (t.interpreter.mentions_update services)) h.within

end Beside

/-- An advance of other sessions leaves alone what they spare. -/
theorem Advances.spares {s s' : Scheduler Stage} {l left : List (SessionId × Interpreter)}
    {ts : List (Turn Stage)} {done : List SessionCompleted} (h : Advances s l ts done left s')
    {w : World Stage} (hw : w.Agree cells s.services.world)
    (hl : ∀ e ∈ l, e.1 ≠ id ∧ e.2.Spares cells) :
    w.Agree cells s'.services.world ∧ (∀ e ∈ left, e.1 ≠ id ∧ e.2.Spares cells) ∧
      s'.story id = s.story id := by
  induction h with
  | nil => exact ⟨hw, hl, rfl⟩
  | goesOn _ hs _ _ ih =>
    obtain ⟨hne, hspares⟩ := hl _ List.mem_cons_self
    rw [← hs] at hw
    obtain ⟨hw, hleft, hstory⟩ :=
      ih (Turn.spares hw hspares) fun e he => hl e (List.mem_cons_of_mem _ he)
    exact ⟨hw, List.forall_mem_cons.mpr ⟨⟨hne, hspares.update _⟩, hleft⟩, hstory⟩
  | completes _ hs _ _ ih =>
    obtain ⟨hne, hspares⟩ := hl _ List.mem_cons_self
    rw [← hs] at hw
    rw [services_afterTurn] at ih
    obtain ⟨hw, hleft, hstory⟩ :=
      ih (Turn.spares hw hspares) fun e he => hl e (List.mem_cons_of_mem _ he)
    rw [story_afterTurn, if_neg hne, List.append_nil] at hstory
    exact ⟨hw, hleft, hstory⟩

/-- An advance of sessions comes to the same for one of them as an update at its desk. -/
theorem Advances.beside {s s' : Scheduler Stage} {l left : List (SessionId × Interpreter)}
    {ts : List (Turn Stage)} {done : List SessionCompleted} (h : Advances s l ts done left s')
    {d : Desk Stage} (hb : Beside id cells d l s.services.world) :
    Beside id cells (d.enter .update).desk left s'.services.world ∧
      s'.story id = s.story id ++ told id (d.enter .update).reply.announced.toList := by
  induction h with
  | nil =>
    have hidle : d.interpreter.session = none := by
      have hseat := hb.seat
      cases hs : d.interpreter.session with
      | none => rfl
      | some s =>
        rw [Scheduler.seat, Interpreter.isRunning, hs] at hseat
        cases hseat
    have hreply : (d.enter .update).reply = _ :=
      congrArg (Reply.map _) (Interpreter.update_of_inactive hidle d.services)
    rw [Desk.Entry.desk, hreply]
    exact ⟨hb, (List.append_nil _).symm⟩
  | @goesOn s s' t other rest left ts done hs hr hrest ih =>
    rw [← hs] at hb
    by_cases hid : other = id
    · subst hid
      obtain ⟨hannounced, hinterpreter, hwithin, hw⟩ := hb.own_turn
      obtain ⟨-, hrun, hothers⟩ := hb.of_cons_own
      obtain ⟨hw, hothers, hstory⟩ := hrest.spares hw hothers
      have hstays := t.updates.isRunning_iff.mpr ⟨hrun, hr⟩
      rw [hinterpreter] at hstays ⊢
      rw [← hannounced, Turn.announced_eq_none hr, hstory]
      exact ⟨.cons_own hstays hwithin hothers hw, (List.append_nil _).symm⟩
    · obtain ⟨hspares, hb⟩ := hb.of_cons_other hid
      obtain ⟨hb, hstory⟩ := ih (hb.other_turn hspares)
      exact ⟨hb.cons_other hid (hspares.update _), hstory⟩
  | @completes s s' t other rest left ts done completion hs hr hrest ih =>
    rw [← hs] at hb
    by_cases hid : other = id
    · subst hid
      obtain ⟨hannounced, hinterpreter, hwithin, hw⟩ := hb.own_turn
      obtain ⟨-, hrun, hothers⟩ := hb.of_cons_own
      rw [← services_afterTurn s other t] at hw
      obtain ⟨hw, hothers, hstory⟩ := hrest.spares hw hothers
      rw [story_afterTurn, if_pos rfl, hannounced] at hstory
      have hends : ¬t.reply.interpreter.isRunning = true :=
        fun hstays => (t.updates.isRunning_iff.mp hstays).2 completion hr
      rw [hinterpreter] at hends
      exact ⟨.of_idle (Option.not_isSome_iff_eq_none.mp hends) hothers hw, hstory⟩
    · obtain ⟨hspares, hb⟩ := hb.of_cons_other hid
      rw [services_afterTurn] at ih
      obtain ⟨hb, hstory⟩ := ih (hb.other_turn hspares)
      rw [story_afterTurn, if_neg hid, List.append_nil] at hstory
      exact ⟨hb, hstory⟩

namespace Beside

variable {d : Desk Stage} {s : Scheduler Stage} {other : SessionId}

/-- A tick comes to the same for the session as an update at its desk. -/
theorem tick (h : Beside id cells d s.sessions s.services.world) :
    Beside id cells (d.enter .update).desk s.tick.2.sessions s.tick.2.services.world ∧
      s.tick.2.story id = s.story id ++ told id (d.enter .update).reply.announced.toList :=
  (advances_advance { s with ticks := s.ticks + 1 } s.sessions).beside h

/-- A stop of another session changes nothing of this. -/
theorem stop (h : Beside id cells d s.sessions s.services.world) (hid : other ≠ id) :
    Beside id cells d (s.stop other).2.sessions (s.stop other).2.services.world ∧
      (s.stop other).2.story id = s.story id := by
  rcases s.stop_cases other with hs | ⟨i, -, hs⟩ <;> rw [hs]
  · exact ⟨h, rfl⟩
  · have hworld := i.stop_plain h.world.right
    refine ⟨⟨?_, h.within, ?_, ?_⟩, ?_⟩
    · rw [← h.seat]
      change List.filter _ (List.filter _ s.sessions) = _
      rw [List.filter_filter]
      exact List.filter_congr fun e _ => by grind
    · change d.services.world.Agree cells (i.stop s.services).services.world
      rw [hworld]
      exact h.world
    · exact fun e he => h.spared e (List.mem_filter.mp he).1
    · rw [story_publish, story_without, SessionEvent.session, if_neg hid, List.append_nil]

/-- Nor does a pause of another session. -/
theorem setPaused (h : Beside id cells d s.sessions s.services.world) (hid : other ≠ id)
    (paused : Bool) :
    Beside id cells d (s.modify other fun i => i.setPaused paused).2.sessions
        (s.modify other fun i => i.setPaused paused).2.services.world ∧
      (s.modify other fun i => i.setPaused paused).2.story id = s.story id := by
  rcases s.modify_cases other fun i => i.setPaused paused with hs | hs <;> rw [hs]
  · exact ⟨h, rfl⟩
  · refine ⟨⟨?_, h.within, h.world, ?_⟩, rfl⟩
    · rw [← h.seat, List.filter_map]
      -- The ids are as they were, and what is found under this one has not been changed.
      have hids : ((fun e : SessionId × Interpreter => decide (e.1 = id)) ∘ fun e =>
          if e.1 = other then (other, e.2.setPaused paused) else e) =
          fun e => decide (e.1 = id) := by
        funext e
        grind
      rw [hids]
      refine (List.map_congr_left fun e he => if_neg ?_).trans (List.map_id _)
      rw [of_decide_eq_true (List.mem_filter.mp he).2]
      exact Ne.symm hid
    · intro e he hne
      obtain ⟨g, hg, rfl⟩ := List.mem_map.mp he
      by_cases hother : g.1 = other
      · rw [if_pos hother]
        apply (h.spared g hg (hother ▸ hid)).mono
        rw [Interpreter.mentions_setPaused]
        exact List.Subset.refl _
      · rw [if_neg hother] at hne ⊢
        exact h.spared g hg hne

/-- Nor does a new session that spares what this one mentions. -/
theorem withNew (h : Beside id cells d s.sessions s.services.world)
    (hid : (⟨s.nextId⟩ : SessionId) ≠ id) {i : Interpreter} (hi : i.Spares cells)
    {services : Services Stage} (hw : d.services.world.Agree cells services.world)
    (owner : Owner) :
    let t := (s.withNew i services).publish (.started ⟨s.nextId⟩ owner)
    Beside id cells d t.sessions t.services.world ∧ t.story id = s.story id := by
  refine ⟨⟨?_, h.within, hw, ?_⟩, ?_⟩
  · rw [← h.seat]
    change List.filter _ (s.sessions ++ [(⟨s.nextId⟩, i)]) = _
    rw [List.filter_append]
    simp [hid]
  · intro e he hne
    rcases List.mem_append.mp he with he | he
    · exact h.spared e he hne
    · rw [List.mem_singleton.mp he]
      exact hi
  · rw [story_publish, story_withNew, SessionEvent.session, if_neg hid, List.append_nil]

end Beside

end Scheduler

end EventScript
