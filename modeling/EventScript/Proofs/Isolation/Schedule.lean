import EventScript.Proofs.Isolation.Scheduler
import EventScript.Proofs.Scheduler.Births

/-!
# Sessions that share nothing but what they mention

Sessions of a scheduler share the game, the host and the pool, and take turns. Where nothing that
one of them mentions is written by any other, it goes the way that its program goes alone, whatever
is spawned, stopped, paused and continued beside it. What is written counts in full for that: the
targets of changes, and what the answers of prompts are stored in.
-/

namespace EventScript

/-- The completions that were announced in a run. -/
def Desk.completions {η : Type} (run : List (Entry η)) : List Completion :=
  run.flatMap fun e => e.reply.announced.toList

/-- A start announces no completion. -/
theorem Desk.announced_start {η : Type} [Host η] (d : Desk η) (ds : List Descriptor) :
    (d.enter (.start ds)).reply.announced = none := by
  have hr := d.replies_reply (.start ds)
  unfold enter
  generalize d.reply (.start ds) = r at hr ⊢
  cases hr <;> rfl

namespace Scheduler

/-- What the program of a spawned session mentions. -/
def Birth.mentions (b : Birth) : Mentions := b.program.mentions b.owner

/-- The call is a tick or a start, or is about another session. -/
def Operation.spares (id : SessionId) : Operation → Bool
  | tick | spawn _ _ => true
  | stop other | pause other | resume other => other ≠ id
  | stopAll | runUntilIdle _ => false

/-- An update for a tick, and nothing for any other call. -/
def Operation.updates {η : Type} : Operation → List (Desk.Call η)
  | tick => [.update]
  | _ => []

variable {id : SessionId} {cells : List Cell}

/-- Every call that spares the session comes to the same for it as updates at its desk, where the
sessions that are spawned spare what it mentions. -/
theorem Beside.perform {d : Desk Stage} {s : Scheduler Stage}
    (h : Beside id cells d s.sessions s.services.world) {o : Operation} (ho : o.spares id = true)
    (hborn : ∀ b ∈ s.birth? o, b.id ≠ id ∧ ∀ cell ∈ b.mentions.writes, cell ∉ cells) :
    Beside id cells (d.after o.updates) (s.perform o).sessions (s.perform o).services.world ∧
      (s.perform o).story id = s.story id ++ told id (Desk.completions (d.run o.updates)) := by
  cases o with
  | tick =>
    obtain ⟨hb, hstory⟩ := h.tick
    refine ⟨hb, hstory.trans ?_⟩
    rw [Operation.updates, Desk.run, Desk.run, Desk.completions, List.flatMap_singleton]
  | spawn owner ds =>
    have hworld : d.services.world.Agree cells (s.services.took (s.made ds)).world :=
      ⟨h.world.left, h.world.right.reportAll _, h.world.game⟩
    rcases s.spawn_births owner ds with ⟨-, hs | hs⟩ | ⟨p, -, hsome, hs⟩ <;> rw [hs]
    · exact ⟨h, (List.append_nil _).symm⟩
    · exact ⟨⟨h.seat, h.within, hworld, h.spared⟩, (List.append_nil _).symm⟩
    · obtain ⟨hid, hspares⟩ := hborn _ hsome
      obtain ⟨hb, hstory⟩ := h.withNew hid (i := s.opened owner p) hspares hworld owner
      exact ⟨hb, hstory.trans (List.append_nil _).symm⟩
  | stop other =>
    obtain ⟨hb, hstory⟩ := h.stop (of_decide_eq_true ho)
    exact ⟨hb, hstory.trans (List.append_nil _).symm⟩
  | pause other =>
    obtain ⟨hb, hstory⟩ := h.setPaused (of_decide_eq_true ho) true
    exact ⟨hb, hstory.trans (List.append_nil _).symm⟩
  | resume other =>
    obtain ⟨hb, hstory⟩ := h.setPaused (of_decide_eq_true ho) false
    exact ⟨hb, hstory.trans (List.append_nil _).symm⟩
  | stopAll | runUntilIdle => cases ho

/-- So do calls in order. -/
theorem Beside.after {d : Desk Stage} {s : Scheduler Stage}
    (h : Beside id cells d s.sessions s.services.world) {ops : List Operation}
    (hspares : ∀ o ∈ ops, o.spares id = true)
    (hborn : ∀ b ∈ s.births ops, b.id ≠ id ∧ ∀ cell ∈ b.mentions.writes, cell ∉ cells) :
    let updates := ops.flatMap Operation.updates
    Beside id cells (d.after updates) (s.after ops).sessions (s.after ops).services.world ∧
      (s.after ops).story id = s.story id ++ told id (Desk.completions (d.run updates)) := by
  induction ops generalizing d s with
  | nil => exact ⟨h, (List.append_nil _).symm⟩
  | cons o rest ih =>
    obtain ⟨ho, hrest⟩ := List.forall_mem_cons.mp hspares
    obtain ⟨hb, hstory⟩ := h.perform ho fun b hb =>
      hborn b (List.mem_append_left _ (Option.mem_toList.mpr hb))
    obtain ⟨hb, hlater⟩ := ih hb hrest fun b hb => hborn b (List.mem_append_right _ hb)
    dsimp only
    rw [List.flatMap_cons, Desk.after_append, Desk.run_append]
    refine ⟨hb, ?_⟩
    rw [Scheduler.after, hlater, hstory, List.append_assoc, Desk.completions, Desk.completions,
      told, told, ← List.map_append, ← List.flatMap_append]
    rfl

/-- Updates do nothing where there is no session. -/
theorem after_updates_of_idle {d : Desk Stage} (hd : d.interpreter.session = none)
    (ops : List Operation) : d.after (ops.flatMap Operation.updates) = d := by
  induction ops with
  | nil => rfl
  | cons o rest ih =>
    rw [List.flatMap_cons, Desk.after_append]
    cases o with
    | tick =>
      have hreply : (d.enter .update).reply = _ :=
        congrArg (Reply.map _) (Interpreter.update_of_inactive hd d.services)
      rw [Operation.updates, Desk.after, Desk.after, Desk.Entry.desk, hreply]
      exact ih
    | _ => exact ih

/-- A desk with a session of its own, as a scheduler would open it. -/
def alone {η : Type} (config : RuntimeConfig) (owner : Owner) (services : Services η) : Desk η :=
  ⟨{ config := config.interpreter, owner }, services⟩

/-- With a factory that is alike, the same program is started at a desk of its own. -/
theorem alone_start {η : Type} [Host η] {s : Scheduler η} {services : Services η}
    (hf : services.factory.Alike s.services.factory) {ds : List Descriptor} {p : Program}
    (hp : (s.made ds).result = .ok p) (owner : Owner) :
    ((alone s.config owner services).enter (.start ds)).desk =
      ⟨s.opened owner p,
        services.took (services.factory.build ds s.config.interpreter.mode)⟩ := by
  have hbuilt := (hf.build ds s.config.interpreter.mode).result.trans hp
  rw [Desk.enter, Desk.Entry.desk, Desk.reply, alone, Interpreter.start]
  dsimp only
  rw [hbuilt]
  rfl

/-- A session is spawned beside a desk that waits for it, and its program is started there. -/
theorem Beside.spawned {config : RuntimeConfig} {s : Scheduler Stage} (ho : s.Orderly config)
    {services : Services Stage} (hf : services.factory.Alike s.services.factory) {owner : Owner}
    {ds : List Descriptor} {b : Birth} (hb : s.birth? (.spawn owner ds) = some b)
    (h : Beside b.id b.mentions.footprint (alone config owner services) s.sessions
      s.services.world) :
    let d := ((alone config owner services).enter (.start ds)).desk
    let t := s.perform (.spawn owner ds)
    Beside b.id b.mentions.footprint d t.sessions t.services.world ∧
      t.story b.id = [.started b.id owner] := by
  rcases s.spawn_births owner ds with ⟨hnone, -⟩ | ⟨p, hp, hsome, hs⟩
  · rw [hnone] at hb
    cases hb
  obtain rfl := Option.some.inj (hsome.symm.trans hb)
  obtain rfl := ho.config_eq
  intro d t
  have hd : d = _ := alone_start hf hp owner
  have ht : t = _ := hs
  rw [hd, ht]
  refine ⟨⟨?_, List.Subset.refl _, ?_, ?_⟩, ?_⟩
  · change List.filter _ (s.sessions ++ [(⟨s.nextId⟩, s.opened owner p)]) = _
    rw [List.filter_append, h.seat, List.filter_cons_of_pos (by simp)]
    rfl
  · exact ⟨h.world.left.reportAll _, h.world.right.reportAll _, h.world.game⟩
  · intro e he hne
    rcases List.mem_append.mp he with he | he
    · exact h.spared e he hne
    · rw [List.mem_singleton.mp he] at hne
      exact absurd rfl hne
  · rw [story_publish, story_withNew, ho.unborn _ (Nat.le_refl _), SessionEvent.session,
      if_pos rfl]
    rfl

/-- The session is active just where its desk has one, with the same interpreter. -/
theorem Beside.session?_eq {d : Desk Stage} {s : Scheduler Stage} {w : World Stage}
    (h : Beside id cells d s.sessions w) :
    s.session? id = if d.interpreter.isRunning then some d.interpreter else none := by
  rw [session?, ← List.head?_filter, h.seat, Scheduler.seat]
  split <;> rfl

/-- Whatever is done beside it, a session goes the way that its program goes alone. Others are
spawned before and after it, stopped, paused and continued, and none that is ever spawned writes
what it mentions. Then it is, after any calls, as it would be at a desk of its own with a fresh pool
and the game as it was at the beginning, after an update for each tick since its start: it has the
same interpreter, or has ended there as well, its story is the start and the completions announced
at the desk, and it finds the same at every place that it mentions. -/
theorem sessions_isolated (config : RuntimeConfig) (registry : Registry) {g : GameState}
    (hg : g.foretold = none) {before later : List Operation} {owner : Owner}
    {ds : List Descriptor} {b : Birth} :
    let services : Services Stage := ⟨⟨registry, .new config.interpreter.poolCapacity⟩, ⟨g, {}⟩⟩
    let s := withServices config services
    let ops := before ++ .spawn owner ds :: later
    (s.after before).birth? (.spawn owner ds) = some b →
    (∀ o ∈ before ++ later, o.spares b.id = true) →
    (∀ other ∈ s.births ops, other.id ≠ b.id →
      ∀ cell ∈ other.mentions.writes, cell ∉ b.mentions.footprint) →
    let t := s.after ops
    let calls := .start ds :: later.flatMap Operation.updates
    let left := (alone config owner services).after calls
    t.session? b.id = (if left.interpreter.isRunning then some left.interpreter else none) ∧
      t.story b.id = .started b.id owner ::
        told b.id (Desk.completions ((alone config owner services).run calls)) ∧
      ∀ cell ∈ b.mentions.footprint,
        t.services.world.game.read cell = left.services.world.game.read cell := by
  intro services s ops hb hspares hothers t calls left
  have hplain : services.world.Plain := ⟨hg⟩
  obtain ⟨ts, hreach⟩ := reaches_after (.refl : s.Reaches (fun _ _ => False) [] s) before
  have horderly := (Orderly.kept config _).of_reaches (.withServices config services) hreach
  have hfactory := (factory_kept services.factory).of_reaches
    (show services.factory.Alike services.factory from ⟨rfl, .new _, .new _⟩) hreach
  -- The sessions before it and after it are others.
  obtain ⟨hearlier, hlater⟩ := births_apart hb
  rw [births_append] at hothers
  -- Up to its start, nothing happens at the desk.
  have hfresh : Beside b.id b.mentions.footprint (alone config owner services) s.sessions
      s.services.world := .of_idle rfl (by rintro e ⟨⟩) ⟨hplain, hplain, fun _ _ => rfl⟩
  obtain ⟨hbefore, -⟩ := hfresh.after (fun o ho => hspares o (List.mem_append_left _ ho))
    fun other ho => ⟨hearlier other ho, hothers other (List.mem_append_left _ ho)
      (hearlier other ho)⟩
  rw [after_updates_of_idle rfl] at hbefore
  obtain ⟨hstarted, hstory⟩ := Beside.spawned horderly hfactory hb hbefore
  obtain ⟨hleft, htold⟩ := hstarted.after (fun o ho => hspares o (List.mem_append_right _ ho))
    fun other ho => ⟨hlater other ho, hothers other
      (List.mem_append_right _ (List.mem_append_right _ ho)) (hlater other ho)⟩
  have ht : t = ((s.after before).perform (.spawn owner ds)).after later :=
    s.after_append before (.spawn owner ds :: later)
  have hsilent := Desk.announced_start (alone config owner services) ds
  rw [ht]
  refine ⟨hleft.session?_eq, ?_, fun cell hc => (hleft.world.game cell hc).symm⟩
  rw [htold, hstory, Desk.run, Desk.completions, Desk.completions, List.flatMap_cons, hsilent]
  rfl

/-- An event switches its self switch on while another event switches its own of the same name,
is paused and is stopped: the first one completes as it does alone. -/
theorem sessions_isolated_switches :
    let describe := fun actions => actions.map fun a => Factory.describe (.ofAction a)
    let ds := describe [.wait 1, .conditionalBranch (.single (.selfSwitch "A" false)),
      .controlSelfSwitch ⟨"A", true⟩, .endIf]
    let others := describe [.controlSelfSwitch ⟨"A", true⟩, .wait 9]
    let s : Scheduler Stage := withServices {} ⟨⟨.builtin, .new 16⟩, ⟨{}, {}⟩⟩
    let before : List Operation := [.spawn ⟨1⟩ others, .tick]
    let later : List Operation := [.tick, .pause ⟨1⟩, .tick, .stop ⟨1⟩, .spawn ⟨1⟩ others,
      .tick, .tick, .tick, .tick]
    let t := s.after (before ++ .spawn ⟨2⟩ ds :: later)
    t.story ⟨2⟩ = [.started ⟨2⟩ ⟨2⟩, .completed ⟨⟨2⟩, ⟨2⟩, .endOfProgram, 6, 4⟩] ∧
      (t.session? ⟨2⟩).isSome = false := by
  intro describe ds others s before later t
  have hspawned : ((s.after before).birth? (.spawn ⟨2⟩ ds)).isSome = true := by decide +kernel
  obtain ⟨b, hb⟩ := Option.isSome_iff_exists.mp hspawned
  have hid : b.id = ⟨2⟩ := (birth_id hb).1
  have hothers : ∀ b ∈ (s.after before).birth? (.spawn ⟨2⟩ ds),
      ∀ other ∈ s.births (before ++ .spawn ⟨2⟩ ds :: later), other.id ≠ b.id →
        ∀ cell ∈ other.mentions.writes, cell ∉ b.mentions.footprint := by
    decide +kernel
  obtain ⟨hsession, hstory, -⟩ := sessions_isolated {} .builtin (g := {}) rfl hb
    (by rw [hid]; decide) (hothers b hb)
  rw [hid] at hsession hstory
  refine ⟨hstory.trans (by decide +kernel), ?_⟩
  have hleft : t.session? ⟨2⟩ = _ := hsession
  rw [hleft]
  decide +kernel

/-- Where what answers are stored in does not count as written, a prompt that is cancelled at once
leads another session astray: it mentions no target at all, yet a branch that is taken alone is
not taken beside it. -/
theorem answer_leads_astray :
    let prompt := Factory.describe
      (.ofAction (.showChoices { choices := ["Yes"], resultVariable := "x" }))
    let ds := [Action.conditionalBranch (.single (.variable "x" .equal 0)), .wait 5, .endIf].map
      fun a => Factory.describe (.ofAction a)
    let services : Services Stage := ⟨⟨.builtin, .new 16⟩, ⟨{}, {}⟩⟩
    let s := withServices {} services
    let ops := [.spawn ⟨1⟩ [prompt]] ++ .spawn ⟨2⟩ ds :: [.tick]
    (s.births ops).map Birth.id = [⟨1⟩, ⟨2⟩] ∧
      (∀ b ∈ s.births ops, ∀ other ∈ s.births ops, b.id = ⟨2⟩ → other.id ≠ b.id →
        ∀ cell ∈ other.mentions.targets, cell ∉ b.mentions.footprint) ∧
      ((s.after ops).session? ⟨2⟩).bind Interpreter.cursor? = some 3 ∧
      ((alone {} ⟨2⟩ services).after [.start ds, .update]).interpreter.cursor? = some 1 := by
  decide +kernel

end Scheduler

end EventScript
