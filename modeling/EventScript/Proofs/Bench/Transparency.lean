import EventScript.Host.Stage
import EventScript.Proofs.Bench.Basic
import EventScript.Proofs.Scheduler.Alike
import Mathlib.Data.List.Forall2

/-!
# What a pool cannot change

Two benches are alike when they differ in their pools alone and both pools are clean. An
operation gives one answer on both and leaves them alike, so no sequence of operations can tell
by its answers, or by what is left after it, what was in a pool, how much it may keep, or what
was done with it before.

A start makes the same of an interpreter that has run before as of a fresh one, so the same
holds of benches that differ in such an interpreter as well, from its next start on.
-/

namespace EventScript

/-- Services that are alike differ in nothing but their pools. -/
theorem Services.Alike.drained_eq {η : Type} {s s' : Services η} (h : s.Alike s') :
    s.drained = s'.drained := by
  obtain ⟨hf⟩ := h
  unfold drained
  dsimp only
  rw [hf.registry]

/-- Schedulers that are alike are equal over the same services. -/
theorem Scheduler.Alike.map_eq {η : Type} {l l' : List (Scheduler η)}
    (h : List.Forall₂ Scheduler.Alike l l') (services : Services η) :
    l.map (fun s => { s with services }) = l'.map fun s => { s with services } := by
  induction h with
  | nil => rfl
  | cons hfirst _ ih =>
    obtain ⟨-⟩ := hfirst
    exact congrArg (List.cons _) ih

namespace Interpreter

variable {η : Type} {i : Interpreter}

/-- An idle interpreter accepts a program like a fresh one. -/
theorem startProgram_renewed (hi : i.session = none) (p : Program) (notify : Bool)
    (s : Services η) : i.renewed.startProgram p notify s = i.startProgram p notify s := by
  unfold startProgram
  rw [hi]
  rfl

/-- It also starts like a fresh one, where the start is accepted. -/
theorem start_renewed [Host η] (hi : i.session = none) {ds : List Descriptor} {s : Services η}
    (hok : (i.start ds s).result = .ok ()) : i.renewed.start ds s = i.start ds s := by
  unfold start renewed at *
  rw [hi] at hok ⊢
  dsimp only at hok ⊢
  cases hmade : (s.factory.build ds i.config.mode).result with
  | ok p => rfl
  | error e =>
    rw [hmade] at hok
    cases hok

end Interpreter

namespace Bench

variable {η : Type}

/-- Benches that differ in their pools, and both of these are clean. -/
structure Alike (b c : Bench η) : Prop where
  services : b.services.Alike c.services
  interpreters : b.interpreters = c.interpreters
  schedulers : List.Forall₂ Scheduler.Alike b.schedulers c.schedulers

namespace Alike

variable {b c : Bench η}

/-- Benches that are alike show the same. -/
theorem shown_eq (h : b.Alike c) : b.shown = c.shown := by
  unfold shown
  rw [h.services.drained_eq, h.interpreters, Scheduler.Alike.map_eq h.schedulers]

/-- Interpreters that are asked the same answer the same. -/
theorem ask (h : b.Alike c) {α : Type} (n : Nat)
    {request : Interpreter → Services η → Reply α η}
    (hr : ∀ i, (request i b.services).Alike (request i c.services))
    (answer : α → Option Completion → Answer) :
    (b.ask n request answer).1 = (c.ask n request answer).1 ∧
      (b.ask n request answer).2.Alike (c.ask n request answer).2 := by
  unfold Bench.ask
  rw [h.interpreters]
  cases c.interpreters[n]? with
  | none => exact ⟨rfl, h⟩
  | some i =>
    obtain ⟨hresult, hannounced, hinterpreter, hservices⟩ := hr i
    dsimp only
    rw [hresult, hannounced, hinterpreter]
    exact ⟨rfl, hservices, rfl, h.schedulers⟩

/-- So do schedulers. -/
theorem askScheduler (h : b.Alike c) (n : Nat) {request : Scheduler η → Answer × Scheduler η}
    (hr : ∀ {s t : Scheduler η}, s.Alike t →
      (request s).1 = (request t).1 ∧ (request s).2.Alike (request t).2) :
    (b.askScheduler n request).1 = (c.askScheduler n request).1 ∧
      (b.askScheduler n request).2.Alike (c.askScheduler n request).2 := by
  unfold Bench.askScheduler
  have hlength := h.schedulers.length_eq
  by_cases hn : n < b.schedulers.length
  · have hn' : n < c.schedulers.length := hlength ▸ hn
    have hstored := h.schedulers.get hn hn'
    obtain ⟨hanswer, hleft⟩ := hr (hstored.with_services h.services)
    rw [List.getElem?_eq_getElem hn, List.getElem?_eq_getElem hn']
    refine ⟨hanswer, hleft.services, h.interpreters, ?_⟩
    dsimp only
    rw [List.set_eq_take_append_cons_drop, if_pos hn, List.set_eq_take_append_cons_drop,
      if_pos hn']
    exact List.rel_append (List.forall₂_take n h.schedulers)
      (.cons hleft (List.forall₂_drop (n + 1) h.schedulers))
  · rw [List.getElem?_eq_none (by omega), List.getElem?_eq_none (by omega)]
    exact ⟨rfl, h⟩

/-- The same interpreter may be replaced by a fresh one on both sides. -/
theorem renew (h : b.Alike c) (n : Nat) : (b.renew n).Alike (c.renew n) := by
  unfold Bench.renew
  rw [h.interpreters]
  cases c.interpreters[n]? with
  | none => exact h
  | some i => exact ⟨h.services, rfl, h.schedulers⟩

variable [Host η]

/-- A call of a scheduler gets one answer from both and leaves them alike. -/
theorem answerCall {s t : Scheduler η} (h : s.Alike t) (o : Scheduler.Operation) :
    (answerCall o s).1 = (answerCall o t).1 ∧ (answerCall o s).2.Alike (answerCall o t).2 := by
  cases o with
  | spawn owner ds => exact ⟨congrArg Answer.spawned (h.spawn owner ds).1, (h.spawn owner ds).2⟩
  | stop id => exact ⟨congrArg Answer.called (h.stop id).1, (h.stop id).2⟩
  | stopAll => exact ⟨rfl, h.stopAll⟩
  | pause id =>
    have hpaused := h.modify id fun i => i.setPaused true
    exact ⟨congrArg Answer.called hpaused.1, hpaused.2⟩
  | resume id =>
    have hresumed := h.modify id fun i => i.setPaused false
    exact ⟨congrArg Answer.called hresumed.1, hresumed.2⟩
  | tick => exact ⟨congrArg Answer.ticked h.tick.1, h.tick.2⟩
  | runUntilIdle n => exact ⟨congrArg Answer.ran (h.runFor n n).1, (h.runFor n n).2⟩

/-- What both factories have made is taken over on both sides. -/
theorem took (h : b.Alike c) {α : Type} {m m' : Made α} (hm : m.Alike m') :
    (b.took m).Alike (c.took m') :=
  ⟨h.services.took hm, h.interpreters, h.schedulers⟩

/-- An operation gives one answer and leaves the benches alike. -/
theorem perform (h : b.Alike c) (o : Operation η) :
    (b.perform o).1 = (c.perform o).1 ∧ (b.perform o).2.Alike (c.perform o).2 := by
  have hf := h.services.factory
  cases o with
  | create d =>
    have hm := hf.create d
    exact ⟨congrArg Answer.created hm.result, h.took hm⟩
  | createOrDefault d =>
    have hm := hf.createOrDefault d
    exact ⟨congrArg Answer.createdOrDefault hm.result, h.took hm⟩
  | build ds mode =>
    have hm := hf.build ds mode
    exact ⟨congrArg Answer.built hm.result, h.took hm⟩
  | acquire k =>
    refine ⟨?_, h.services.with_factory (hf.acquire k), h.interpreters, h.schedulers⟩
    exact congrArg Answer.acquired ((hf.left.acquire_fst k).trans (hf.right.acquire_fst k).symm)
  | release cs =>
    exact ⟨rfl, h.services.with_factory (hf.release cs), h.interpreters, h.schedulers⟩
  | interpreter config owner =>
    refine ⟨rfl, h.services, ?_, h.schedulers⟩
    exact congrArg (· ++ [_]) h.interpreters
  | start n ds => exact h.ask n (fun i => Interpreter.start_alike h.services i ds) _
  | startProgram n p notify =>
    exact h.ask n (fun i => Interpreter.startProgram_alike h.services i p notify) _
  | update n => exact h.ask n (Interpreter.update_alike h.services) _
  | stop n => exact h.ask n (Interpreter.stop_alike h.services) _
  | setPaused n paused => exact h.ask n (fun _ => ⟨rfl, rfl, rfl, h.services⟩) _
  | scheduler config =>
    refine ⟨rfl, h.services, h.interpreters, ?_⟩
    exact List.rel_append h.schedulers (.cons (.intro h.services) .nil)
  | call n o => exact h.askScheduler n fun hs => answerCall hs o
  | outside f =>
    exact ⟨rfl, h.services.with_world f, h.interpreters, h.schedulers⟩

/-- So does every sequence of operations. -/
theorem answers_eq (h : b.Alike c) (ops : List (Operation η)) : b.answers ops = c.answers ops := by
  induction ops generalizing b c with
  | nil => rfl
  | cons o rest ih =>
    obtain ⟨hanswer, hnext⟩ := h.perform o
    rw [answers, answers, hanswer, ih hnext]

/-- Operations in order leave the benches alike. -/
theorem after (h : b.Alike c) (ops : List (Operation η)) : (b.after ops).Alike (c.after ops) := by
  induction ops generalizing b c with
  | nil => exact h
  | cons o rest ih => exact ih (h.perform o).2

end Alike

/-- An interpreter that replies like a fresh one may be replaced by it. -/
theorem ask_renew {α : Type} {b : Bench η} {n : Nat} {i : Interpreter}
    (hi : b.interpreters[n]? = some i) (request : Interpreter → Services η → Reply α η)
    (hr : request i.renewed b.services = request i b.services)
    (answer : α → Option Completion → Answer) :
    (b.renew n).ask n request answer = b.ask n request answer := by
  have hn : n < b.interpreters.length := (List.getElem?_eq_some_iff.mp hi).1
  have hrenewed : b.renew n = { b with interpreters := b.interpreters.set n i.renewed } := by
    rw [renew, hi]
  rw [hrenewed, ask, ask, hi, List.getElem?_set_self hn]
  dsimp only
  rw [hr, List.set_set]

variable [Host η]

/-- An accepted start makes the same of an idle interpreter as of a fresh one. -/
theorem perform_renew {b : Bench η} {n : Nat} {i : Interpreter} {o : Operation η}
    (hi : b.interpreters[n]? = some i) (hidle : i.session = none) (ho : o.Starts n)
    (hok : (b.perform o).1 = .started (.ok ())) : (b.renew n).perform o = b.perform o := by
  cases o with
  | start m ds =>
    obtain rfl : m = n := ho
    change (b.ask _ _ _).1 = _ at hok
    rw [ask, hi] at hok
    exact ask_renew hi (fun i => i.start ds)
      (Interpreter.start_renewed hidle (Answer.started.inj hok)) fun r _ => .started r
  | startProgram m p notify =>
    obtain rfl : m = n := ho
    exact ask_renew hi (fun i => i.startProgram p notify)
      (Interpreter.startProgram_renewed hidle p notify b.services) fun r _ => .started r
  | _ => exact ho.elim

/-- A bench where nothing is built yet. -/
def bare (registry : Registry) (pool : Pool) (world : World η) : Bench η :=
  { services := ⟨⟨registry, pool⟩, world⟩ }

/-- Whatever was done with the pools of two factories before and whatever they may keep, the
same operations are answered in the same way over either and leave the same but for the pools.
A restarted interpreter, moreover, is as good as a fresh one over the other pool. -/
theorem pool_transparent (registry : Registry) (world : World η)
    (capacity capacity' : Nat) (uses uses' : List Pool.Use) (ops : List (Operation η)) :
    let b := bare registry ((Pool.new capacity).after uses) world
    let c := bare registry ((Pool.new capacity').after uses') world
    b.answers ops = c.answers ops ∧ (b.after ops).shown = (c.after ops).shown ∧
      ∀ n i o, (b.after ops).interpreters[n]? = some i → i.session = none → o.Starts n →
        ((b.after ops).perform o).1 = .started (.ok ()) → ∀ later,
        (b.after ops).answers (o :: later) = ((c.after ops).renew n).answers (o :: later) ∧
        ((b.after ops).after (o :: later)).shown =
          (((c.after ops).renew n).after (o :: later)).shown := by
  intro b c
  have halike : b.Alike c :=
    ⟨.intro ⟨rfl, (Pool.Clean.new capacity).after uses, (Pool.Clean.new capacity').after uses'⟩,
      rfl, .nil⟩
  have hafter := halike.after ops
  refine ⟨halike.answers_eq ops, hafter.shown_eq, ?_⟩
  intro n i o hi hidle ho hok later
  have hrenewed := hafter.renew n
  have hperform := perform_renew hi hidle ho hok
  have hanswers := hrenewed.answers_eq (o :: later)
  have hshown := (hrenewed.after (o :: later)).shown_eq
  -- A restart and a fresh start lead to one bench.
  rw [answers, hperform] at hanswers
  rw [after, hperform] at hshown
  exact ⟨hanswers, hshown⟩

/-- Such a restart of a program with a comment. One pool keeps nothing; the other has got back a
disabled and aborted comment with another text, from which both starts are served. -/
theorem pool_transparent_restart :
    let world : World Stage := ⟨{}, {}⟩
    let comment := fun text => Command.ofAction (.comment text)
    let old := { comment "old" with enabled := false, phase := .aborted }
    let b := bare .builtin ((Pool.new 0).after []) world
    let c := bare .builtin ((Pool.new 1).after [.release old]) world
    let note := [Factory.describe (comment "note")]
    let ops : List (Operation Stage) :=
      [.interpreter {} .global, .start 0 note, .update 0, .update 0]
    ((b.after ops).perform (.start 0 note)).2.services.factory.pool.reused = 0 ∧
      (((c.after ops).renew 0).perform (.start 0 note)).2.services.factory.pool.reused = 2 ∧
      ∀ later, (b.after ops).answers (.start 0 note :: later) =
        ((c.after ops).renew 0).answers (.start 0 note :: later) := by
  intro world comment old b c note ops
  obtain ⟨-, -, hrestart⟩ := pool_transparent .builtin world 0 1 [] [.release old] ops
  have hended : (b.after ops).interpreters[0]?.map (fun i =>
      (i.isRunning, (i.start note (b.after ops).services).result)) = some (false, .ok ()) := by
    decide +kernel
  obtain ⟨i, hi, hat⟩ := Option.map_eq_some_iff.mp hended
  obtain ⟨hidle, hok⟩ := Prod.mk.inj hat
  rw [Interpreter.isRunning, Option.isSome_eq_false_iff, Option.isNone_iff_eq_none] at hidle
  have hstarted : ((b.after ops).perform (.start 0 note)).1 = .started (.ok ()) := by
    change ((b.after ops).ask _ _ _).1 = _
    rw [ask, hi]
    exact congrArg Answer.started hok
  have hnone : ((b.after ops).perform (.start 0 note)).2.services.factory.pool.reused = 0 := by
    decide +kernel
  have hboth :
      (((c.after ops).renew 0).perform (.start 0 note)).2.services.factory.pool.reused = 2 := by
    decide +kernel
  refine ⟨hnone, hboth, fun later => ?_⟩
  exact (hrestart 0 i (.start 0 note) hi hidle rfl hstarted later).1

end Bench

end EventScript
