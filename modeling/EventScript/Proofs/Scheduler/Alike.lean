import EventScript.Proofs.Factory.Alike
import EventScript.Scheduler.Basic

/-!
# Schedulers over services that are alike

Two schedulers are alike when they are equal but for their services and those are alike. Every
call then gives the same result on both and leaves them alike, and so the same is published.
-/

namespace EventScript

/-- Equal schedulers over services that are alike. -/
inductive Scheduler.Alike {η : Type} (s : Scheduler η) : Scheduler η → Prop
  | intro {services : Services η} (h : s.services.Alike services) : Alike s { s with services }

namespace Scheduler.Alike

variable {η : Type} {s t : Scheduler η}

/-- Schedulers that are alike have services that are alike. -/
theorem services (h : s.Alike t) : s.services.Alike t.services := by
  cases h with
  | intro h => exact h

/-- They have the same sessions. -/
theorem session?_eq (h : s.Alike t) (id : SessionId) : t.session? id = s.session? id := by
  cases h
  rfl

/-- They have as many active sessions. -/
theorem active_eq (h : s.Alike t) : t.active = s.active := by
  cases h
  rfl

/-- They are idle together. -/
theorem isIdle_eq (h : s.Alike t) : t.isIdle = s.isIdle := by
  cases h
  rfl

/-- Sessions may be replaced by the same ones on both sides. -/
theorem with_sessions (h : s.Alike t) (l : List (SessionId × Interpreter)) :
    Alike { s with sessions := l } { t with sessions := l } := by
  obtain ⟨h⟩ := h
  exact .intro h

/-- Services may be replaced by such as are alike. -/
theorem with_services (h : s.Alike t) {a b : Services η} (hs : a.Alike b) :
    Alike { s with services := a } { t with services := b } := by
  cases h
  exact .intro hs

/-- They publish the same completion. -/
theorem announce (h : s.Alike t) (id : SessionId) (c : Option Completion) :
    (s.announce id c).Alike (t.announce id c) := by
  obtain ⟨h⟩ := h
  cases c <;> exact .intro h

/-- They modify the same session, or neither has it. -/
theorem modify (h : s.Alike t) (id : SessionId) (f : Interpreter → Interpreter) :
    (s.modify id f).1 = (t.modify id f).1 ∧ (s.modify id f).2.Alike (t.modify id f).2 := by
  unfold Scheduler.modify
  rw [h.session?_eq]
  obtain ⟨h⟩ := h
  cases s.session? id with
  | none => exact ⟨rfl, .intro h⟩
  | some i => exact ⟨rfl, .intro h⟩

variable [Host η]

/-- They start the same session, or refuse it for the same reason. -/
theorem spawn (h : s.Alike t) (owner : Owner) (ds : List Descriptor) :
    (s.spawn owner ds).1 = (t.spawn owner ds).1 ∧
      (s.spawn owner ds).2.Alike (t.spawn owner ds).2 := by
  unfold Scheduler.spawn
  have hfull : t.fullAt = s.fullAt := by cases h; rfl
  rw [hfull]
  obtain ⟨h⟩ := h
  cases s.fullAt with
  | some limit => exact ⟨rfl, .intro h⟩
  | none =>
    have hstart := Interpreter.start_alike h { config := s.config.interpreter, owner } ds
    dsimp only
    rw [hstart.result, hstart.interpreter]
    split
    · exact ⟨rfl, .intro hstart.services⟩
    · exact ⟨rfl, .intro hstart.services⟩

/-- They stop the same session, or neither has it. -/
theorem stop (h : s.Alike t) (id : SessionId) :
    (s.stop id).1 = (t.stop id).1 ∧ (s.stop id).2.Alike (t.stop id).2 := by
  unfold Scheduler.stop
  rw [h.session?_eq]
  obtain ⟨h⟩ := h
  cases s.session? id with
  | none => exact ⟨rfl, .intro h⟩
  | some i => exact ⟨rfl, .intro (Interpreter.stop_alike h i).services⟩

/-- They stop all of their sessions. -/
theorem stopAll (h : s.Alike t) : s.stopAll.Alike t.stopAll := by
  have hsessions : t.sessions = s.sessions := by cases h; rfl
  unfold Scheduler.stopAll
  rw [hsessions]
  clear hsessions
  generalize s.sessions = l
  induction l generalizing s t with
  | nil => exact h
  | cons e rest ih => exact ih (h.stop e.1).2

/-- They advance sessions one after the other to the same effect. -/
theorem advance (h : s.Alike t) (l : List (SessionId × Interpreter)) :
    (s.advance l).1 = (t.advance l).1 ∧ (s.advance l).2.1 = (t.advance l).2.1 ∧
      (s.advance l).2.2.Alike (t.advance l).2.2 := by
  induction l generalizing s t with
  | nil => exact ⟨rfl, rfl, h⟩
  | cons e rest ih =>
    obtain ⟨id, i⟩ := e
    have hreply := Interpreter.update_alike h.services i
    have hturned := (h.with_services hreply.services).announce id (i.update s.services).announced
    rw [hreply.announced] at hturned
    obtain ⟨hdone, hleft, hrest⟩ := ih hturned
    unfold Scheduler.advance
    dsimp only
    rw [hreply.announced, hreply.result, hreply.interpreter, hdone, hleft]
    split
    · exact ⟨rfl, rfl, hrest⟩
    · exact ⟨rfl, rfl, hrest⟩

/-- A tick completes the same sessions on both. -/
theorem tick (h : s.Alike t) : s.tick.1 = t.tick.1 ∧ s.tick.2.Alike t.tick.2 := by
  obtain ⟨h⟩ := h
  have hstart : Alike { s with ticks := s.ticks + 1 } _ := .intro h
  obtain ⟨hdone, hleft, hrest⟩ := hstart.advance s.sessions
  refine ⟨hdone, ?_⟩
  unfold Scheduler.tick
  dsimp only
  rw [hleft]
  exact hrest.with_sessions _

/-- So do ticks until both are idle. -/
theorem runFor (h : s.Alike t) (total budget : Nat) :
    (s.runFor total budget).1 = (t.runFor total budget).1 ∧
      (s.runFor total budget).2.Alike (t.runFor total budget).2 := by
  induction budget generalizing s t with
  | zero =>
    unfold Scheduler.runFor
    rw [h.isIdle_eq, h.active_eq]
    split <;> exact ⟨rfl, h⟩
  | succ budget ih =>
    unfold Scheduler.runFor
    rw [h.isIdle_eq]
    split
    · exact ⟨rfl, h⟩
    · obtain ⟨hdone, hticked⟩ := h.tick
      obtain ⟨hlater, hrest⟩ := ih hticked
      dsimp only
      rw [hdone]
      generalize Scheduler.runFor total s.tick.2 budget = ran at hlater hrest ⊢
      generalize Scheduler.runFor total t.tick.2 budget = ran' at hlater hrest ⊢
      obtain ⟨result, s'⟩ := ran
      obtain ⟨result', t'⟩ := ran'
      dsimp only at hlater hrest
      subst hlater
      cases result <;> exact ⟨rfl, hrest⟩

end Scheduler.Alike

end EventScript
