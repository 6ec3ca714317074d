import EventScript.Host.Recording

/-!
# Accounts of a recording host

Sessions hold handles: a waiting message one that may be open, a waiting prompt one that is
pending. `Recording.Accounts` compares what the host has on its books with everything that is
held. No handle is held twice, none comes back after it was closed or withdrawn, and each
request moves one handle: it comes into being as held, and is given up or recorded as ended.
-/

namespace EventScript

/-- What is read off a list with one item more. -/
theorem filterMap_concat {α β : Type} (f : α → Option β) (l : List α) (a : α) :
    (l ++ [a]).filterMap f = l.filterMap f ++ (f a).toList := by
  rw [List.filterMap_append]
  cases h : f a <;> simp [h]

/-- What a session holds of a host. -/
inductive Holding where
  | message (handle : Handle)
  | prompt (handle : Handle)

/-- The handle that is held. -/
def Holding.handle : Holding → Handle
  | message handle | prompt handle => handle

/-- The handle that a session has closed or withdrawn. -/
def HostEvent.ended? : HostEvent → Option Handle
  | messageClosed handle | choicesCancelled handle => some handle
  | _ => none

namespace Recording

/-- What the player does. -/
inductive Played (r : Recording) : Recording → Prop
  | dismiss (handle : Handle) : Played r (r.dismiss handle)
  | dismissAll : Played r r.dismissAll
  | queueChoice (answer : ChoiceAnswer) : Played r (r.queueChoice answer)

/-- The handles that sessions have closed or withdrawn, in order. -/
def ended (r : Recording) : List Handle := r.events.filterMap HostEvent.ended?

/-- One request more ends what it ends besides. -/
theorem ended_record (r : Recording) (e : HostEvent) :
    (r.record e).ended = r.ended ++ e.ended?.toList := filterMap_concat ..

/-- A pending prompt takes the next answer. Without both of them nothing happens. -/
theorem choiceAnswer_cases (r : Recording) (handle : Handle) :
    (∃ answer rest, handle ∈ r.pendingChoices ∧ r.answers = answer :: rest ∧
      r.choiceAnswer handle = (some answer,
        { r with answers := rest
                 pendingChoices := r.pendingChoices.filter fun h => h ≠ handle })) ∨
    ((handle ∉ r.pendingChoices ∨ r.answers = []) ∧ r.choiceAnswer handle = (none, r)) := by
  rw [choiceAnswer]
  split
  · next hpending =>
    split
    · next hnone => exact .inr ⟨.inr hnone, rfl⟩
    · next answer rest hanswers =>
      exact .inl ⟨answer, rest, List.contains_iff_mem.mp hpending, hanswers, rfl⟩
  · next hpending => exact .inr ⟨.inl fun hm => hpending (List.contains_iff_mem.mpr hm), rfl⟩

/-- The books of the host agree with what is held. Open messages that nobody holds are
`passing`. -/
structure Accounts (r : Recording) (held : List Holding) (passing : Handle → Prop) : Prop where
  prompts : ∀ handle, handle ∈ r.pendingChoices ↔ .prompt handle ∈ held
  messages : ∀ handle ∈ r.openMessages, .message handle ∈ held ∨ passing handle
  distinct : (held.map Holding.handle ++ r.ended).Nodup
  issued : ∀ handle ∈ held.map Holding.handle ++ r.ended, handle ≤ r.lastHandle

namespace Accounts

variable {r : Recording} {held : List Holding} {passing : Handle → Prop}

/-- A new host holds nothing. -/
theorem new (autoClose : Bool) : Accounts { autoClose } [] passing where
  prompts _ := by simp
  messages _ h := by cases h
  distinct := List.nodup_nil
  issued _ h := by cases h

/-- The order of the holdings is of no account. -/
theorem perm (h : r.Accounts held passing) {held' : List Holding} (hp : held.Perm held') :
    r.Accounts held' passing := by
  have hhandles := (hp.map Holding.handle).append_right r.ended
  refine ⟨?_, ?_, hhandles.nodup_iff.mp h.distinct, ?_⟩
  · exact fun handle => (h.prompts handle).trans hp.mem_iff
  · exact fun handle ho => (h.messages handle ho).imp_left hp.mem_iff.mp
  · exact fun handle hi => h.issued handle (hhandles.mem_iff.mpr hi)

/-- More may be passing. -/
theorem mono (h : r.Accounts held passing) {passing' : Handle → Prop}
    (hp : ∀ handle, passing handle → passing' handle) : r.Accounts held passing' where
  prompts := h.prompts
  messages handle ho := (h.messages handle ho).imp_right (hp handle)
  distinct := h.distinct
  issued := h.issued

/-- A request that ends nothing leaves the books alone. -/
theorem record (h : r.Accounts held passing) {e : HostEvent} (he : e.ended? = none) :
    (r.record e).Accounts held passing := by
  have hended : (r.record e).ended = r.ended := by rw [ended_record, he]; simp
  refine ⟨h.prompts, h.messages, ?_, ?_⟩
  · rw [hended]
    exact h.distinct
  · rw [hended]
    exact h.issued

/-- Whatever the player does, prompts stay as they are and no message opens. -/
theorem played (h : r.Accounts held passing) {r' : Recording} (hp : r.Played r') :
    r'.Accounts held passing := by
  cases hp with
  | dismiss handle =>
    refine ⟨h.prompts, ?_, h.distinct, h.issued⟩
    exact fun handle ho => h.messages handle (List.mem_filter.mp ho).1
  | dismissAll =>
    refine ⟨h.prompts, ?_, h.distinct, h.issued⟩
    intro handle ho
    cases ho
  | queueChoice answer => exact ⟨h.prompts, h.messages, h.distinct, h.issued⟩

/-! ### Handles that come into being -/

/-- The next handle is new. -/
theorem unused (h : r.Accounts held passing) :
    r.lastHandle + 1 ∉ held.map Holding.handle ++ r.ended := by
  exact fun hused => Nat.not_succ_le_self _ (h.issued _ hused)

private theorem issued_cons (h : r.Accounts held passing) :
    ∀ handle ∈ (r.lastHandle + 1) :: (held.map Holding.handle ++ r.ended),
      handle ≤ r.lastHandle + 1 := by
  intro handle hi
  rcases List.mem_cons.mp hi with rfl | hi
  · exact Nat.le_refl _
  · exact Nat.le_succ_of_le (h.issued handle hi)

/-- A new message is held. -/
theorem showMessage (h : r.Accounts held passing) (request : MessageRequest) :
    (r.showMessage request).2.Accounts (.message (r.lastHandle + 1) :: held) passing := by
  apply record _ rfl
  refine ⟨?_, ?_, List.nodup_cons.mpr ⟨h.unused, h.distinct⟩, h.issued_cons⟩
  · intro handle
    simpa using h.prompts handle
  · intro handle ho
    -- A host that closes messages at once opens none, but the handle is issued all the same.
    have ho : handle = r.lastHandle + 1 ∨ handle ∈ r.openMessages := by
      cases hauto : r.autoClose <;> simp only [hauto] at ho
      · exact List.mem_cons.mp ho
      · exact .inr ho
    rcases ho with rfl | ho
    · exact .inl List.mem_cons_self
    · exact (h.messages handle ho).imp_left (List.mem_cons_of_mem _)

/-- A new prompt is held. -/
theorem showChoices (h : r.Accounts held passing) (request : ChoiceRequest) :
    (r.showChoices request).2.Accounts (.prompt (r.lastHandle + 1) :: held) passing := by
  apply record _ rfl
  refine ⟨?_, ?_, List.nodup_cons.mpr ⟨h.unused, h.distinct⟩, h.issued_cons⟩
  · intro handle
    simpa using or_congr_right (h.prompts handle)
  · exact fun handle ho => (h.messages handle ho).imp_left (List.mem_cons_of_mem _)

/-! ### Handles that are given up -/

/-- A message that is closed, or that nobody waits for, need not be held. -/
theorem forget {handle : Handle} (h : r.Accounts (.message handle :: held) passing)
    (hopen : handle ∈ r.openMessages → passing handle) : r.Accounts held passing := by
  refine ⟨?_, ?_, (List.nodup_cons.mp h.distinct).2, ?_⟩
  · intro other
    simpa using h.prompts other
  · intro other ho
    rcases h.messages other ho with hheld | hpassing
    · rcases List.mem_cons.mp hheld with heq | hheld
      · obtain rfl := Holding.message.inj heq
        exact .inr (hopen ho)
      · exact .inl hheld
    · exact .inr hpassing
  · exact fun other hi => h.issued other (List.mem_cons_of_mem _ hi)

/-- A prompt that is no longer pending is no longer held. -/
theorem settle {handle : Handle} (h : r.Accounts (.prompt handle :: held) passing)
    (answers : List ChoiceAnswer) :
    Accounts { r with answers
                      pendingChoices := r.pendingChoices.filter fun h => h ≠ handle }
      held passing := by
  have hnew : handle ∉ held.map Holding.handle := fun hin =>
    (List.nodup_cons.mp h.distinct).1 (List.mem_append_left _ hin)
  refine ⟨?_, ?_, (List.nodup_cons.mp h.distinct).2, ?_⟩
  · intro other
    rw [List.mem_filter, h.prompts, List.mem_cons, decide_eq_true_eq]
    constructor
    · rintro ⟨heq | hheld, hne⟩
      · exact absurd (Holding.prompt.inj heq) hne
      · exact hheld
    · intro hheld
      refine ⟨.inr hheld, ?_⟩
      rintro rfl
      exact hnew (List.mem_map_of_mem hheld)
  · exact fun other ho => (h.messages other ho).imp_left fun hheld => by simpa using hheld
  · exact fun other hi => h.issued other (List.mem_cons_of_mem _ hi)

/-- An answered prompt is no longer held; one without an answer still is. -/
theorem choiceAnswer {handle : Handle} (h : r.Accounts (.prompt handle :: held) passing) :
    ((r.choiceAnswer handle).1 = none →
      (r.choiceAnswer handle).2.Accounts (.prompt handle :: held) passing) ∧
    ((r.choiceAnswer handle).1 ≠ none → (r.choiceAnswer handle).2.Accounts held passing) := by
  rcases r.choiceAnswer_cases handle with ⟨answer, rest, -, -, hcall⟩ | ⟨-, hcall⟩ <;> rw [hcall]
  · exact ⟨nofun, fun _ => h.settle rest⟩
  · exact ⟨fun _ => h, fun hnone => absurd rfl hnone⟩

private theorem record_ended {x : Holding} {r' : Recording} {e : HostEvent}
    (h : r.Accounts (x :: held) passing) (h' : r'.Accounts held passing)
    (hevents : r'.events = r.events) (hlast : r'.lastHandle = r.lastHandle)
    (he : e.ended? = some x.handle) : (r'.record e).Accounts held passing := by
  have hended : (r'.record e).ended = r.ended ++ [x.handle] := by
    rw [ended_record, he, ended, hevents]
    rfl
  have hperm : (x.handle :: (held.map Holding.handle ++ r.ended)).Perm
      (held.map Holding.handle ++ (r.ended ++ [x.handle])) := by
    rw [← List.append_assoc]
    exact (List.perm_append_singleton _ _).symm
  refine ⟨h'.prompts, h'.messages, ?_, ?_⟩
  · rw [hended]
    exact hperm.nodup_iff.mp h.distinct
  · rw [hended]
    intro handle hi
    have hle := h.issued handle (hperm.mem_iff.mpr hi)
    rwa [← hlast] at hle

/-- A session closes the message that it holds. -/
theorem closeMessage {handle : Handle} (h : r.Accounts (.message handle :: held) passing) :
    (r.closeMessage handle).Accounts held passing := by
  have hclosed : handle ∉ (r.dismiss handle).openMessages := by simp [dismiss]
  have hforgotten := (h.played (.dismiss handle)).forget fun ho => absurd ho hclosed
  exact record_ended h hforgotten rfl rfl rfl

/-- A session withdraws the prompt that it holds. -/
theorem cancelChoices {handle : Handle} (h : r.Accounts (.prompt handle :: held) passing) :
    (r.cancelChoices handle).Accounts held passing :=
  record_ended h (h.settle r.answers) rfl rfl rfl

end Accounts

end Recording

end EventScript
