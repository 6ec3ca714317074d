import EventScript.Proofs.Host.Accounts

/-!
# Calls of a recording host

Sessions and the player call a recording host in any order, and any handle may be named in a call,
whether or not the host has handed it out. `Recording.run` lists the calls, each with the host that
it finds. What is opened, queued, answered and withdrawn is read off this list, and what one call
does to the counter, the pending prompts and the queue is told by what is read off that call.
-/

namespace EventScript

namespace Recording

/-- What sessions and the player ask of a recording host. -/
inductive Call where
  | showMessage (request : MessageRequest)
  | messageClosed (handle : Handle)
  | closeMessage (handle : Handle)
  | showChoices (request : ChoiceRequest)
  | choiceAnswer (handle : Handle)
  | cancelChoices (handle : Handle)
  | transferPlayer (request : TransferRequest)
  | screenEffect (effect : ScreenEffect)
  | dismiss (handle : Handle)
  | dismissAll
  | queueChoice (answer : ChoiceAnswer)

/-- What the host returns. -/
inductive Response where
  | nothing
  | opened (holding : Holding)
  | closed (closed : Bool)
  | answer (answer? : Option ChoiceAnswer)

/-- Call a recording host. -/
def call (r : Recording) : Call → Response × Recording
  | .showMessage request =>
    let (handle, r) := r.showMessage request
    (.opened (.message handle), r)
  | .messageClosed handle => (.closed (r.isClosed handle), r)
  | .closeMessage handle => (.nothing, r.closeMessage handle)
  | .showChoices request =>
    let (handle, r) := r.showChoices request
    (.opened (.prompt handle), r)
  | .choiceAnswer handle =>
    let (answer?, r) := r.choiceAnswer handle
    (.answer answer?, r)
  | .cancelChoices handle => (.nothing, r.cancelChoices handle)
  | .transferPlayer request => (.nothing, r.record (.transfer request))
  | .screenEffect effect => (.nothing, r.record (.screen effect))
  | .dismiss handle => (.nothing, r.dismiss handle)
  | .dismissAll => (.nothing, r.dismissAll)
  | .queueChoice answer => (.nothing, r.queueChoice answer)

/-- A call and the host that it finds. -/
structure Entry where
  host : Recording
  request : Call

namespace Entry

/-- What the call returns. -/
def response (e : Entry) : Response := (e.host.call e.request).1

/-- The host that the call leaves. -/
def left (e : Entry) : Recording := (e.host.call e.request).2

/-- What the call opens. -/
def opened? (e : Entry) : Option Holding :=
  match e.response with
  | .opened holding => some holding
  | _ => none

/-- The answer that the call queues. -/
def queued? (e : Entry) : Option ChoiceAnswer :=
  match e.request with
  | .queueChoice answer => some answer
  | _ => none

/-- The prompt that gets an answer, and the answer. -/
def answered? (e : Entry) : Option (Handle × ChoiceAnswer) :=
  match e.request, e.response with
  | .choiceAnswer handle, .answer (some answer) => some (handle, answer)
  | _, _ => none

/-- The prompt that the call withdraws, pending or not. -/
def cancelled? (e : Entry) : Option Handle :=
  match e.request with
  | .cancelChoices handle => some handle
  | _ => none

/-- The prompt that the call answers or withdraws. -/
def ended? (e : Entry) : Option Handle := (e.answered?.map Prod.fst).or e.cancelled?

end Entry

/-- Calls in order, each with the host that it finds. -/
def run (r : Recording) : List Call → List Entry
  | [] => []
  | c :: rest => ⟨r, c⟩ :: (r.call c).2.run rest

/-- The host after calls in order. -/
def after (r : Recording) (calls : List Call) : Recording :=
  calls.foldl (fun r c => (r.call c).2) r

/-- One call more. -/
theorem run_concat (r : Recording) (calls : List Call) (c : Call) :
    r.run (calls ++ [c]) = r.run calls ++ [⟨r.after calls, c⟩] := by
  induction calls generalizing r with
  | nil => rfl
  | cons first rest ih => exact congrArg (List.cons _) (ih _)

/-- The host after one call more. -/
theorem after_concat (r : Recording) (calls : List Call) (c : Call) :
    r.after (calls ++ [c]) = ((r.after calls).call c).2 := by
  rw [after, List.foldl_append]
  rfl

/-- The calls before any call lead to the host that it finds. -/
theorem run_before {r : Recording} {calls : List Call} {front rest : List Entry} {e : Entry}
    (h : r.run calls = front ++ e :: rest) :
    ∃ earlier, front = r.run earlier ∧ e.host = r.after earlier := by
  induction front generalizing r calls with
  | nil =>
    cases calls with
    | nil => cases h
    | cons c later =>
      obtain ⟨rfl, -⟩ := List.cons.inj h
      exact ⟨[], rfl, rfl⟩
  | cons first front ih =>
    cases calls with
    | nil => cases h
    | cons c later =>
      obtain ⟨rfl, hrest⟩ := List.cons.inj h
      obtain ⟨earlier, rfl, hhost⟩ := ih hrest
      exact ⟨c :: earlier, rfl, hhost⟩

/-! ### What is read off a list of calls -/

/-- Everything that was opened. -/
def opened (es : List Entry) : List Holding := es.filterMap Entry.opened?

/-- The handles of all messages and prompts. -/
def issued (es : List Entry) : List Handle := (opened es).map Holding.handle

/-- The answers that were queued. -/
def queued (es : List Entry) : List ChoiceAnswer := es.filterMap Entry.queued?

/-- The prompts that got an answer, each with its answer. -/
def answered (es : List Entry) : List (Handle × ChoiceAnswer) := es.filterMap Entry.answered?

/-- The prompts that were withdrawn. -/
def cancelled (es : List Entry) : List Handle := es.filterMap Entry.cancelled?

/-- The prompt was opened, and since then it has been neither answered nor withdrawn. -/
def Outstanding (es : List Entry) (handle : Handle) : Prop :=
  ∃ front e rest, es = front ++ e :: rest ∧ e.opened? = some (.prompt handle) ∧
    ∀ later ∈ rest, later.ended? ≠ some handle

/-- The handles that are issued with one call more. -/
theorem issued_concat (es : List Entry) (e : Entry) :
    issued (es ++ [e]) = issued es ++ (e.opened?.map Holding.handle).toList := by
  rw [issued, opened, filterMap_concat, List.map_append]
  cases e.opened? <;> rfl

/-- The answers that are queued with one call more. -/
theorem queued_concat (es : List Entry) (e : Entry) :
    queued (es ++ [e]) = queued es ++ e.queued?.toList := filterMap_concat ..

/-- The prompts that are answered with one call more. -/
theorem answered_concat (es : List Entry) (e : Entry) :
    answered (es ++ [e]) = answered es ++ e.answered?.toList := filterMap_concat ..

/-- A prompt is outstanding after a call that opens it, and after one that does not end it. -/
theorem outstanding_concat {es : List Entry} {e : Entry} {handle : Handle} :
    Outstanding (es ++ [e]) handle ↔
      e.opened? = some (.prompt handle) ∨ Outstanding es handle ∧ e.ended? ≠ some handle := by
  constructor
  · rintro ⟨front, first, rest, hsplit, hopened, hrest⟩
    -- The call that opens it is the last one, or it is among the others.
    rcases List.eq_nil_or_concat rest with rfl | ⟨middle, last, rfl⟩
    · obtain ⟨-, hlast⟩ := List.append_inj' hsplit rfl
      obtain rfl := List.singleton_inj.mp hlast
      exact .inl hopened
    · rw [List.concat_eq_append] at hsplit hrest
      rw [← List.cons_append, ← List.append_assoc] at hsplit
      obtain ⟨rfl, hlast⟩ := List.append_inj' hsplit rfl
      obtain rfl := List.singleton_inj.mp hlast
      refine .inr ⟨⟨front, first, middle, rfl, hopened, ?_⟩, hrest e (by simp)⟩
      exact fun later hl => hrest later (List.mem_append_left _ hl)
  · rintro (hopened | ⟨⟨front, first, rest, rfl, hopened, hrest⟩, hended⟩)
    · exact ⟨es, e, [], rfl, hopened, by simp⟩
    · refine ⟨front, first, rest ++ [e], by simp, hopened, ?_⟩
      intro later hl
      rcases List.mem_append.mp hl with hl | hl
      · exact hrest later hl
      · rw [List.mem_singleton.mp hl]
        exact hended

/-- What is outstanding has been handed out. -/
theorem Outstanding.mem_issued {es : List Entry} {handle : Handle} (h : Outstanding es handle) :
    handle ∈ issued es := by
  obtain ⟨front, e, rest, rfl, hopened, -⟩ := h
  refine List.mem_map.mpr ⟨.prompt handle, ?_, rfl⟩
  exact List.mem_filterMap.mpr ⟨e, by simp, hopened⟩

/-! ### What one call does -/

namespace Entry

/-- A prompt gets an answer where the host has one for it. -/
theorem answered?_choiceAnswer (r : Recording) (handle : Handle) :
    answered? ⟨r, .choiceAnswer handle⟩ = (r.choiceAnswer handle).1.map (Prod.mk handle) := by
  cases h : (r.choiceAnswer handle).1 <;> simp [answered?, response, call, h]

/-- What is opened has the next handle. If nothing is, the counter stays. -/
theorem lastHandle_left (e : Entry) :
    (e.opened? = none ∧ e.left.lastHandle = e.host.lastHandle) ∨
      ∃ holding, e.opened? = some holding ∧ holding.handle = e.host.lastHandle + 1 ∧
        e.left.lastHandle = e.host.lastHandle + 1 := by
  obtain ⟨r, c⟩ := e
  cases c with
  | showMessage request => exact .inr ⟨_, rfl, rfl, rfl⟩
  | showChoices request => exact .inr ⟨_, rfl, rfl, rfl⟩
  | choiceAnswer handle =>
    refine .inl ⟨rfl, ?_⟩
    change (r.choiceAnswer handle).2.lastHandle = r.lastHandle
    rcases r.choiceAnswer_cases handle with ⟨answer, rest, -, -, h⟩ | ⟨-, h⟩ <;> rw [h]
  | _ => exact .inl ⟨rfl, rfl⟩

/-- The counter never goes back. -/
theorem lastHandle_le_left (e : Entry) : e.host.lastHandle ≤ e.left.lastHandle := by
  rcases e.lastHandle_left with ⟨-, h⟩ | ⟨_, -, -, h⟩
  · exact Nat.le_of_eq h.symm
  · exact h ▸ Nat.le_succ _

/-- What is opened has not been handed out before. -/
theorem lastHandle_lt_of_opened {e : Entry} {holding : Holding}
    (h : e.opened? = some holding) : e.host.lastHandle < holding.handle := by
  rcases e.lastHandle_left with ⟨hnone, -⟩ | ⟨other, hsome, hhandle, -⟩
  · rw [h] at hnone
    cases hnone
  · rw [h] at hsome
    obtain rfl := Option.some.inj hsome
    exact hhandle ▸ Nat.lt_succ_self _

private theorem mem_filter_ne {l : List Handle} {handle other : Handle} :
    handle ∈ l.filter (fun h => h ≠ other) ↔ handle ∈ l ∧ some other ≠ some handle := by
  rw [List.mem_filter, decide_eq_true_eq, Ne, Ne, Option.some_inj, eq_comm]

/-- A prompt is pending after a call that opens it, and after one that does not end it. -/
theorem mem_pendingChoices_left (e : Entry) (handle : Handle) :
    handle ∈ e.left.pendingChoices ↔ e.opened? = some (.prompt handle) ∨
      handle ∈ e.host.pendingChoices ∧ e.ended? ≠ some handle := by
  obtain ⟨r, c⟩ := e
  cases c with
  | showChoices request =>
    have hopened : opened? ⟨r, .showChoices request⟩ = some (.prompt (r.lastHandle + 1)) := rfl
    have hended : ended? ⟨r, .showChoices request⟩ = none := rfl
    rw [hopened, hended, Option.some_inj, Holding.prompt.injEq]
    change handle ∈ (r.lastHandle + 1) :: r.pendingChoices ↔ _
    rw [List.mem_cons, eq_comm]
    exact or_congr_right (iff_self_and.mpr fun _ => nofun)
  | choiceAnswer other =>
    change handle ∈ (r.choiceAnswer other).2.pendingChoices ↔ none = _ ∨ _
    rw [ended?, answered?_choiceAnswer]
    rcases r.choiceAnswer_cases other with ⟨answer, rest, -, -, h⟩ | ⟨-, h⟩
    · rw [h]
      exact mem_filter_ne.trans (or_iff_right nofun).symm
    · rw [h]
      exact ⟨fun hm => .inr ⟨hm, nofun⟩, fun hor => hor.elim nofun And.left⟩
  | cancelChoices other => exact mem_filter_ne.trans (or_iff_right nofun).symm
  | _ => exact ⟨fun hm => .inr ⟨hm, nofun⟩, fun hor => hor.elim nofun And.left⟩

/-- Answers leave the queue in front and come to it behind. -/
theorem answers_left (e : Entry) :
    (e.answered?.map Prod.snd).toList ++ e.left.answers =
      e.host.answers ++ e.queued?.toList := by
  obtain ⟨r, c⟩ := e
  cases c with
  | choiceAnswer handle =>
    change _ ++ (r.choiceAnswer handle).2.answers = r.answers ++ []
    rw [answered?_choiceAnswer, List.append_nil]
    rcases r.choiceAnswer_cases handle with ⟨answer, rest, -, hanswers, h⟩ | ⟨-, h⟩
    · rw [h, hanswers]
      rfl
    · rw [h]
      rfl
  | queueChoice answer => rfl
  | _ => exact (List.append_nil _).symm

/-- An answer ends a pending prompt. -/
theorem pending_of_answered {e : Entry} {handle : Handle} {answer : ChoiceAnswer}
    (h : e.answered? = some (handle, answer)) :
    handle ∈ e.host.pendingChoices ∧ e.ended? = some handle := by
  have hended : e.ended? = some handle := by rw [ended?, h]; rfl
  obtain ⟨r, c⟩ := e
  cases c with
  | choiceAnswer other =>
    rw [answered?_choiceAnswer] at h
    rcases r.choiceAnswer_cases other with ⟨given, rest, hpending, -, hcall⟩ | ⟨-, hcall⟩
    · rw [hcall] at h
      obtain ⟨rfl, -⟩ := Prod.mk.inj (Option.some.inj h)
      exact ⟨hpending, hended⟩
    · rw [hcall] at h
      cases h
  | _ => cases h

/-- A call without an answer is one for a prompt that is not pending, or the queue is empty. It
changes nothing. -/
theorem left_of_unanswered {e : Entry} (h : e.response = .answer none) :
    e.left = e.host ∧
      ∃ handle, e.request = .choiceAnswer handle ∧
        (handle ∉ e.host.pendingChoices ∨ e.host.answers = []) := by
  obtain ⟨r, c⟩ := e
  cases c with
  | choiceAnswer handle =>
    have hanswer : (r.choiceAnswer handle).1 = none := Response.answer.inj h
    rcases r.choiceAnswer_cases handle with ⟨answer, rest, -, -, hcall⟩ | ⟨hnot, hcall⟩
    · rw [hcall] at hanswer
      cases hanswer
    · exact ⟨congrArg Prod.snd hcall, handle, rfl, hnot⟩
  | _ => cases h

end Entry

end Recording

end EventScript
