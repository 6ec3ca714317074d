import EventScript.Proofs.Command.Holding
import EventScript.Proofs.Host.Diary

/-!
# What actions open

A message or prompt is opened in the first tick of an action alone, and it is the only one. While
the action waits for it, its handle is the token and is remembered. No tick gives anything up; an
action that is stopped gives up what it remembers. A diary shows all this for any host.
-/

namespace EventScript

variable {η : Type}

/-- What an action holds with its token it remembers. -/
def Action.Remembers (a : Action) (memory : Memory) (token : Token) : Prop :=
  (a.held token).isSome → memory.handle = some token

/-- Then that is what it gives up. -/
theorem Action.Remembers.held_handle {a : Action} {memory : Memory} {token : Token}
    (h : a.Remembers memory token) : memory.handle.bind a.held = a.held token := by
  cases a with
  | showMessage | showChoices =>
    rw [h rfl]
    rfl
  | _ => cases memory.handle <;> rfl

/-- After a tick of an action that had opened `before`, a diary shows that nothing was given up in
it, and no more than one message or prompt opened so far. An action that waits holds just that. -/
structure Performed.Holds (a : Action) (before : List Holding) (p : Performed (Diary η)) :
    Prop where
  keeps : p.world.host.calls.filterMap HostCall.givenUp? = []
  once : (before ++ p.opened).length ≤ 1
  waits : ∀ token, p.result = .ok (.suspended token) →
    before ++ p.opened = (a.held token).toList ∧ a.Remembers p.memory token

private theorem holds_of_quiet {a : Action} (ha : ∀ token, a.held token = none)
    {p : Performed (Diary η)} (hopened : p.opened = [])
    (hkeeps : p.world.host.calls.filterMap HostCall.givenUp? = []) : p.Holds a [] := by
  refine ⟨hkeeps, by simp [hopened], fun token _ => ⟨by rw [hopened, ha]; rfl, ?_⟩⟩
  intro hsome
  rw [ha] at hsome
  cases hsome

section

variable {before : List Holding}

private theorem holds_of_poll {a : Action} {holding : Holding} {p : Performed (Diary η)}
    {calls : List HostCall} {poll : HostCall} (hcalls : p.world.host.calls = calls ++ [poll])
    (hpoll : poll.opened? = none ∧ poll.givenUp? = none)
    (hkeeps : calls.filterMap HostCall.givenUp? = [])
    (hopened : before ++ calls.filterMap HostCall.opened? = [holding])
    (hwaits : ∀ token, p.result = .ok (.suspended token) →
      a.held token = some holding ∧ p.memory.handle = some token) : p.Holds a before := by
  have hafter : before ++ p.opened = [holding] := by
    rw [Performed.opened, hcalls, List.filterMap_append, List.filterMap_cons_none hpoll.1,
      List.filterMap_nil, List.append_nil, hopened]
  refine ⟨?_, by rw [hafter]; exact Nat.le_refl 1, fun token htoken => ?_⟩
  · rw [hcalls, List.filterMap_append, hkeeps, List.filterMap_cons_none hpoll.2]
    rfl
  · obtain ⟨hheld, hmemory⟩ := hwaits token htoken
    exact ⟨by rw [hafter, hheld]; rfl, fun _ => hmemory⟩

variable {handle : Handle} {w : World (Diary η)} [Host η]

/-- A poll of a message. -/
theorem pollMessage_holds (hkeeps : w.host.calls.filterMap HostCall.givenUp? = [])
    (hopened : before ++ w.host.calls.filterMap HostCall.opened? = [.message handle])
    (p : ShowMessage) (memory : Memory) :
    (pollMessage handle memory w).Holds (.showMessage p) before := by
  have hcalls : (pollMessage handle memory w).world.host.calls =
      w.host.calls ++ [.messageClosed handle] := by
    unfold pollMessage
    dsimp only
    split <;> rfl
  refine holds_of_poll hcalls ⟨rfl, rfl⟩ hkeeps hopened fun token htoken => ?_
  rcases Action.pollMessage_cases handle memory w with hr | ⟨hr, hmemory⟩ <;> rw [hr] at htoken <;>
    cases htoken
  exact ⟨rfl, by rw [hmemory]⟩

/-- A poll of a prompt. -/
theorem poll_holds (hkeeps : w.host.calls.filterMap HostCall.givenUp? = [])
    (hopened : before ++ w.host.calls.filterMap HostCall.opened? = [.prompt handle])
    (p : ShowChoices) (memory : Memory) :
    (p.poll handle memory w).Holds (.showChoices p) before := by
  have hcalls : (p.poll handle memory w).world.host.calls =
      w.host.calls ++ [.choiceAnswer handle] := by
    unfold ShowChoices.poll
    dsimp only
    split
    · rfl
    · split <;> rfl
  refine holds_of_poll hcalls ⟨rfl, rfl⟩ hkeeps hopened fun token htoken => ?_
  rcases Action.poll_cases p handle memory w with hr | ⟨_, _, _, hr⟩ | ⟨hr, hmemory⟩ <;>
    rw [hr] at htoken <;> cases htoken
  exact ⟨rfl, by rw [hmemory]⟩

end

namespace Action

variable [Host η]

/-- A first tick opens at most one message or prompt. -/
theorem start_holds (a : Action) (owner : Owner) (memory : Memory) (w : World η) :
    (a.start owner memory w.noted).Holds a [] := by
  cases a with
  | showMessage p =>
    simp only [start, Diary.showMessage_eq]
    split
    · exact pollMessage_holds rfl rfl p memory
    · exact ⟨rfl, Nat.le_refl 1, by rintro token ⟨⟩⟩
  | showChoices p =>
    simp only [start, Diary.showChoices_eq]
    split
    · exact ⟨rfl, Nat.zero_le 1, by rintro token ⟨⟩⟩
    · exact poll_holds rfl rfl p memory
  | controlVariables p =>
    simp only [start]
    split <;> exact holds_of_quiet (fun _ => rfl) rfl rfl
  | _ => exact holds_of_quiet (fun _ => rfl) rfl rfl

/-- A later tick opens no other. -/
theorem resume_holds (a : Action) (token : Token) (memory : Memory) (w : World η) :
    (a.resume token memory w.noted).Holds a (a.held token).toList := by
  cases a with
  | showMessage p => exact pollMessage_holds rfl rfl p memory
  | showChoices p => exact poll_holds rfl rfl p memory
  | _ => exact holds_of_quiet (fun _ => rfl) rfl rfl

/-- Giving up opens nothing, and gives up what is remembered. -/
theorem release_calls (a : Action) (memory : Memory) (w : World η) :
    (a.release memory w.noted).2.host.calls.filterMap HostCall.opened? = [] ∧
      (a.release memory w.noted).2.host.calls.filterMap HostCall.givenUp? =
        (memory.handle.bind a.held).toList := by
  obtain ⟨handle, outcome⟩ := memory
  cases handle <;> cases a <;> exact ⟨rfl, rfl⟩

end Action

end EventScript
