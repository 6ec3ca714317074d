import EventScript.Command.Perform
import EventScript.Proofs.Host.Accounts

/-!
# Diaries

A diary passes every call on to the host that it is kept for, and writes it down. Nobody notices:
what is run in a world with a diary gives the result that it gives without one and leaves the same
world. So a diary tells for any host what an action asks of it.
-/

namespace EventScript

/-- A call of a host. -/
inductive HostCall where
  /-- A message was shown, under the handle that the host gave it. -/
  | showMessage (request : MessageRequest) (handle : Handle)
  | messageClosed (handle : Handle)
  | closeMessage (handle : Handle)
  /-- A prompt was opened, under the handle that the host gave it. -/
  | showChoices (request : ChoiceRequest) (handle : Handle)
  | choiceAnswer (handle : Handle)
  | cancelChoices (handle : Handle)
  | transferPlayer (request : TransferRequest)
  | screenEffect (effect : ScreenEffect)
  | report (d : Diagnostic)
  deriving DecidableEq

namespace HostCall

/-- What the call opens. -/
def opened? : HostCall → Option Holding
  | showMessage _ handle => some (.message handle)
  | showChoices _ handle => some (.prompt handle)
  | _ => none

/-- What the call closes or withdraws. -/
def givenUp? : HostCall → Option Holding
  | closeMessage handle => some (.message handle)
  | cancelChoices handle => some (.prompt handle)
  | _ => none

end HostCall

/-- A host and the calls of it, oldest first. -/
structure Diary (η : Type) where
  host : η
  calls : List HostCall := []

section

variable {η : Type}

/-- Write down a call that the host has answered. -/
def Diary.note (d : Diary η) (host : η) (call : HostCall) : Diary η := ⟨host, d.calls ++ [call]⟩

/-- The world with a new diary for its host. -/
def World.noted (w : World η) : World (Diary η) := ⟨w.game, ⟨w.host, []⟩⟩

/-- The world without the diary. -/
def World.plain (w : World (Diary η)) : World η := ⟨w.game, w.host.host⟩

/-- The game is the same without the diary. -/
@[simp] theorem World.game_plain (w : World (Diary η)) : w.plain.game = w.game := rfl

/-- The host without the diary is the one that it is kept for. -/
@[simp] theorem World.host_plain (w : World (Diary η)) : w.plain.host = w.host.host := rfl

/-- A tick of an action without the diary. -/
def Performed.plain (p : Performed (Diary η)) : Performed η := ⟨p.result, p.memory, p.world.plain⟩

/-- What was opened in a tick, according to the diary. -/
def Performed.opened (p : Performed (Diary η)) : List Holding :=
  p.world.host.calls.filterMap HostCall.opened?

variable [Host η]

instance : Host (Diary η) where
  showMessage request d :=
    let (handle, host) := Host.showMessage request d.host
    (handle, d.note host (.showMessage request handle))
  messageClosed handle d :=
    let (closed, host) := Host.messageClosed handle d.host
    (closed, d.note host (.messageClosed handle))
  closeMessage handle d := d.note (Host.closeMessage handle d.host) (.closeMessage handle)
  showChoices request d :=
    let (handle, host) := Host.showChoices request d.host
    (handle, d.note host (.showChoices request handle))
  choiceAnswer handle d :=
    let (answer, host) := Host.choiceAnswer handle d.host
    (answer, d.note host (.choiceAnswer handle))
  cancelChoices handle d := d.note (Host.cancelChoices handle d.host) (.cancelChoices handle)
  transferPlayer request d :=
    d.note (Host.transferPlayer request d.host) (.transferPlayer request)
  screenEffect effect d := d.note (Host.screenEffect effect d.host) (.screenEffect effect)
  report diagnostic d := d.note (Host.report diagnostic d.host) (.report diagnostic)

namespace Diary

/-- A message is shown by the host itself and noted under its handle. -/
theorem showMessage_eq (request : MessageRequest) (d : Diary η) :
    Host.showMessage request d = ((Host.showMessage request d.host).1,
      d.note (Host.showMessage request d.host).2
        (.showMessage request (Host.showMessage request d.host).1)) := rfl

/-- A poll of a message is passed on and noted. -/
theorem messageClosed_eq (handle : Handle) (d : Diary η) :
    Host.messageClosed handle d = ((Host.messageClosed handle d.host).1,
      d.note (Host.messageClosed handle d.host).2 (.messageClosed handle)) := rfl

/-- A prompt is opened by the host itself and noted under its handle. -/
theorem showChoices_eq (request : ChoiceRequest) (d : Diary η) :
    Host.showChoices request d = ((Host.showChoices request d.host).1,
      d.note (Host.showChoices request d.host).2
        (.showChoices request (Host.showChoices request d.host).1)) := rfl

/-- A poll of a prompt is passed on and noted. -/
theorem choiceAnswer_eq (handle : Handle) (d : Diary η) :
    Host.choiceAnswer handle d = ((Host.choiceAnswer handle d.host).1,
      d.note (Host.choiceAnswer handle d.host).2 (.choiceAnswer handle)) := rfl

end Diary

/-! ### Nobody notices -/

/-- A poll of a message is the same with a diary. -/
theorem plain_pollMessage (handle : Handle) (memory : Memory) (w : World (Diary η)) :
    (pollMessage handle memory w).plain = pollMessage handle memory w.plain := by
  obtain ⟨game, host, calls⟩ := w
  change _ = pollMessage handle memory ⟨game, host⟩
  simp only [pollMessage, Diary.messageClosed_eq]
  split <;> rfl

/-- So is a poll of a prompt. -/
theorem ShowChoices.plain_poll (p : ShowChoices) (handle : Handle) (memory : Memory)
    (w : World (Diary η)) : (p.poll handle memory w).plain = p.poll handle memory w.plain := by
  simp only [poll, Diary.choiceAnswer_eq, World.host_plain]
  split
  · rfl
  · split <;> rfl

namespace Action

/-- The first tick of an action is the same with a diary. -/
theorem plain_start (a : Action) (owner : Owner) (memory : Memory) (w : World (Diary η)) :
    (a.start owner memory w).plain = a.start owner memory w.plain := by
  cases a with
  | showMessage p =>
    simp only [start, Diary.showMessage_eq]
    split
    · exact plain_pollMessage _ _ _
    · rfl
  | showChoices p =>
    simp only [start, Diary.showChoices_eq]
    split
    · rfl
    · exact p.plain_poll _ _ _
  | controlVariables p =>
    simp only [start, World.game_plain]
    split <;> rfl
  | _ => rfl

/-- So are the later ones. -/
theorem plain_resume (a : Action) (token : Token) (memory : Memory) (w : World (Diary η)) :
    (a.resume token memory w).plain = a.resume token memory w.plain := by
  cases a with
  | showMessage p => exact plain_pollMessage _ _ _
  | showChoices p => exact p.plain_poll _ _ _
  | _ => rfl

/-- What is given up is the same, too. -/
theorem plain_release (a : Action) (memory : Memory) (w : World (Diary η)) :
    (a.release memory w).1 = (a.release memory w.plain).1 ∧
      (a.release memory w).2.plain = (a.release memory w.plain).2 := by
  unfold release
  split <;> exact ⟨rfl, rfl⟩

end Action

end

end EventScript
