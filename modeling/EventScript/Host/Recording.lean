import EventScript.Host.Basic

/-!
# Recording host

A host for tests and tools: it keeps every request, and the player's part is played from
outside. Messages stay open until they are dismissed, unless the host closes them at
once. Prompts take the queued answers in order, whichever prompt asks first. Messages
and prompts draw their handles from one counter.

Specification: `SPEC_FULL.md` §11.4 (the scripted test host).
-/

namespace EventScript

/-- A request that the host has seen. -/
inductive HostEvent where
  | messageShown (handle : Handle) (speaker : Option String) (text : String)
  /-- Closed by a session that ended, not by the player. -/
  | messageClosed (handle : Handle)
  | choicesShown (handle : Handle) (choices : List String)
  | choicesCancelled (handle : Handle)
  | transfer (request : TransferRequest)
  | screen (effect : ScreenEffect)
  deriving DecidableEq, Repr

/-- State of a recording host (`RecordingHost`). -/
structure Recording where
  /-- Messages are dismissed as soon as they are shown. -/
  autoClose : Bool := false
  /-- The last handle handed out. -/
  lastHandle : Nat := 0
  /-- Requests, oldest first. -/
  events : List HostEvent := []
  openMessages : List Handle := []
  pendingChoices : List Handle := []
  /-- Queued answers, next first. -/
  answers : List ChoiceAnswer := []
  deriving Repr, Inhabited

namespace Recording

/-- Append a request. -/
def record (r : Recording) (e : HostEvent) : Recording := { r with events := r.events ++ [e] }

/-- The player dismisses one message. -/
def dismiss (r : Recording) (handle : Handle) : Recording :=
  { r with openMessages := r.openMessages.filter fun h => h ≠ handle }

/-- The player dismisses every message. -/
def dismissAll (r : Recording) : Recording := { r with openMessages := [] }

/-- Queue an answer behind the others. -/
def queueChoice (r : Recording) (answer : ChoiceAnswer) : Recording :=
  { r with answers := r.answers ++ [answer] }

/-- Number of open messages. -/
def openMessageCount (r : Recording) : Nat := r.openMessages.length

/-- Texts of all messages shown, in order. -/
def messages (r : Recording) : List String :=
  r.events.filterMap fun
    | .messageShown _ _ text => some text
    | _ => none

/-- Show a message under a fresh handle. -/
def showMessage (r : Recording) (request : MessageRequest) : Handle × Recording :=
  let handle := r.lastHandle + 1
  let openMessages := if r.autoClose then r.openMessages else handle :: r.openMessages
  let r := { r with lastHandle := handle, openMessages }
  (handle, r.record (.messageShown handle request.speaker request.text))

/-- The message is not open. -/
def isClosed (r : Recording) (handle : Handle) : Bool := !r.openMessages.contains handle

/-- A session closes a message. -/
def closeMessage (r : Recording) (handle : Handle) : Recording :=
  (r.dismiss handle).record (.messageClosed handle)

/-- Open a prompt under a fresh handle. -/
def showChoices (r : Recording) (request : ChoiceRequest) : Handle × Recording :=
  let handle := r.lastHandle + 1
  let r := { r with lastHandle := handle, pendingChoices := handle :: r.pendingChoices }
  (handle, r.record (.choicesShown handle request.choices))

/-- Answer a pending prompt from the queue. -/
def choiceAnswer (r : Recording) (handle : Handle) : Option ChoiceAnswer × Recording :=
  if r.pendingChoices.contains handle then
    match r.answers with
    | [] => (none, r)
    | answer :: rest =>
      (some answer,
        { r with answers := rest
                 pendingChoices := r.pendingChoices.filter fun h => h ≠ handle })
  else (none, r)

/-- A session withdraws a prompt. -/
def cancelChoices (r : Recording) (handle : Handle) : Recording :=
  { r with pendingChoices := r.pendingChoices.filter fun h => h ≠ handle }.record
    (.choicesCancelled handle)

end Recording

end EventScript
