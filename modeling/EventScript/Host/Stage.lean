import EventScript.Host.Console
import EventScript.Host.Recording

/-!
# Stages

A stage is a presenter together with the log of diagnostics. The presenters are one that
shows nothing, the recording host and the console host.

Specification: `SPEC_FULL.md` §9 (the null host, which completes everything at once), §10.1
and §11.4.
-/

namespace EventScript

/-- Who presents requests. -/
inductive Presenter where
  /-- Nobody: messages are closed at once and prompts are cancelled. -/
  | none
  | recording (host : Recording)
  | console (host : Console)
  deriving Repr, Inhabited

/-- A presenter and its log. -/
structure Stage where
  presenter : Presenter := .none
  /-- Diagnostics, oldest first. -/
  log : List Diagnostic := []
  deriving Repr, Inhabited

namespace Stage

/-- The lines that the console host has written. -/
def text (s : Stage) : String :=
  match s.presenter with
  | .console c => c.text
  | _ => ""

/-- Append a diagnostic. -/
def report (s : Stage) (d : Diagnostic) : Stage := { s with log := s.log ++ [d] }

/-- Take over a console after it wrote, with a diagnostic for each lost line. -/
def wrote (s : Stage) (written : Console × List String) : Stage :=
  { presenter := .console written.1, log := s.log ++ written.2.map Diagnostic.outputFailed }

/-- Show a message. -/
def showMessage (s : Stage) (request : MessageRequest) : Handle × Stage :=
  match s.presenter with
  | .none => (0, s)
  | .recording r =>
    let (handle, r) := r.showMessage request
    (handle, { s with presenter := .recording r })
  | .console c =>
    let (c, failed) := c.emit (Console.messageLine request)
    let (handle, c) := c.allocate
    (handle, s.wrote (c, failed))

/-- The message is closed. -/
def messageClosed (s : Stage) (handle : Handle) : Bool :=
  match s.presenter with
  | .recording r => r.isClosed handle
  | _ => true

/-- Close a message. -/
def closeMessage (s : Stage) (handle : Handle) : Stage :=
  match s.presenter with
  | .recording r => { s with presenter := .recording (r.closeMessage handle) }
  | _ => s

/-- Open a prompt. -/
def showChoices (s : Stage) (request : ChoiceRequest) : Handle × Stage :=
  match s.presenter with
  | .none => (0, s)
  | .recording r =>
    let (handle, r) := r.showChoices request
    (handle, { s with presenter := .recording r })
  | .console c =>
    let (c, failed) := c.emitAll (Console.choiceLines request.owner 0 request.choices)
    let (handle, c) := c.allocate
    (handle, s.wrote (c, failed))

/-- The answer to a prompt. -/
def choiceAnswer (s : Stage) (handle : Handle) : Option ChoiceAnswer × Stage :=
  match s.presenter with
  | .none => (some .cancelled, s)
  | .recording r =>
    let (answer, r) := r.choiceAnswer handle
    (answer, { s with presenter := .recording r })
  | .console c =>
    let (index, c) := c.nextAnswer
    (some (.selected index), s.wrote (c.emit s!"  > {index}"))

/-- Withdraw a prompt. -/
def cancelChoices (s : Stage) (handle : Handle) : Stage :=
  match s.presenter with
  | .recording r => { s with presenter := .recording (r.cancelChoices handle) }
  | _ => s

/-- Move the player. -/
def transferPlayer (s : Stage) (request : TransferRequest) : Stage :=
  match s.presenter with
  | .none => s
  | .recording r => { s with presenter := .recording (r.record (.transfer request)) }
  | .console c => s.wrote (c.emit (Console.transferLine request))

/-- Show a screen effect. -/
def screenEffect (s : Stage) (effect : ScreenEffect) : Stage :=
  match s.presenter with
  | .none => s
  | .recording r => { s with presenter := .recording (r.record (.screen effect)) }
  | .console c => s.wrote (c.emit (Console.effectLine effect))

instance : Host Stage where
  showMessage request s := s.showMessage request
  messageClosed handle s := (s.messageClosed handle, s)
  closeMessage handle s := s.closeMessage handle
  showChoices request s := s.showChoices request
  choiceAnswer handle s := s.choiceAnswer handle
  cancelChoices handle s := s.cancelChoices handle
  transferPlayer request s := s.transferPlayer request
  screenEffect effect s := s.screenEffect effect
  report d s := s.report d

end Stage

end EventScript
