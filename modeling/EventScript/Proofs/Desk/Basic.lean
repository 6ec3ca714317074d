import EventScript.Proofs.Session.Reach

/-!
# Desks

A desk is an interpreter with the services that it works with. A call asks something of the
interpreter, or stands for what others do between two calls: they may change the game, the host
and the factory as they like. `Desk.run` lists the calls of a sequence with the replies to them,
and `Desk.after` is the desk that they leave.
-/

namespace EventScript

/-- The same reply, with its result put in other words. -/
def Reply.map {α β η : Type} (f : α → β) (r : Reply α η) : Reply β η :=
  { result := f r.result
    announced := r.announced
    interpreter := r.interpreter
    services := r.services }

/-- The same reply, with another interpreter made of the one that it leaves. -/
def Reply.mapInterpreter {α η : Type} (f : Interpreter → Interpreter) (r : Reply α η) :
    Reply α η :=
  { r with interpreter := f r.interpreter }

/-- An interpreter and the services that it works with. -/
structure Desk (η : Type) where
  interpreter : Interpreter
  services : Services η

namespace Desk

/-- A call of the interpreter, or what others do between two calls. -/
inductive Call (η : Type) where
  | start (ds : List Descriptor)
  | startProgram (p : Program) (notify : Bool)
  | update
  | stop
  | setPaused (paused : Bool)
  /-- Others change the game, the host or the factory. -/
  | outside (f : Services η → Services η)

/-- The result of a call. -/
inductive Answer where
  | nothing
  | started (result : Except InterpreterError Unit)
  | updated (report : TickReport)
  | stopped (wasRunning : Bool)

/-- A call and the reply to it. -/
structure Entry (η : Type) where
  call : Call η
  reply : Reply Answer η

variable {η : Type}

/-- The desk after an entry. -/
def Entry.desk (e : Entry η) : Desk η := ⟨e.reply.interpreter, e.reply.services⟩

/-- The desk with another interpreter made of its own. -/
def mapInterpreter (f : Interpreter → Interpreter) (d : Desk η) : Desk η :=
  { d with interpreter := f d.interpreter }

/-- The entry with another interpreter made of the one that it leaves. -/
def Entry.mapInterpreter (f : Interpreter → Interpreter) (e : Entry η) : Entry η :=
  { e with reply := e.reply.mapInterpreter f }

variable [Host η]

/-- The reply to a call. -/
def reply (d : Desk η) : Call η → Reply Answer η
  | .start ds => (d.interpreter.start ds d.services).map .started
  | .startProgram p notify => (d.interpreter.startProgram p notify d.services).map .started
  | .update => (d.interpreter.update d.services).map .updated
  | .stop => (d.interpreter.stop d.services).map .stopped
  | .setPaused paused =>
    { result := .nothing, interpreter := d.interpreter.setPaused paused, services := d.services }
  | .outside f =>
    { result := .nothing, interpreter := d.interpreter, services := f d.services }

/-- What the reply to a call can be. -/
inductive Replies (d : Desk η) : Call η → Reply Answer η → Prop
  /-- There is a session, so no start is accepted. -/
  | running {s : Session} (ds : List Descriptor) (h : d.interpreter.session = some s) :
    Replies d (.start ds)
      { result := .started (.error .alreadyRunning)
        interpreter := d.interpreter
        services := d.services }
  /-- The program of such a start goes back to the pool. -/
  | runningProgram {s : Session} (p : Program) (notify : Bool)
    (h : d.interpreter.session = some s) :
    Replies d (.startProgram p notify)
      { result := .started (.error .alreadyRunning)
        interpreter := d.interpreter
        services := d.services.release p }
  | malformed {ds : List Descriptor} {e : ProgramError} (h : d.interpreter.session = none)
    (he : (d.services.factory.build ds d.interpreter.config.mode).result = .error e) :
    Replies d (.start ds)
      { result := .started (.error (.malformedProgram e))
        interpreter := d.interpreter
        services := d.services.took (d.services.factory.build ds d.interpreter.config.mode) }
  | accepted {ds : List Descriptor} {p : Program} (h : d.interpreter.session = none)
    (hp : (d.services.factory.build ds d.interpreter.config.mode).result = .ok p) :
    Replies d (.start ds)
      { result := .started (.ok ())
        interpreter := d.interpreter.begin p true
        services := d.services.took (d.services.factory.build ds d.interpreter.config.mode) }
  | acceptedProgram (p : Program) (notify : Bool) (h : d.interpreter.session = none) :
    Replies d (.startProgram p notify)
      { result := .started (.ok ())
        interpreter := d.interpreter.begin p notify
        services := d.services }
  | updated {r : Reply TickReport η} (h : d.interpreter.Updates d.services r) :
    Replies d .update (r.map .updated)
  /-- There is nothing to stop. -/
  | idle (h : d.interpreter.session = none) :
    Replies d .stop
      { result := .stopped false, interpreter := d.interpreter, services := d.services }
  | stopped {s s' : Session} {world : World η} (h : d.interpreter.session = some s)
    (ha : s.abortInFlight d.services.world = (s', world)) :
    Replies d .stop
      { result := .stopped true
        interpreter := { d.interpreter with session := none, completed := false }
        services := Services.release { d.services with world } s'.program }
  | setPaused (paused : Bool) :
    Replies d (.setPaused paused)
      { result := .nothing, interpreter := d.interpreter.setPaused paused, services := d.services }
  | outside (f : Services η → Services η) :
    Replies d (.outside f)
      { result := .nothing, interpreter := d.interpreter, services := f d.services }

/-- Every reply is one of these. -/
theorem replies_reply (d : Desk η) (c : Call η) : d.Replies c (d.reply c) := by
  cases c with
  | start ds =>
    rw [reply, Interpreter.start]
    cases h : d.interpreter.session with
    | some s => exact .running ds h
    | none =>
      dsimp only
      cases hmade : (d.services.factory.build ds d.interpreter.config.mode).result with
      | ok p => exact .accepted h hmade
      | error e => exact .malformed h hmade
  | startProgram p notify =>
    rw [reply, Interpreter.startProgram]
    cases h : d.interpreter.session with
    | some s => exact .runningProgram p notify h
    | none => exact .acceptedProgram p notify h
  | update => exact .updated (Interpreter.updates_update d.interpreter d.services)
  | stop =>
    rw [reply, Interpreter.stop]
    cases h : d.interpreter.session with
    | none => exact .idle h
    | some s => exact .stopped h rfl
  | setPaused paused => exact .setPaused paused
  | outside f => exact .outside f

/-- A call with its reply. -/
def enter (d : Desk η) (c : Call η) : Entry η := ⟨c, d.reply c⟩

/-- Calls in order, each with its reply. -/
def run (d : Desk η) : List (Call η) → List (Entry η)
  | [] => []
  | c :: rest => d.enter c :: (d.enter c).desk.run rest

/-- The desk after calls in order. -/
def after (d : Desk η) : List (Call η) → Desk η
  | [] => d
  | c :: rest => (d.enter c).desk.after rest

/-- A run goes on from where its first part leads. -/
theorem run_append (d : Desk η) (calls later : List (Call η)) :
    d.run (calls ++ later) = d.run calls ++ (d.after calls).run later := by
  induction calls generalizing d with
  | nil => rfl
  | cons c rest ih => exact congrArg (List.cons _) (ih _)

/-- So does the desk. -/
theorem after_append (d : Desk η) (calls later : List (Call η)) :
    d.after (calls ++ later) = (d.after calls).after later := by
  induction calls generalizing d with
  | nil => rfl
  | cons c rest ih => exact ih _

end Desk

end EventScript
