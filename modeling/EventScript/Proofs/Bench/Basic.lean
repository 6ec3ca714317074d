import EventScript.Proofs.Scheduler.Reach

/-!
# Benches

A bench is a factory and a world with the interpreters and schedulers that are built over
them. All that can be asked of these is an `Operation`, and what it answers an `Answer`. Between
two operations anything may become of the world; another one may take its place.

`Bench.shown` is a bench with an empty pool in place of its own. It keeps everything else: the
game, the host with its requests and diagnostics, the sessions, and the events of schedulers.
-/

namespace EventScript

/-- The services with an empty pool in place of theirs. -/
def Services.drained {η : Type} (s : Services η) : Services η :=
  { s with factory := { s.factory with pool := .new 0 } }

/-- A fresh interpreter of the same configuration and owner. -/
def Interpreter.renewed (i : Interpreter) : Interpreter :=
  { config := i.config, owner := i.owner }

/-- A factory and a world, and what is built over them. -/
structure Bench (η : Type) where
  services : Services η
  interpreters : List Interpreter := []
  /-- Schedulers. Each works with the services of the bench. -/
  schedulers : List (Scheduler η) := []

namespace Bench

/-- What can be asked of a bench; a number tells which interpreter or scheduler is meant. -/
inductive Operation (η : Type) where
  | create (d : Descriptor)
  | createOrDefault (d : Descriptor)
  | build (ds : List Descriptor) (mode : Mode)
  | acquire (k : Kind)
  | release (cs : List Command)
  | interpreter (config : InterpreterConfig) (owner : Owner)
  | start (n : Nat) (ds : List Descriptor)
  | startProgram (n : Nat) (p : Program) (notify : Bool)
  | update (n : Nat)
  | stop (n : Nat)
  | setPaused (n : Nat) (paused : Bool)
  | scheduler (config : RuntimeConfig)
  | call (n : Nat) (o : Scheduler.Operation)
  /-- Others change the world. -/
  | outside (f : World η → World η)

/-- What an operation answers. -/
inductive Answer where
  | nothing
  | created (result : Except FactoryError Command)
  | createdOrDefault (result : Option Command)
  | built (result : Except ProgramError Program)
  | acquired (c : Command)
  | started (result : Except InterpreterError Unit)
  /-- What a tick did, and the completion announced in it. -/
  | updated (report : TickReport) (announced : Option Completion)
  | stopped (wasRunning : Bool)
  | spawned (result : Except RuntimeError SessionId)
  | called (result : Except RuntimeError Unit)
  | ticked (done : List SessionCompleted)
  | ran (result : Except RuntimeError (List SessionCompleted))

variable {η : Type}

/-- Ask an interpreter with the services of the bench. -/
def ask {α : Type} (b : Bench η) (n : Nat) (request : Interpreter → Services η → Reply α η)
    (answer : α → Option Completion → Answer) : Answer × Bench η :=
  match b.interpreters[n]? with
  | none => (.nothing, b)
  | some i =>
    let reply := request i b.services
    (answer reply.result reply.announced,
      { b with services := reply.services
               interpreters := b.interpreters.set n reply.interpreter })

/-- Ask a scheduler with the services of the bench. -/
def askScheduler (b : Bench η) (n : Nat) (request : Scheduler η → Answer × Scheduler η) :
    Answer × Bench η :=
  match b.schedulers[n]? with
  | none => (.nothing, b)
  | some s =>
    let (answer, s) := request { s with services := b.services }
    (answer, { b with services := s.services, schedulers := b.schedulers.set n s })

/-- The bench with a fresh interpreter in place of one. -/
def renew (b : Bench η) (n : Nat) : Bench η :=
  match b.interpreters[n]? with
  | none => b
  | some i => { b with interpreters := b.interpreters.set n i.renewed }

/-- Everything but the pool. -/
def shown (b : Bench η) : Bench η :=
  { b with services := b.services.drained
           schedulers := b.schedulers.map fun s => { s with services := b.services.drained } }

/-- The operation starts an interpreter. -/
def Operation.Starts (n : Nat) : Operation η → Prop
  | .start m _ | .startProgram m _ _ => m = n
  | _ => False

variable [Host η]

/-- Call a scheduler. -/
def answerCall (o : Scheduler.Operation) (s : Scheduler η) : Answer × Scheduler η :=
  match o with
  | .spawn owner ds => let (r, s) := s.spawn owner ds; (.spawned r, s)
  | .stop id => let (r, s) := s.stop id; (.called r, s)
  | .stopAll => (.nothing, s.stopAll)
  | .pause id => let (r, s) := s.pause id; (.called r, s)
  | .resume id => let (r, s) := s.resume id; (.called r, s)
  | .tick => let (done, s) := s.tick; (.ticked done, s)
  | .runUntilIdle maxTicks => let (r, s) := s.runUntilIdle maxTicks; (.ran r, s)

/-- The bench after a factory has made something. -/
def took {α : Type} (b : Bench η) (made : Made α) : Bench η :=
  { b with services := b.services.took made }

/-- The answer to an operation, and the bench after it. -/
def perform (b : Bench η) : Operation η → Answer × Bench η
  | .create d => let made := b.services.factory.create d; (.created made.result, b.took made)
  | .createOrDefault d =>
    let made := b.services.factory.createOrDefault d
    (.createdOrDefault made.result, b.took made)
  | .build ds mode =>
    let made := b.services.factory.build ds mode
    (.built made.result, b.took made)
  | .acquire k =>
    let (c, pool) := b.services.factory.pool.acquire k
    let factory := { b.services.factory with pool }
    (.acquired c, { b with services := { b.services with factory } })
  | .release cs =>
    let factory := b.services.factory.release cs
    (.nothing, { b with services := { b.services with factory } })
  | .interpreter config owner =>
    (.nothing, { b with interpreters := b.interpreters ++ [{ config, owner }] })
  | .start n ds => b.ask n (fun i => i.start ds) fun r _ => .started r
  | .startProgram n p notify => b.ask n (fun i => i.startProgram p notify) fun r _ => .started r
  | .update n => b.ask n Interpreter.update .updated
  | .stop n => b.ask n Interpreter.stop fun r _ => .stopped r
  | .setPaused n paused =>
    b.ask n (fun i services => ⟨(), none, i.setPaused paused, services⟩) fun _ _ => .nothing
  | .scheduler config =>
    (.nothing, { b with schedulers := b.schedulers ++ [.withServices config b.services] })
  | .call n o => b.askScheduler n (answerCall o)
  | .outside f =>
    (.nothing, { b with services := { b.services with world := f b.services.world } })

/-- The answers to operations in order. -/
def answers (b : Bench η) : List (Operation η) → List Answer
  | [] => []
  | o :: rest => (b.perform o).1 :: (b.perform o).2.answers rest

/-- The bench after operations in order. -/
def after (b : Bench η) : List (Operation η) → Bench η
  | [] => b
  | o :: rest => (b.perform o).2.after rest

end Bench

end EventScript
