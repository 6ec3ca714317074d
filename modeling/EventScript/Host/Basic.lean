import EventScript.Command.Action
import EventScript.Diagnostic

/-!
# Hosts

A host presents what commands ask for and says when the player has answered. Drawing,
sound and input are its own affair. A command issues a request, keeps the handle it got,
and polls the handle on later ticks. A host also takes the diagnostics of the session.

The library assumes nothing of a host: a definition over `[Host η]` and a law about it
hold for every behaviour.

Specification: `SPEC_FULL.md` §9 (the event host).
-/

namespace EventScript

/-- Number by which a host knows an open message or prompt. -/
abbrev Handle := Nat

/-- A message to be shown. -/
structure MessageRequest where
  owner : Owner
  speaker : Option String
  text : String
  deriving DecidableEq, Repr

/-- Choices to be offered. -/
structure ChoiceRequest where
  owner : Owner
  choices : List String
  cancellable : Bool
  deriving DecidableEq, Repr

/-- How a prompt ended. -/
inductive ChoiceAnswer where
  | selected (index : Nat)
  | cancelled
  deriving DecidableEq, Repr

/-- A move of the player. -/
structure TransferRequest where
  owner : Owner
  mapId : UInt32
  x : Int32
  y : Int32
  fade : Bool
  deriving DecidableEq, Repr

/-- An effect on the whole screen. -/
inductive ScreenEffect where
  | fade (direction : FadeDirection) (durationTicks : UInt32)
  | shake (power : UInt8) (speed : UInt8) (durationTicks : UInt32)
  deriving DecidableEq, Repr

/-- States of a presentation layer (`EventHost`). -/
class Host (η : Type) where
  /-- Open a message window. -/
  showMessage : MessageRequest → η → Handle × η
  /-- The player has dismissed the message. -/
  messageClosed : Handle → η → Bool × η
  /-- Close a message whose session ends. -/
  closeMessage : Handle → η → η
  /-- Open a prompt. -/
  showChoices : ChoiceRequest → η → Handle × η
  /-- The answer of the player, once there is one. -/
  choiceAnswer : Handle → η → Option ChoiceAnswer × η
  /-- Withdraw a prompt without an answer. -/
  cancelChoices : Handle → η → η
  transferPlayer : TransferRequest → η → η
  screenEffect : ScreenEffect → η → η
  /-- Take a diagnostic. -/
  report : Diagnostic → η → η

/-- Hand over diagnostics in order. -/
def Host.reportAll {η : Type} [Host η] (diagnostics : List Diagnostic) (host : η) : η :=
  diagnostics.foldl (fun h d => Host.report d h) host

end EventScript
