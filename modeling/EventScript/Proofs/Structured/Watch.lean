import EventScript.Host.Stage
import EventScript.Proofs.Command.Delay
import EventScript.Proofs.Session.Reach
import EventScript.Proofs.Structured.Semantics

/-!
# Watching an interpreter

`Watch` drives an interpreter by updates alone, in a world that nobody else touches, and
writes down what is seen: the basic commands that its reports name as executed, and the
outcomes of its branches. On a stage without a presenter a basic command has the effect on
the game that the meaning of trees gives it, at once or at the end of its countdown.
-/

namespace EventScript

/-- What is seen of a command that has ended. -/
def Command.event? (c : Command) : Option Event :=
  match c.action with
  | .conditionalBranch set => c.memory.outcome.map (.decided set)
  | _ => if c.kind.isBasic then some (.ran c.reset) else none

/-- What is seen of a session whose next step is reported: something where the report names
an executed command. -/
def Session.event? {η : Type} [Host η] (s : Session) (owner : Owner) (w : World η) :
    TickReport → Option Event
  | .executed index _ _ =>
    (s.program.get? index).bind fun c => (runCommand c s.pending owner w).command.event?
  | _ => none

/-- What is seen of the next update. -/
def Interpreter.event? {η : Type} [Host η] (i : Interpreter) (services : Services η) :
    Option Event :=
  i.session.bind fun s => s.event? i.owner services.world (i.update services).result

/-- An interpreter with its services, what was seen of it, and how its session ended. -/
structure Watch (η : Type) where
  interpreter : Interpreter
  services : Services η
  trace : List Event := []
  ended : Option CompletionReason := none

namespace Watch

variable {η : Type} [Host η]

/-- One update. -/
def tick (w : Watch η) : Watch η :=
  let reply := w.interpreter.update w.services
  { interpreter := reply.interpreter
    services := reply.services
    trace := w.trace ++ (w.interpreter.event? w.services).toList
    ended := match reply.result with
      | .completed completion => some completion.reason
      | _ => w.ended }

/-- A number of updates. -/
def after (w : Watch η) : Nat → Watch η
  | 0 => w
  | n + 1 => (w.after n).tick

/-- Updates one after the other. -/
theorem after_add (w : Watch η) (m n : Nat) : w.after (m + n) = (w.after m).after n := by
  induction n with
  | zero => rfl
  | succ n ih => exact congrArg tick ih

/-- The state of the game. -/
def game (w : Watch η) : GameState := w.services.world.game

end Watch

/-! ### A stage without a presenter -/

/-- The game is in a state, and nothing is presented to anybody. -/
structure World.Quiet (w : World Stage) (g : GameState) : Prop where
  game : w.game = g
  presenter : w.host.presenter = .none

/-- A diagnostic goes to the log alone. -/
theorem World.Quiet.report {w : World Stage} {g : GameState} (h : w.Quiet g)
    (d : Diagnostic) : (w.report d).Quiet g := ⟨h.game, h.presenter⟩

namespace Leaf

/-- The command while it waits. -/
def waiting (l : Leaf) : Command := { l.command with phase := .executing }

/-- What one tick of a basic command does: it ends with its effect on the game, or it waits
for some more ticks and leaves the game alone. -/
inductive Ticked (l : Leaf) (owner : Owner) (g : GameState) (ran : Ran Stage) : Prop
  | ended (hr : ∀ token, ran.result ≠ .ok (.suspended token))
    (hw : ran.world.Quiet (l.effect owner g))
  | waits {token : Token} (hc : l.action.counts = true)
    (hr : ran.result = .ok (.suspended token)) (hran : ran.command = l.waiting)
    (hw : ran.world.Quiet g)

variable {owner : Owner} {g : GameState} {w : World Stage}

/-- An action that may wait leaves the game alone. -/
theorem effect_of_counts (l : Leaf) (hc : l.action.counts = true) : l.effect owner g = g := by
  obtain ⟨_, _, action, _⟩ := l
  cases action <;> first | rfl | cases hc

private theorem ticked_countdown {l : Leaf} {n : Nat} (hc : l.action.counts = true)
    (hw : w.Quiet g) : l.Ticked owner g (l.command.settle ⟨.ok (countdown n), .clear, w⟩) := by
  cases n with
  | zero => exact .ended (by rintro token ⟨⟩) (by rw [l.effect_of_counts hc]; exact hw)
  | succ n => exact .waits hc rfl rfl hw

/-- A first tick. -/
theorem ticked_execute (l : Leaf) (hw : w.Quiet g) :
    l.Ticked owner g (l.command.execute owner w) := by
  obtain ⟨name, enabled, action, hbasic⟩ := l
  obtain ⟨game, presenter, log⟩ := w
  obtain ⟨rfl, hpresenter⟩ := hw
  cases hpresenter
  have hquiet : World.Quiet ⟨game, ⟨.none, log⟩⟩ game := ⟨rfl, rfl⟩
  cases action with
  | showMessage p =>
    obtain ⟨speaker, text, waitForInput⟩ := p
    cases waitForInput <;> exact .ended (by rintro token ⟨⟩) hquiet
  | showChoices p =>
    obtain ⟨choices, resultVariable, cancelIndex⟩ := p
    cases choices with
    | nil => exact .ended (by rintro token ⟨⟩) hquiet
    | cons choice choices => exact .ended (by rintro token ⟨⟩) ⟨rfl, rfl⟩
  | controlVariables p =>
    refine .ended (fun token => ?_) ?_
    · simp only [Command.execute, command, Action.start, Command.settle, if_true]
      cases p.compute (game.getVariable p.target) (p.operand.value game) <;> simp
    · simp only [Command.execute, command, Action.start, Command.settle, if_true, effect]
      cases p.compute (game.getVariable p.target) (p.operand.value game) <;> exact ⟨rfl, rfl⟩
  | controlSwitches p | controlSelfSwitch p =>
    exact .ended (by rintro token ⟨⟩) ⟨rfl, rfl⟩
  | label _ | comment _ | transferPlayer _ =>
    exact .ended (by rintro token ⟨⟩) hquiet
  | wait ticks => exact ticked_countdown rfl hquiet
  | fadeScreen p =>
    obtain ⟨direction, durationTicks, wait⟩ := p
    cases wait with
    | false => exact .ended (by rintro token ⟨⟩) hquiet
    | true => exact ticked_countdown rfl hquiet
  | shakeScreen p =>
    obtain ⟨power, speed, durationTicks, wait⟩ := p
    cases wait with
    | false => exact .ended (by rintro token ⟨⟩) hquiet
    | true => exact ticked_countdown rfl hquiet
  | _ => cases hbasic

private theorem resume_waiting (l : Leaf) (hc : l.action.counts = true) (token : Token) :
    l.waiting.resume token w =
      l.waiting.settle ⟨.ok (continueCountdown token), .clear, w⟩ := by
  obtain ⟨_, _, action, _⟩ := l
  cases action <;> first | rfl | cases hc

/-- A later tick. -/
theorem ticked_resume (l : Leaf) (hc : l.action.counts = true) (hw : w.Quiet g)
    (token : Token) : l.Ticked owner g (l.waiting.resume token w) := by
  rw [l.resume_waiting hc]
  cases token with
  | zero => exact .ended (by rintro token ⟨⟩) (by rw [l.effect_of_counts hc]; exact hw)
  | succ left => exact .waits hc rfl rfl hw

/-- A later tick leaves fewer ticks than there were. -/
theorem lt_of_resume (l : Leaf) (hc : l.action.counts = true) {token left : Token}
    (hr : (l.waiting.resume token w).result = .ok (.suspended left)) : left < token := by
  rw [l.resume_waiting hc] at hr
  cases token with
  | zero => cases hr
  | succ n =>
    cases hr
    exact Nat.lt_succ_self left

/-- A basic command that has run is seen as it was written. -/
theorem event?_eq (l : Leaf) {c : Command} (hc : c.reset = l.command) :
    c.event? = some (.ran l.command) := by
  have ha : c.action = l.action := by rw [← c.reset_action, hc]; rfl
  have hb := l.basic
  rw [← ha] at hb
  unfold Command.event?
  split
  · rename_i set hset
    rw [hset] at hb
    cases hb
  · rw [Command.kind, hb, hc]
    rfl

end Leaf

end EventScript
