import EventScript.Command.Perform
import EventScript.Proofs.Structured.Tree

/-!
# What a structured program means

`Exec` relates a tree and a state of the game to what happens in a run, the state after it
and how it ends. A run may be cut at any point, so the runs of a loop that never ends are
its cut ones. Nobody but the program writes the game, and nothing is shown to a player:
messages are closed at once and prompts are cancelled.
-/

namespace EventScript

/-- What can be seen of a run. -/
inductive Event where
  /-- A basic command ran to its end. -/
  | ran (c : Command)
  /-- A branch was decided. -/
  | decided (set : ConditionSet) (outcome : Bool)
  deriving DecidableEq, Repr

/-- How a run of a tree ends. -/
inductive Ending where
  /-- The last statement has ended. -/
  | normal
  /-- A break waits for a loop to leave. -/
  | broken
  /-- The program is over. -/
  | exited
  /-- The run was cut before its end. -/
  | cut
  deriving DecidableEq, Repr

/-- The game after a basic command. A failing command leaves it as it was. -/
def Leaf.effect (l : Leaf) (owner : Owner) (g : GameState) : GameState :=
  match l.action with
  | .showChoices p =>
    if p.choices.isEmpty then g else g.setVariable p.resultVariable (p.cancelIndex.getD (-1))
  | .controlSwitches p => p.run g
  | .controlVariables p =>
    match p.compute (g.getVariable p.target) (p.operand.value g) with
    | .ok value => g.setVariable p.target value
    | .error _ => g
  | .controlSelfSwitch p => g.setSelfSwitch owner p.name p.value
  | _ => g

/-- The runs of a tree on behalf of an owner: the game before, the events, the game after,
and the ending. -/
inductive Exec (owner : Owner) :
    Tree → GameState → List Event → GameState → Ending → Prop
  | cut {t : Tree} {g : GameState} : Exec owner t g [] g .cut
  | done {g : GameState} : Exec owner .done g [] g .normal
  | skipped {l : Leaf} {next : Tree} {g g' : GameState} {tr : List Event} {e : Ending}
    (hd : l.enabled = false) (h : Exec owner next g tr g' e) :
    Exec owner (.basic l next) g tr g' e
  | ran {l : Leaf} {next : Tree} {g g' : GameState} {tr : List Event} {e : Ending}
    (he : l.enabled = true) (h : Exec owner next (l.effect owner g) tr g' e) :
    Exec owner (.basic l next) g (.ran l.command :: tr) g' e
  | ifThen {set : ConditionSet} {yes next : Tree} {g g₁ g₂ g' : GameState}
    {tr tr' : List Event} {e : Ending} (hc : g.evaluate owner set = (true, g₁))
    (h : Exec owner yes g₁ tr g₂ .normal) (h' : Exec owner next g₂ tr' g' e) :
    Exec owner (.ifThen set yes next) g (.decided set true :: tr ++ tr') g' e
  | ifThenStopped {set : ConditionSet} {yes next : Tree} {g g₁ g' : GameState}
    {tr : List Event} {e : Ending} (hc : g.evaluate owner set = (true, g₁))
    (h : Exec owner yes g₁ tr g' e) (he : e ≠ .normal) :
    Exec owner (.ifThen set yes next) g (.decided set true :: tr) g' e
  | ifThenPassed {set : ConditionSet} {yes next : Tree} {g g₁ g' : GameState}
    {tr : List Event} {e : Ending} (hc : g.evaluate owner set = (false, g₁))
    (h : Exec owner next g₁ tr g' e) :
    Exec owner (.ifThen set yes next) g (.decided set false :: tr) g' e
  | ifElse {set : ConditionSet} {yes no next : Tree} {outcome : Bool}
    {g g₁ g₂ g' : GameState} {tr tr' : List Event} {e : Ending}
    (hc : g.evaluate owner set = (outcome, g₁))
    (h : Exec owner (if outcome then yes else no) g₁ tr g₂ .normal)
    (h' : Exec owner next g₂ tr' g' e) :
    Exec owner (.ifElse set yes no next) g (.decided set outcome :: tr ++ tr') g' e
  | ifElseStopped {set : ConditionSet} {yes no next : Tree} {outcome : Bool}
    {g g₁ g' : GameState} {tr : List Event} {e : Ending}
    (hc : g.evaluate owner set = (outcome, g₁))
    (h : Exec owner (if outcome then yes else no) g₁ tr g' e) (he : e ≠ .normal) :
    Exec owner (.ifElse set yes no next) g (.decided set outcome :: tr) g' e
  /-- The body has ended and the loop begins again. -/
  | repeated {body next : Tree} {g g₁ g' : GameState} {tr tr' : List Event} {e : Ending}
    (h : Exec owner body g tr g₁ .normal) (h' : Exec owner (.loop body next) g₁ tr' g' e) :
    Exec owner (.loop body next) g (tr ++ tr') g' e
  /-- A break in the body ends the loop. -/
  | left {body next : Tree} {g g₁ g' : GameState} {tr tr' : List Event} {e : Ending}
    (h : Exec owner body g tr g₁ .broken) (h' : Exec owner next g₁ tr' g' e) :
    Exec owner (.loop body next) g (tr ++ tr') g' e
  | loopStopped {body next : Tree} {g g' : GameState} {tr : List Event} {e : Ending}
    (h : Exec owner body g tr g' e) (he : e = .cut ∨ e = .exited) :
    Exec owner (.loop body next) g tr g' e
  | broken {next : Tree} {g : GameState} : Exec owner (.breakLoop next) g [] g .broken
  | exited {next : Tree} {g : GameState} : Exec owner (.exit next) g [] g .exited

end EventScript
