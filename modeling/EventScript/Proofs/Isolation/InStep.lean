import EventScript.Host.Stage
import EventScript.Proofs.Isolation.Footprint

/-!
# Games that move in step

Nobody is presented anything on a plain stage, and no outcome is foretold. Two games on such stages
move in step where every place is left alone in both or is written alike in both. So they agree
afterwards where they agreed before, and a game that moves in step with itself is left alone
wherever nothing is written. A tick of a command moves two games in step that agree on what the
command mentions: the outcomes are equal, and nothing is written but what the command writes.
-/

namespace EventScript

/-- Both games hold the same at some places. -/
def GameState.Agree (cells : List Cell) (g g' : GameState) : Prop :=
  ∀ cell ∈ cells, g.read cell = g'.read cell

/-- Two games have become others: each place is left alone in both, or it is one of some places
and is written alike. What is foretold stays. -/
structure GameState.InStep (cells : List Cell) (g g' h h' : GameState) : Prop where
  left : h.foretold = g.foretold
  right : h'.foretold = g'.foretold
  places : ∀ cell, h.read cell = g.read cell ∧ h'.read cell = g'.read cell ∨
    cell ∈ cells ∧ h.read cell = h'.read cell

namespace GameState.InStep

variable {cells : List Cell} {g g' h h' k k' : GameState}

/-- Nothing is written. -/
theorem refl (cells : List Cell) (g g' : GameState) : InStep cells g g' g g' :=
  ⟨rfl, rfl, fun _ => .inl ⟨rfl, rfl⟩⟩

/-- Two changes in step make one. -/
theorem trans (hs : InStep cells g g' h h') (ht : InStep cells h h' k k') :
    InStep cells g g' k k' := by
  refine ⟨ht.left.trans hs.left, ht.right.trans hs.right, ?_⟩
  intro cell
  rcases ht.places cell with ⟨hk, hk'⟩ | hwritten
  · rw [hk, hk']
    exact hs.places cell
  · exact .inr hwritten

/-- The same is put at one place. -/
theorem put (cell : Cell) (hc : cell ∈ cells) (content : cell.Content) (g g' : GameState) :
    InStep cells g g' (g.put cell content) (g'.put cell content) := by
  refine ⟨by cases cell <;> rfl, by cases cell <;> rfl, ?_⟩
  intro other
  by_cases ho : other = cell
  · subst ho
    exact .inr ⟨hc, by rw [read_put_self, read_put_self]⟩
  · exact .inl ⟨g.read_put_of_ne content ho, g'.read_put_of_ne content ho⟩

end GameState.InStep

/-- The value of an operand is that of its place, if it has one. -/
theorem Operand.value_eq {o : Operand} {g g' : GameState}
    (h : ∀ m ∈ o.mentions, g.read m.cell = g'.read m.cell) : o.value g = o.value g' := by
  cases o with
  | constant value => rfl
  | «variable» name => exact h ⟨.operand, .variable name⟩ (List.mem_singleton_self _)

/-- A condition asks for nothing but its place. -/
theorem GameState.holds_eq {g g' : GameState} {owner : Owner} {c : Condition}
    (h : g.read (c.cell owner) = g'.read (c.cell owner)) : g.holds owner c = g'.holds owner c := by
  cases c with
  | switch _ expected => exact congrArg (· == expected) h
  | «variable» _ comparison value => exact congrArg (comparison.compare · value) h
  | selfSwitch _ expected => exact congrArg (· == expected) h

/-- A set of conditions asks for nothing but its conditions. -/
theorem ConditionSet.evaluate_congr {set : ConditionSet} {check check' : Condition → Bool}
    (h : ∀ c ∈ set.conditions, check c = check' c) : set.evaluate check = set.evaluate check' := by
  have hanswers := List.map_congr_left h
  unfold evaluate
  cases set.mode with
  | all => simpa using congrArg (List.all · id) hanswers
  | any => simpa using congrArg (List.any · id) hanswers

/-- Where nothing is foretold, a branch is decided by its conditions, and no place changes. -/
theorem GameState.evaluate_inStep {g g' : GameState} {owner : Owner} {set : ConditionSet}
    (hg : g.foretold = none) (hg' : g'.foretold = none)
    (h : ∀ c ∈ set.conditions, g.read (c.cell owner) = g'.read (c.cell owner))
    (cells : List Cell) :
    (g.evaluate owner set).1 = (g'.evaluate owner set).1 ∧
      InStep cells g g' (g.evaluate owner set).2 (g'.evaluate owner set).2 := by
  obtain ⟨vars, switches, selfSwitches, checks, foretold⟩ := g
  obtain ⟨vars', switches', selfSwitches', checks', foretold'⟩ := g'
  cases hg
  cases hg'
  refine ⟨ConditionSet.evaluate_congr fun c hc => ?_, ⟨rfl, rfl, fun cell => .inl ?_⟩⟩
  · have hc := GameState.holds_eq (h c hc)
    cases c <;> exact hc
  · cases cell <;> exact ⟨rfl, rfl⟩

/-- A batch of switches changes in step where it agrees. -/
theorem ControlSwitches.run_inStep {p : ControlSwitches} {cells : List Cell}
    (hc : ∀ name ∈ p.switches, Cell.switch name ∈ cells) {g g' : GameState}
    (hg : ∀ name ∈ p.switches, g.getSwitch name = g'.getSwitch name) :
    GameState.InStep cells g g' (p.run g) (p.run g') := by
  obtain ⟨switches, operation⟩ := p
  unfold run
  induction switches generalizing g g' with
  | nil => exact .refl cells g g'
  | cons name rest ih =>
    have hfirst : g.getSwitch name = g'.getSwitch name := hg name List.mem_cons_self
    have hput := GameState.InStep.put (.switch name) (hc name List.mem_cons_self)
      (operation.apply (g.getSwitch name)) g g'
    -- A later switch still agrees: it is this one, or it has not been touched.
    have hagree : ∀ other ∈ rest,
        (g.setSwitch name (operation.apply (g.getSwitch name))).getSwitch other =
          (g'.setSwitch name (operation.apply (g.getSwitch name))).getSwitch other := by
      intro other ho
      rcases hput.places (.switch other) with ⟨hleft, hright⟩ | ⟨-, heq⟩
      · exact hleft.trans ((hg other (List.mem_cons_of_mem _ ho)).trans hright.symm)
      · exact heq
    have hrest := ih (fun other ho => hc other (List.mem_cons_of_mem _ ho)) hagree
    rw [List.foldl_cons, List.foldl_cons, ← hfirst]
    exact hput.trans hrest

/-! ### Plain stages -/

/-- Nothing is presented to anybody, and no outcome of a branch is foretold. -/
inductive World.Plain : World Stage → Prop
  | intro {game : GameState} {log : List Diagnostic} (h : game.foretold = none) :
    Plain ⟨game, ⟨.none, log⟩⟩

/-- The worlds are plain, and their games agree on some places. -/
structure World.Agree (cells : List Cell) (w w' : World Stage) : Prop where
  left : w.Plain
  right : w'.Plain
  game : w.game.Agree cells w'.game

/-- Two plain worlds have become others, and their games have moved in step. -/
structure World.InStep (cells : List Cell) (w w' v v' : World Stage) : Prop where
  left : v.Plain
  right : v'.Plain
  game : GameState.InStep cells w.game w'.game v.game v'.game

/-- Fewer places are asked for. -/
theorem World.Agree.mono {cells others : List Cell} {w w' : World Stage} (h : w.Agree cells w')
    (hc : others ⊆ cells) : w.Agree others w' :=
  ⟨h.left, h.right, fun cell ho => h.game cell (hc ho)⟩

/-- A diagnostic goes to the log alone. -/
theorem World.Plain.report {w : World Stage} (h : w.Plain) (d : Diagnostic) :
    (w.report d).Plain := by
  obtain ⟨h⟩ := h
  exact ⟨h⟩

/-- So do several. -/
theorem World.Plain.reportAll {w : World Stage} (h : w.Plain) (ds : List Diagnostic) :
    (w.reportAll ds).Plain := by
  induction ds generalizing w with
  | nil => exact h
  | cons d rest ih => exact ih (h.report d)

namespace World.InStep

variable {cells others : List Cell} {w w' v v' : World Stage}

/-- Where nothing happens, plain worlds stay in step. -/
theorem refl (cells : List Cell) (hw : w.Plain) (hw' : w'.Plain) : InStep cells w w' w w' :=
  ⟨hw, hw', .refl cells _ _⟩

/-- The games alone have moved. -/
theorem of_game (hw : w.Plain) (hw' : w'.Plain) {g g' : GameState}
    (h : GameState.InStep cells w.game w'.game g g') :
    InStep cells w w' { w with game := g } { w' with game := g' } := by
  obtain ⟨hforetold⟩ := hw
  obtain ⟨hforetold'⟩ := hw'
  exact ⟨⟨h.left.trans hforetold⟩, ⟨h.right.trans hforetold'⟩, h⟩

/-- More places may have been written. -/
theorem mono (h : InStep cells w w' v v') (hc : cells ⊆ others) : InStep others w w' v v' :=
  ⟨h.left, h.right, ⟨h.game.left, h.game.right,
    fun cell => (h.game.places cell).imp_right (And.imp_left (hc ·))⟩⟩

/-- Diagnostics do not matter. -/
theorem report (h : InStep cells w w' v v') (d d' : Diagnostic) :
    InStep cells w w' (v.report d) (v'.report d') :=
  ⟨h.left.report d, h.right.report d', h.game⟩

/-- Worlds that move in step agree where they agreed. -/
theorem agree (h : InStep cells w w' v v') {others : List Cell} (hg : w.Agree others w') :
    v.Agree others v' := by
  refine ⟨h.left, h.right, ?_⟩
  intro cell hc
  rcases h.game.places cell with ⟨hv, hv'⟩ | ⟨-, heq⟩
  · rw [hv, hv']
    exact hg.game cell hc
  · exact heq

/-- A world that moves in step with itself is left alone wherever nothing is written. -/
theorem agree_of_disjoint (h : InStep cells w w v v') {u : World Stage}
    (hg : u.Agree others w) (hd : ∀ cell ∈ cells, cell ∉ others) : u.Agree others v := by
  refine ⟨hg.left, h.left, ?_⟩
  intro cell hc
  rcases h.game.places cell with ⟨hv, -⟩ | ⟨hwritten, -⟩
  · rw [hv]
    exact hg.game cell hc
  · exact absurd hc (hd cell hwritten)

end World.InStep

end EventScript
