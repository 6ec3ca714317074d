import EventScript.Proofs.Isolation.InStep

/-!
# Commands that run in step

A tick of one command in two plain worlds that agree on what the command mentions brings the same
in both, and moves their games in step. Aborting a command does not touch a plain world.
-/

namespace EventScript

/-- Two ticks of an action brought the same and moved the games in step. -/
structure Performed.InStep (cells : List Cell) (w w' : World Stage)
    (done done' : Performed Stage) : Prop where
  result : done.result = done'.result
  memory : done.memory = done'.memory
  world : World.InStep cells w w' done.world done'.world

/-- Two ticks of a command brought the same and moved the games in step. -/
structure Ran.InStep (cells : List Cell) (w w' : World Stage) (ran ran' : Ran Stage) : Prop where
  result : ran.result = ran'.result
  command : ran.command = ran'.command
  world : World.InStep cells w w' ran.world ran'.world

variable {w w' : World Stage} {owner : Owner}

/-- A message on a plain stage is closed when it is polled. -/
theorem pollMessage_inStep (hw : w.Plain) (hw' : w'.Plain) (cells : List Cell) (handle : Handle)
    (memory : Memory) :
    Performed.InStep cells w w' (pollMessage handle memory w) (pollMessage handle memory w') := by
  obtain ⟨hforetold⟩ := hw
  obtain ⟨hforetold'⟩ := hw'
  exact ⟨rfl, rfl, .refl cells ⟨hforetold⟩ ⟨hforetold'⟩⟩

/-- A prompt on a plain stage is cancelled when it is polled, and stores what that stands for. -/
theorem ShowChoices.poll_inStep {p : ShowChoices} {cells : List Cell}
    (hc : .variable p.resultVariable ∈ cells) (hw : w.Plain) (hw' : w'.Plain) (handle : Handle)
    (memory : Memory) :
    Performed.InStep cells w w' (p.poll handle memory w) (p.poll handle memory w') := by
  have hput := World.InStep.of_game hw hw'
    (.put (.variable p.resultVariable) hc (p.cancelIndex.getD (-1)) w.game w'.game)
  obtain ⟨hforetold⟩ := hw
  obtain ⟨hforetold'⟩ := hw'
  exact ⟨rfl, rfl, hput⟩

namespace Action

/-- A first tick of an action. -/
theorem start_inStep {a : Action} (h : w.Agree (a.mentions owner).footprint w') (memory : Memory) :
    Performed.InStep (a.mentions owner).writes w w' (a.start owner memory w)
      (a.start owner memory w') := by
  obtain ⟨hw, hw', hgame⟩ := h
  have hsilent : World.InStep (a.mentions owner).writes w w' w w' := .refl _ hw hw'
  cases a with
  | controlSwitches p =>
    refine ⟨rfl, rfl, .of_game hw hw' (ControlSwitches.run_inStep ?_ ?_)⟩
    · intro name hname
      exact Mentions.mem_writes (m := ⟨.target, .switch name⟩) (List.mem_map_of_mem hname) rfl
    · intro name hname
      exact hgame _ (Mentions.mem_footprint (m := ⟨.target, .switch name⟩)
        (List.mem_map_of_mem hname))
  | controlVariables p =>
    have htarget : w.game.getVariable p.target = w'.game.getVariable p.target :=
      hgame _ (Mentions.mem_footprint (m := ⟨.target, .variable p.target⟩) List.mem_cons_self)
    have hoperand : p.operand.value w.game = p.operand.value w'.game :=
      Operand.value_eq fun m hm => hgame _ (Mentions.mem_footprint (List.mem_cons_of_mem _ hm))
    simp only [start, htarget, hoperand]
    cases p.compute (w'.game.getVariable p.target) (p.operand.value w'.game) with
    | error e => exact ⟨rfl, rfl, hsilent⟩
    | ok value =>
      exact ⟨rfl, rfl, .of_game hw hw'
        (.put (.variable p.target) List.mem_cons_self value w.game w'.game)⟩
  | controlSelfSwitch p =>
    exact ⟨rfl, rfl, .of_game hw hw' (.put (.selfSwitch owner p.name)
      (List.mem_singleton_self _) p.value w.game w'.game)⟩
  | conditionalBranch set =>
    obtain ⟨hforetold⟩ := hw
    obtain ⟨hforetold'⟩ := hw'
    obtain ⟨houtcome, hevaluated⟩ := GameState.evaluate_inStep hforetold hforetold'
      (fun c hc => hgame _ (Mentions.mem_footprint (m := ⟨.condition, c.cell owner⟩)
        (List.mem_map_of_mem hc))) _
    exact ⟨rfl, congrArg (fun outcome => { memory with outcome := some outcome }) houtcome,
      .of_game ⟨hforetold⟩ ⟨hforetold'⟩ hevaluated⟩
  | showMessage p =>
    obtain ⟨speaker, text, waitForInput⟩ := p
    obtain ⟨hforetold⟩ := hw
    obtain ⟨hforetold'⟩ := hw'
    cases waitForInput <;> exact ⟨rfl, rfl, hsilent⟩
  | showChoices p =>
    obtain ⟨choices, resultVariable, cancelIndex⟩ := p
    cases choices with
    | nil => exact ⟨rfl, rfl, hsilent⟩
    | cons choice rest =>
      have hpoll := ShowChoices.poll_inStep (p := ⟨choice :: rest, resultVariable, cancelIndex⟩)
        (List.mem_singleton_self _) hw hw' 0 memory
      obtain ⟨hforetold⟩ := hw
      obtain ⟨hforetold'⟩ := hw'
      exact hpoll
  | transferPlayer | fadeScreen | shakeScreen =>
    obtain ⟨hforetold⟩ := hw
    obtain ⟨hforetold'⟩ := hw'
    exact ⟨rfl, rfl, hsilent⟩
  | _ => exact ⟨rfl, rfl, hsilent⟩

/-- A later tick of an action. -/
theorem resume_inStep (a : Action) (owner : Owner) (hw : w.Plain) (hw' : w'.Plain) (token : Token)
    (memory : Memory) :
    Performed.InStep (a.mentions owner).writes w w' (a.resume token memory w)
      (a.resume token memory w') := by
  cases a with
  | showMessage p => exact pollMessage_inStep hw hw' _ token memory
  | showChoices p => exact ShowChoices.poll_inStep (List.mem_singleton_self _) hw hw' token memory
  | _ => exact ⟨rfl, rfl, .refl _ hw hw'⟩

/-- Nothing is open on a plain stage, so there is nothing to give up. -/
theorem release_plain (a : Action) (memory : Memory) (hw : w.Plain) :
    (a.release memory w).2 = w := by
  obtain ⟨hforetold⟩ := hw
  unfold release
  split <;> rfl

end Action

namespace Command

/-- What has been performed in step is settled in step. -/
theorem settle_inStep {cells : List Cell} {done done' : Performed Stage}
    (h : done.InStep cells w w' done') (c : Command) :
    Ran.InStep cells w w' (c.settle done) (c.settle done') := by
  obtain ⟨result, memory, world⟩ := done
  obtain ⟨rfl, rfl, hworld⟩ := h
  exact ⟨rfl, rfl, hworld⟩

variable {c : Command}

/-- A first tick of a command. -/
theorem execute_inStep (h : w.Agree (c.action.mentions owner).footprint w') :
    Ran.InStep (c.action.mentions owner).writes w w' (c.execute owner w) (c.execute owner w') := by
  unfold execute
  split
  · exact settle_inStep (Action.start_inStep h c.memory) c
  · exact ⟨rfl, rfl, .refl _ h.left h.right⟩

/-- A later tick of a command. -/
theorem resume_inStep (c : Command) (owner : Owner) (hw : w.Plain) (hw' : w'.Plain)
    (token : Token) :
    Ran.InStep (c.action.mentions owner).writes w w' (c.resume token w) (c.resume token w') := by
  unfold resume
  split
  · exact settle_inStep (c.action.resume_inStep owner hw hw' token c.memory) c
  · exact ⟨rfl, rfl, .refl _ hw hw'⟩

/-- Aborting a command does not touch a plain world. -/
theorem abort_plain (c : Command) (hw : w.Plain) : (c.abort w).2.2 = w := by
  unfold abort
  cases c.phase with
  | executing => exact c.action.release_plain c.memory hw
  | idle | complete | aborted => rfl

end Command

end EventScript
