import EventScript.Proofs.Structured.Acceptance
import EventScript.Proofs.Structured.Simulation

/-!
# The interpreter runs structured programs as they are meant

What a tick does, any number of ticks do: from its start on a watched interpreter stays
along the run of its tree, and every step of the run is taken after some ticks. So it shows
exactly the runs of the tree.
-/

namespace EventScript

/-- What is seen of the runs of a tree: the events and the game at any point of the run, and
at its end the reason. -/
def Tree.Shows (T : Tree) (owner : Owner) (g : GameState) (tr : List Event) (g' : GameState) :
    Option CompletionReason → Prop
  | none => Exec owner T g tr g' .cut
  | some .endOfProgram => Exec owner T g tr g' .normal
  | some .exited => Exec owner T g tr g' .exited
  | some .faulted => False

namespace Watch

variable {T : Tree} {p : Program} {owner : Owner} {c : Config} {tr : List Event}
  {pending : Option Token} {s : Session} {w : Watch Stage}

private theorem goes_on_of_next {ev : List Event} {c' : Config}
    (hn : c.next owner = some (ev, c')) :
    ¬ (c.tree = .done ∧ c.conts = []) ∧ ∀ next, c.tree ≠ .exit next := by
  obtain ⟨t, ks, g⟩ := c
  constructor
  · rintro ⟨rfl, rfl⟩
    cases hn
  · rintro next rfl
    cases hn

private theorem Outcome.progress {ev : List Event} {c' : Config}
    (hn : c.next owner = some (ev, c')) (h : Outcome T p owner c tr pending w)
    (hwait : ∀ token s, Follows T p owner c tr (some token) s w →
      (∀ t, pending = some t → token < t) →
        ∃ n s', Follows T p owner c' (tr ++ ev) none s' (w.after n)) :
    ∃ n s', Follows T p owner c' (tr ++ ev) none s' (w.after n) := by
  have hne := goes_on_of_next hn
  cases h with
  | @steps ev' c'' s' hn' h' =>
    rw [hn] at hn'
    cases hn'
    exact ⟨0, s', h'⟩
  | @waits left s' h' hlt => exact hwait left s' h' hlt
  | ends ht hk => exact absurd ⟨ht, hk⟩ hne.1
  | exits ht => exact absurd ht (hne.2 _)

private theorem Follows.progress_waiting (hp : p.commands = T.flatten) (ha : p.Accepted)
    {ev : List Event} {c' : Config} (hn : c.next owner = some (ev, c')) {token : Token}
    (h : Follows T p owner c tr (some token) s w) :
    ∃ n s', Follows T p owner c' (tr ++ ev) none s' (w.after n) := by
  induction token using Nat.strongRecOn generalizing s w with
  | ind token ih =>
    obtain ⟨n, s', h'⟩ := (h.outcome hp ha).progress hn
      fun left s' h' hlt => ih left (hlt token rfl) h'
    exact ⟨1 + n, s', by rw [after_add]; exact h'⟩

/-- The step of a configuration is taken after some ticks. -/
theorem Follows.progress (hp : p.commands = T.flatten) (ha : p.Accepted) {ev : List Event}
    {c' : Config} (hn : c.next owner = some (ev, c')) (h : Follows T p owner c tr none s w) :
    ∃ n s', Follows T p owner c' (tr ++ ev) none s' (w.after n) := by
  obtain ⟨n, s', h'⟩ := (h.outcome hp ha).progress hn
    fun _ _ h' _ => h'.progress_waiting hp ha hn
  exact ⟨1 + n, s', by rw [after_add]; exact h'⟩

/-- Every configuration that steps lead to is followed after some ticks. -/
theorem Follows.leads (hp : p.commands = T.flatten) (ha : p.Accepted) {tr' : List Event}
    {c' : Config} (hl : Config.Leads owner c tr' c') (h : Follows T p owner c tr none s w) :
    ∃ n s', Follows T p owner c' (tr ++ tr') none s' (w.after n) := by
  induction hl generalizing tr s w with
  | refl => exact ⟨0, s, by rw [List.append_nil]; exact h⟩
  | step hn _ ih =>
    obtain ⟨m, s', h'⟩ := h.progress hp ha hn
    obtain ⟨n, s'', h''⟩ := ih h'
    refine ⟨m + n, s'', ?_⟩
    rw [after_add, ← List.append_assoc]
    exact h''

/-- Behind the last statement the session ends. -/
theorem Follows.ends (hp : p.commands = T.flatten) (ha : p.Accepted) {g : GameState}
    (h : Follows T p owner ⟨.done, [], g⟩ tr none s w) : Ended tr g .endOfProgram w.tick := by
  cases h.outcome hp ha with
  | steps hn => cases hn
  | waits h' =>
    obtain ⟨l, next, ht, -⟩ := h'.program
    cases ht
  | ends _ _ h' => exact h'
  | exits ht => cases ht

/-- At an exit the session ends. -/
theorem Follows.exits (hp : p.commands = T.flatten) (ha : p.Accepted) {next : Tree}
    {ks : List Cont} {g : GameState} (h : Follows T p owner ⟨.exit next, ks, g⟩ tr none s w) :
    Ended tr g .exited w.tick := by
  cases h.outcome hp ha with
  | steps hn => cases hn
  | waits h' =>
    obtain ⟨l, next, ht, -⟩ := h'.program
    cases ht
  | ends ht => cases ht
  | exits _ h' => exact h'

/-- A watched interpreter at the start of a program stands at the start of its tree. -/
theorem follows_start {i : Interpreter} (notify : Bool)
    {services : Services Stage} (hlimit : i.config.maxTicks = none)
    (hhost : services.world.host.presenter = .none) :
    Follows T p i.owner ⟨T, [], services.world.game⟩ [] none (.start p notify)
      { interpreter := i.begin p notify, services } :=
  ⟨rfl, .root, rfl, rfl, rfl, rfl, hlimit, ⟨rfl, hhost⟩, rfl, rfl⟩

/-- Where a watched interpreter is in the run of a tree from a state of the game: in the
middle of it, or behind its end. -/
inductive Along (T : Tree) (p : Program) (owner : Owner) (g₀ : GameState) (w : Watch Stage) :
    Prop
  | running {c : Config} {tr : List Event} {pending : Option Token} {s : Session}
    (hl : Config.Leads owner ⟨T, [], g₀⟩ tr c) (h : Follows T p owner c tr pending s w)
  | ended {g : GameState} {tr : List Event}
    (hl : Config.Leads owner ⟨T, [], g₀⟩ tr ⟨.done, [], g⟩) (h : Ended tr g .endOfProgram w)
  | exited {next : Tree} {ks : List Cont} {g : GameState} {tr : List Event}
    (hl : Config.Leads owner ⟨T, [], g₀⟩ tr ⟨.exit next, ks, g⟩) (h : Ended tr g .exited w)

/-- A tick stays along the run. -/
theorem Along.tick (hp : p.commands = T.flatten) (ha : p.Accepted) {g₀ : GameState}
    (h : Along T p owner g₀ w) : Along T p owner g₀ w.tick := by
  cases h with
  | @running c tr pending s hl h =>
    cases h.outcome hp ha with
    | steps hn h' => exact .running (hl.snoc hn) h'
    | waits h' => exact .running hl h'
    | ends ht hk h' =>
      obtain ⟨t, ks, g⟩ := c
      subst ht hk
      exact .ended hl h'
    | exits ht h' =>
      obtain ⟨t, ks, g⟩ := c
      subst ht
      exact .exited hl h'
  | ended hl h => exact .ended hl h.tick
  | exited hl h => exact .exited hl h.tick

/-- Every number of ticks stays along the run. -/
theorem Along.after (hp : p.commands = T.flatten) (ha : p.Accepted) {g₀ : GameState}
    (h : Along T p owner g₀ w) (n : Nat) : Along T p owner g₀ (w.after n) := by
  induction n with
  | zero => exact h
  | succ n ih => exact ih.tick hp ha

/-- What is seen along a run is seen of the tree. -/
theorem Along.shows {g₀ : GameState} (h : Along T p owner g₀ w) :
    T.Shows owner g₀ w.trace w.game w.ended := by
  cases h with
  | @running c tr pending s hl h =>
    have hgame : w.game = c.game := h.quiet.game
    rw [h.trace, h.ended, hgame]
    exact Config.exec_iff_arrives.mpr ⟨_, _, hl⟩
  | ended hl h =>
    rw [h.trace, h.ended, h.game]
    exact Config.exec_iff_arrives.mpr hl
  | exited hl h =>
    rw [h.trace, h.ended, h.game]
    exact Config.exec_iff_arrives.mpr ⟨_, _, hl⟩

/-- Along a run the control stack is the list of the loops that enclose the cursor. -/
theorem Along.enclosing {g₀ : GameState} (h : Along T p owner g₀ w)
    (hs : w.interpreter.session = some s) : s.stack.reverse = T.enclosing s.cursor := by
  cases h with
  | running _ h =>
    obtain rfl := Option.some.inj (h.session.symm.trans hs)
    exact h.focus.reverse_eq_enclosing
  | ended _ h | exited _ h =>
    rw [h.session] at hs
    cases hs

/-- What is seen of a tree is seen from its start on, after some ticks. -/
theorem Follows.shown (hp : p.commands = T.flatten) (ha : p.Accepted) {g₀ g : GameState}
    {ended : Option CompletionReason} (h : Follows T p owner ⟨T, [], g₀⟩ [] none s w)
    (hshows : T.Shows owner g₀ tr g ended) :
    ∃ n, (w.after n).trace = tr ∧ (w.after n).game = g ∧ (w.after n).ended = ended := by
  match ended, hshows with
  | none, hexec =>
    obtain ⟨t, ks, hl⟩ := Config.exec_iff_arrives.mp hexec
    obtain ⟨n, s', hf⟩ := h.leads hp ha hl
    exact ⟨n, hf.trace, hf.quiet.game, hf.ended⟩
  | some .endOfProgram, hexec =>
    obtain ⟨n, s', hf⟩ := h.leads hp ha (Config.exec_iff_arrives.mp hexec)
    have hend := hf.ends hp ha
    exact ⟨n + 1, hend.trace, hend.game, hend.ended⟩
  | some .exited, hexec =>
    obtain ⟨next, ks, hl⟩ := Config.exec_iff_arrives.mp hexec
    obtain ⟨n, s', hf⟩ := h.leads hp ha hl
    have hend := hf.exits hp ha
    exact ⟨n + 1, hend.trace, hend.game, hend.ended⟩

end Watch

/-- An interpreter without a tick limit, in a game that nobody else writes and with nothing
presented, shows exactly the runs of the structured program that it was started with, and its
control stack is at all times the list of the loops that enclose the cursor. `Tree.accepted`
tells which trees it can be started with. -/
theorem Interpreter.shows_tree {T : Tree} {p : Program}
    (hp : Program.ofCommands T.flatten = .ok p) (i : Interpreter) (notify : Bool)
    (services : Services Stage) (hlimit : i.config.maxTicks = none)
    (hhost : services.world.host.presenter = .none) :
    let w : Watch Stage := { interpreter := i.begin p notify, services }
    (∀ (tr : List Event) (g : GameState) (ended : Option CompletionReason),
      (∃ n, (w.after n).trace = tr ∧ (w.after n).game = g ∧ (w.after n).ended = ended) ↔
        T.Shows i.owner services.world.game tr g ended) ∧
    ∀ (n : Nat) (s : Session), (w.after n).interpreter.session = some s →
      s.stack.reverse = T.enclosing s.cursor := by
  intro w
  obtain ⟨hcommands, ha⟩ := Program.accepted_of_ofCommands hp
  have hstart : Watch.Follows T p i.owner ⟨T, [], services.world.game⟩ [] none
      (.start p notify) w := Watch.follows_start notify hlimit hhost
  have halong := Watch.Along.after hcommands ha (.running .refl hstart)
  constructor
  · intro tr g ended
    constructor
    · rintro ⟨n, rfl, rfl, rfl⟩
      exact (halong n).shows
    · exact hstart.shown hcommands ha
  · intro n s hs
    exact (halong n).enclosing hs

/-- A loop that turns a switch on and is left when it finds the switch on: eight ticks show
the whole run. -/
theorem Interpreter.shows_tree_loop :
    let light : Leaf :=
      { name := "Control Switches", action := .controlSwitches { switches := ["lit"] }
        basic := rfl }
    let lit : ConditionSet := .single (.switch "lit" true)
    let T : Tree := .loop (.ifElse lit (.breakLoop .done) (.basic light .done) .done) .done
    let services : Services Stage := ⟨{}, ⟨{}, {}⟩⟩
    let w : Watch Stage := { interpreter := Interpreter.begin {} ⟨T.flatten, {}⟩ true, services }
    Program.ofCommands T.flatten = .ok ⟨T.flatten, {}⟩ ∧
      T.Shows .global {} [.decided lit false, .ran light.command, .decided lit true]
        { switches := ⟨[("lit", true)]⟩, checks := 2 } (some .endOfProgram) ∧
      ∀ s, (w.after 3).interpreter.session = some s → s.stack.reverse = T.enclosing s.cursor := by
  intro light lit T services w
  have hp : Program.ofCommands T.flatten = .ok ⟨T.flatten, {}⟩ := rfl
  have h := shows_tree hp {} true services rfl rfl
  exact ⟨hp, (h.1 _ _ _).mp ⟨8, by decide +kernel, by decide +kernel, by decide +kernel⟩, h.2 3⟩

end EventScript
