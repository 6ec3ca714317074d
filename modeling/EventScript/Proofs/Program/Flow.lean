import EventScript.Proofs.Program.Scans
import EventScript.Proofs.Program.Validation

/-!
# Targets of moves

In an accepted program every move of the cursor has a target, and the target lies in the
program or just behind it. Frames of loops are dropped from the top of the control stack
until one encloses the position consulted, so what is left is an end piece of the stack.
-/

namespace EventScript

namespace Flow

open Nesting

variable {kinds : List Kind}

/-- Around a kind of a balanced sequence: the open blocks before it, after it, and what
closes them. -/
theorem nest_around (h : nest [] kinds = some []) {i : Nat} {k : Kind}
    (hk : kinds[i]? = some k) :
    ∃ st st', nest [] (kinds.take i) = some st ∧ st.step k = some st' ∧
      st'.nest (kinds.drop (i + 1)) = some [] := by
  obtain ⟨hi, rfl⟩ := List.getElem?_eq_some_iff.mp hk
  rw [← List.take_append_drop i kinds, List.drop_eq_getElem_cons hi] at h
  obtain ⟨st, hst, hrest⟩ := nest_append_eq_some.mp h
  obtain ⟨st', hstep, hrest⟩ := nest_cons_eq_some.mp hrest
  exact ⟨st, st', hst, hstep, hrest⟩

private theorem add_length_drop {i : Nat} {k : Kind} (hk : kinds[i]? = some k) :
    i + 1 + (kinds.drop (i + 1)).length = kinds.length := by
  obtain ⟨hi, -⟩ := List.getElem?_eq_some_iff.mp hk
  rw [List.length_drop]
  omega

/-- A false branch has a target behind it. -/
theorem skipFalseBranch_ok (h : nest [] kinds = some []) {i : Nat}
    (hk : kinds[i]? = some .conditionalBranch) :
    ∃ next, skipFalseBranch kinds i = .ok next ∧ i < next ∧ next ≤ kinds.length := by
  obtain ⟨st, st', -, hstep, hrest⟩ := nest_around h hk
  have hlen := add_length_drop hk
  obtain rfl := Option.some.inj hstep
  obtain ⟨next, hn, hlo, hhi⟩ := falseBranchPast_found hrest (d := 0)
    (by rw [branches, List.count_cons_self]; omega) (i + 1)
  exact ⟨next, by rw [skipFalseBranch, hn, target], by omega, by omega⟩

/-- The end of a true body has a target behind it. -/
theorem skipElseBody_ok (h : nest [] kinds = some []) {i : Nat}
    (hk : kinds[i]? = some .elseBranch) :
    ∃ next, skipElseBody kinds i = .ok next ∧ i < next ∧ next ≤ kinds.length := by
  obtain ⟨st, st', -, hstep, hrest⟩ := nest_around h hk
  have hlen := add_length_drop hk
  obtain ⟨below, -, rfl⟩ := step_elseBranch hstep
  obtain ⟨next, hn, hlo, hhi⟩ := closePast_found counts_branches hrest (d := 0)
    (by rw [branches, List.count_cons_self]; omega) (i + 1)
  exact ⟨next, by rw [skipElseBody, hn, target], by omega, by omega⟩

/-- A loop ends behind its opener. -/
theorem findLoopExit_of_loop (h : nest [] kinds = some []) {i : Nat}
    (hk : kinds[i]? = some .loop) :
    ∃ exit, findLoopExit kinds i = .ok exit ∧ i < exit ∧ exit ≤ kinds.length := by
  obtain ⟨st, st', -, hstep, hrest⟩ := nest_around h hk
  have hlen := add_length_drop hk
  obtain rfl := Option.some.inj hstep
  obtain ⟨exit, he, hlo, hhi⟩ := closePast_found counts_loops hrest (d := 0)
    (by rw [loops, List.count_cons_self]; omega) (i + 1)
  exact ⟨exit, by rw [findLoopExit, he, target], by omega, by omega⟩

/-- A loop that is open before a break ends behind the break. -/
theorem findLoopExit_of_open (h : nest [] kinds = some []) {i : Nat}
    (hk : kinds[i]? = some .breakLoop) (ho : LoopOpenAt kinds i) :
    ∃ exit, findLoopExit kinds i = .ok exit ∧ i < exit ∧ exit ≤ kinds.length := by
  obtain ⟨st, st', hst, hstep, hrest⟩ := nest_around h hk
  have hlen := add_length_drop hk
  rw [step_of_not_marker rfl] at hstep
  obtain rfl := Option.some.inj hstep
  obtain ⟨st', hst', hm⟩ := ho
  obtain rfl := Option.some.inj (hst.symm.trans hst')
  obtain ⟨exit, he, hlo, hhi⟩ := closePast_found counts_loops hrest (d := 0)
    (by rw [loops]; exact List.count_pos_iff.mpr hm) (i + 1)
  exact ⟨exit, by rw [findLoopExit, he, target], by omega, by omega⟩

/-! ### Frames -/

/-- The loop opened at `start` encloses a position. -/
def encloses (kinds : List Kind) (start position : Nat) : Bool :=
  match findLoopExit kinds start with
  | .ok exit => start < position && position < exit
  | .error _ => false

/-- A loop that encloses a position starts before it. -/
theorem lt_of_encloses {start position : Nat} (h : encloses kinds start position) :
    start < position := by
  unfold encloses at h
  split at h
  · rw [Bool.and_eq_true, decide_eq_true_eq] at h
    exact h.1
  · cases h

/-- Frames are dropped up to the first whose loop encloses the position. -/
theorem discardOutside_eq (position : Nat) {stack : ControlStack}
    (h : ∀ f ∈ stack, ∃ exit, findLoopExit kinds f = .ok exit) :
    discardOutside kinds position stack =
      (.ok (), stack.dropWhile fun f => !encloses kinds f position) := by
  induction stack with
  | nil => rfl
  | cons f rest ih =>
    obtain ⟨exit, he⟩ := h f (List.mem_cons_self ..)
    have ih := ih fun g hg => h g (List.mem_cons_of_mem f hg)
    simp only [discardOutside, he, List.dropWhile_cons, encloses]
    by_cases hin : f < position ∧ position < exit
    · simp [hin]
    · have hb : (decide (f < position) && decide (position < exit)) = false := by
        rw [← Bool.not_eq_true, Bool.and_eq_true, decide_eq_true_eq, decide_eq_true_eq]
        exact hin
      rw [if_neg hin, hb, ih]
      rfl

/-- A control stack at a cursor: every frame opens a loop before the cursor, and the
frames ascend from the outermost to the innermost. -/
structure Frames (kinds : List Kind) (cursor : Nat) (stack : ControlStack) : Prop where
  loops : ∀ f ∈ stack, kinds[f]? = some .loop
  before : ∀ f ∈ stack, f < cursor
  descending : stack.Pairwise (· > ·)

/-- An end piece of the stack fits every cursor behind its frames. -/
theorem Frames.suffix {cursor next : Nat} {stack rest : ControlStack}
    (hf : Frames kinds cursor stack) (hs : rest <:+ stack) (hb : ∀ f ∈ rest, f < next) :
    Frames kinds next rest :=
  ⟨fun f h => hf.loops f (hs.subset h), hb, hf.descending.sublist hs.sublist⟩

/-- The stack fits every later cursor. -/
theorem Frames.later {cursor next : Nat} {stack : ControlStack}
    (hf : Frames kinds cursor stack) (h : cursor ≤ next) : Frames kinds next stack :=
  hf.suffix (List.suffix_refl stack) fun f hm => Nat.lt_of_lt_of_le (hf.before f hm) h

/-- Entering a loop puts its frame on top. -/
theorem Frames.enter {cursor : Nat} {stack : ControlStack} (hf : Frames kinds cursor stack)
    (hk : kinds[cursor]? = some .loop) : Frames kinds (cursor + 1) (cursor :: stack) := by
  refine ⟨?_, ?_, List.pairwise_cons.mpr ⟨hf.before, hf.descending⟩⟩
  · intro f hm
    rcases List.mem_cons.mp hm with rfl | hm
    · exact hk
    · exact hf.loops f hm
  · intro f hm
    rcases List.mem_cons.mp hm with rfl | hm
    · exact Nat.lt_succ_self f
    · exact Nat.lt_succ_of_lt (hf.before f hm)

/-- The frames below the top one fit the cursor behind the top one. -/
theorem Frames.below {cursor start : Nat} {rest : ControlStack}
    (hf : Frames kinds cursor (start :: rest)) {next : Nat} (h : start ≤ next) :
    Frames kinds next rest := by
  apply hf.suffix (List.suffix_cons start rest)
  intro f hm
  have hlt := List.rel_of_pairwise_cons hf.descending hm
  omega

/-- What is left of the stack after frames were dropped for a position. -/
def enclosing (kinds : List Kind) (position : Nat) (stack : ControlStack) : ControlStack :=
  stack.dropWhile fun f => !encloses kinds f position

/-- Frames are dropped from the top. -/
theorem enclosing_suffix (kinds : List Kind) (position : Nat) (stack : ControlStack) :
    enclosing kinds position stack <:+ stack := List.dropWhile_suffix _

/-- The frames that are left start before the position. -/
theorem Frames.lt_of_mem_enclosing {cursor position : Nat} {stack : ControlStack}
    (hf : Frames kinds cursor stack) : ∀ f ∈ enclosing kinds position stack, f < position := by
  intro f hm
  cases he : enclosing kinds position stack with
  | nil => rw [he] at hm; cases hm
  | cons top rest =>
    have htop : encloses kinds top position := by
      have hn := List.head?_dropWhile_not (fun f => !encloses kinds f position) stack
      rw [enclosing] at he
      rw [he] at hn
      simpa using hn
    have hd := hf.descending.sublist (enclosing_suffix kinds position stack).sublist
    rw [he] at hm hd
    have hlt := lt_of_encloses htop
    rcases List.mem_cons.mp hm with rfl | hm
    · exact hlt
    · exact Nat.lt_trans (List.rel_of_pairwise_cons hd hm) hlt

end Flow

/-- Where the cursor goes, unless the session ends. -/
def Resolution.target (r : Resolution) (cursor : Nat) : Option Nat :=
  match r with
  | advance => some (cursor + 1)
  | moveTo index => some index
  | halt => none

namespace Program

open EventScript.Flow

/-- The actions of the commands. -/
def actions (p : Program) : List Action := p.commands.map Command.action

/-- The commands and labels of a program are those of an accepted list. -/
def Accepted (p : Program) : Prop := Admitted p.actions p.labels

/-- Every program comes from an accepted list. -/
theorem accepted_of_ofCommands {commands : List Command} {p : Program}
    (h : ofCommands commands = .ok p) : p.commands = commands ∧ p.Accepted := by
  unfold ofCommands at h
  cases hv : validate (commands.map Command.action) with
  | error e => rw [hv] at h; cases h
  | ok labels =>
    rw [hv] at h
    cases h
    exact ⟨rfl, Admitted.of_validate hv⟩

/-- The kinds are those of the actions. -/
theorem kinds_eq (p : Program) : p.kinds = p.actions.map Action.kind := by
  rw [kinds, actions, List.map_map]
  rfl

/-- The blocks of an accepted program are closed. -/
theorem Accepted.nest_kinds {p : Program} (ha : p.Accepted) :
    Nesting.nest [] p.kinds = some [] := by
  rw [kinds_eq]
  exact ha.closed

/-- There is a kind for every command. -/
theorem length_kinds (p : Program) : p.kinds.length = p.size := List.length_map _

/-- The action at an index is that of the command there. -/
theorem getElem?_actions {p : Program} {cursor : Nat} {c : Command}
    (hc : p.get? cursor = some c) : p.actions[cursor]? = some c.action := by
  rw [actions, List.getElem?_map]
  exact congrArg (Option.map Command.action) hc

/-- The kind at an index is that of the command there. -/
theorem getElem?_kinds {p : Program} {cursor : Nat} {c : Command}
    (hc : p.get? cursor = some c) : p.kinds[cursor]? = some c.kind := by
  rw [kinds, List.getElem?_map]
  exact congrArg (Option.map Command.kind) hc

variable {p : Program} {cursor : Nat} {c : Command} {stack : ControlStack}

/-- A move of the cursor is possible: it leaves a stack that fits where the cursor goes,
with no frame that is new but that of a loop which is entered. -/
structure Moves (p : Program) (cursor : Nat) (c : Command) (stack : ControlStack)
    (resolved : Except FlowError Resolution × ControlStack) : Prop where
  found : ∃ r, resolved.1 = .ok r ∧ ∀ next, r.target cursor = some next →
    next ≤ p.size ∧ Frames p.kinds next resolved.2
  frames : ∀ f ∈ resolved.2, f ∈ stack ∨ (f = cursor ∧ c.action = .loop)

private theorem moves_advance (hc : p.get? cursor = some c)
    (hf : Frames p.kinds cursor stack) {rest : ControlStack} (hs : rest <:+ stack) :
    p.Moves cursor c stack (.ok .advance, rest) := by
  obtain ⟨hlt, -⟩ := List.getElem?_eq_some_iff.mp hc
  refine ⟨⟨.advance, rfl, ?_⟩, fun f hm => .inl (hs.subset hm)⟩
  intro next hn
  cases hn
  refine ⟨hlt, hf.suffix hs fun f hm => ?_⟩
  exact Nat.lt_succ_of_lt (hf.before f (hs.subset hm))

private theorem moves_moveTo {rest : ControlStack} {next : Nat} (hle : next ≤ p.size)
    (hf : Frames p.kinds next rest) (hs : ∀ f ∈ rest, f ∈ stack) :
    p.Moves cursor c stack (moveTo (.ok next), rest) := by
  refine ⟨⟨.moveTo next, rfl, ?_⟩, fun f hm => .inl (hs f hm)⟩
  intro next' hn
  cases hn
  exact ⟨hle, hf⟩

/-- In an accepted program frames are dropped without an error. -/
theorem discardOutside_frames (ha : p.Accepted) (hf : Frames p.kinds cursor stack)
    (position : Nat) :
    discardOutside p.kinds position stack = (.ok (), enclosing p.kinds position stack) := by
  apply discardOutside_eq
  intro f hm
  have hn := ha.nest_kinds
  obtain ⟨exit, he, -⟩ := findLoopExit_of_loop hn (hf.loops f hm)
  exact ⟨exit, he⟩

private theorem breakLoop_moves (ha : p.Accepted) (hc : p.get? cursor = some c)
    (hb : c.action = .breakLoop) (hf : Frames p.kinds cursor stack) :
    p.Moves cursor c stack (p.resolve .breakLoop cursor stack) := by
  have hn := ha.nest_kinds
  have hs := enclosing_suffix p.kinds cursor stack
  simp only [resolve, Flow.resolve, discardOutside_frames ha hf]
  cases he : enclosing p.kinds cursor stack with
  | nil =>
    have hk := getElem?_kinds hc
    rw [Command.kind, hb] at hk
    have hopen := ha.breaks cursor (by rw [getElem?_actions hc, hb])
    rw [← kinds_eq] at hopen
    obtain ⟨exit, hexit, -, hle⟩ := findLoopExit_of_open hn hk hopen
    rw [hexit]
    rw [length_kinds] at hle
    exact moves_moveTo hle (hf.suffix List.nil_suffix (by simp)) (by simp)
  | cons start rest =>
    rw [he] at hs
    obtain ⟨exit, hexit, hlt, hle⟩ :=
      findLoopExit_of_loop hn (hf.loops start (hs.subset (List.mem_cons_self ..)))
    simp only [hexit]
    rw [length_kinds] at hle
    have hfits := hf.suffix hs fun f hm => hf.before f (hs.subset hm)
    exact moves_moveTo hle (hfits.below (Nat.le_of_lt hlt))
      fun f hm => hs.subset (List.mem_cons_of_mem start hm)

private theorem endLoop_moves (ha : p.Accepted) (hc : p.get? cursor = some c)
    (hf : Frames p.kinds cursor stack) :
    p.Moves cursor c stack (p.resolve .endLoop cursor stack) := by
  have hs := enclosing_suffix p.kinds cursor stack
  simp only [resolve, Flow.resolve, discardOutside_frames ha hf]
  cases he : enclosing p.kinds cursor stack with
  | nil => exact moves_advance hc hf List.nil_suffix
  | cons start rest =>
    rw [he] at hs
    dsimp only
    split
    · have hfits := hf.suffix hs fun f hm => hf.before f (hs.subset hm)
      have hstart := hfits.before start (List.mem_cons_self ..)
      obtain ⟨hlt, -⟩ := List.getElem?_eq_some_iff.mp hc
      have hnext : start + 1 ≤ p.size := Nat.le_trans hstart (Nat.le_of_lt hlt)
      have htop := hfits.below (Nat.le_refl start)
      have hentered := htop.enter (hfits.loops start (List.mem_cons_self ..))
      exact moves_moveTo hnext hentered fun f hm => hs.subset hm
    · exact moves_advance hc hf hs

private theorem jump_moves (ha : p.Accepted) (hc : p.get? cursor = some c) {label : String}
    (hj : c.action = .jumpToLabel label) (hf : Frames p.kinds cursor stack) :
    p.Moves cursor c stack (p.resolve (.jump label) cursor stack) := by
  obtain ⟨index, hindex⟩ := ha.jumps cursor label (by rw [getElem?_actions hc, hj])
  have hs := enclosing_suffix p.kinds index stack
  simp only [resolve, Flow.resolve, hindex, discardOutside_frames ha hf]
  obtain ⟨hlt, -⟩ := List.getElem?_eq_some_iff.mp ((ha.labelled label index).mp hindex)
  rw [actions, List.length_map] at hlt
  have hnext : index + 1 ≤ p.size := hlt
  have hframes := hf.suffix hs fun f hm => Nat.lt_succ_of_lt (hf.lt_of_mem_enclosing f hm)
  exact moves_moveTo hnext hframes fun f hm => hs.subset hm

/-- Whatever the command at the cursor wants, the move is possible. -/
theorem resolve_moves (ha : p.Accepted) (hc : p.get? cursor = some c) (memory : Memory)
    (hf : Frames p.kinds cursor stack) :
    p.Moves cursor c stack (p.resolve (c.action.motion memory) cursor stack) := by
  have hn := ha.nest_kinds
  have hk := getElem?_kinds hc
  have hself := List.suffix_refl stack
  rw [Command.kind] at hk
  cases hact : c.action with
  | conditionalBranch set =>
    simp only [Action.motion]
    split
    · rw [hact] at hk
      obtain ⟨next, hnext, hlt, hle⟩ := skipFalseBranch_ok hn hk
      rw [length_kinds] at hle
      simp only [resolve, Flow.resolve, hnext]
      exact moves_moveTo hle (hf.later (Nat.le_of_lt hlt)) fun f hm => hm
    · exact moves_advance hc hf hself
  | elseBranch =>
    rw [hact] at hk
    obtain ⟨next, hnext, hlt, hle⟩ := skipElseBody_ok hn hk
    rw [length_kinds] at hle
    simp only [Action.motion, resolve, Flow.resolve, hnext]
    exact moves_moveTo hle (hf.later (Nat.le_of_lt hlt)) fun f hm => hm
  | loop =>
    rw [hact] at hk
    obtain ⟨hlt, -⟩ := List.getElem?_eq_some_iff.mp hc
    refine ⟨⟨.advance, rfl, ?_⟩, ?_⟩
    · intro next hnext
      cases hnext
      exact ⟨hlt, hf.enter hk⟩
    · intro f hm
      rcases List.mem_cons.mp hm with rfl | hm
      · exact .inr ⟨rfl, hact⟩
      · exact .inl hm
  | breakLoop => exact breakLoop_moves ha hc hact hf
  | endLoop => exact endLoop_moves ha hc hf
  | jumpToLabel label => exact jump_moves ha hc hact hf
  | exitEventProcessing => exact ⟨⟨.halt, rfl, by rintro next ⟨⟩⟩, fun f hm => .inl hm⟩
  | _ => exact moves_advance hc hf hself

end Program

end EventScript
