import EventScript.Proofs.Program.Nesting
import EventScript.Program.Basic

/-!
# Block-structured programs

A tree is a program without jumps: basic commands, branches, loops, breaks and exits, with
the statement after each as part of it. `flatten` is the list of commands that an author
writes for it, with every marker enabled. `enclosing` names the loops around a position of
that list.
-/

namespace EventScript

/-- The kinds that leave the cursor to go on with the next command. -/
def Kind.isBasic : Kind → Bool
  | .conditionalBranch | .elseBranch | .endIf | .loop | .breakLoop | .endLoop | .jumpToLabel
  | .exitEventProcessing => false
  | _ => true

/-- A basic command as it is written. -/
structure Leaf where
  name : String
  enabled : Bool := true
  action : Action
  basic : action.kind.isBasic = true

namespace Leaf

/-- The command before any run. -/
def command (l : Leaf) : Command := { name := l.name, enabled := l.enabled, action := l.action }

/-- A basic command wants the next one, whatever it remembers. -/
theorem motion_eq (l : Leaf) (memory : Memory) : l.action.motion memory = .next := by
  obtain ⟨_, _, action, hbasic⟩ := l
  cases action <;> first | rfl | cases hbasic

/-- A basic command is no marker. -/
theorem isMarker_kind (l : Leaf) : l.command.kind.isMarker = false := by
  obtain ⟨_, _, action, hbasic⟩ := l
  cases action <;> first | rfl | cases hbasic

end Leaf

/-- A block-structured program. -/
inductive Tree where
  | done
  | basic (l : Leaf) (next : Tree)
  | ifThen (set : ConditionSet) (yes next : Tree)
  | ifElse (set : ConditionSet) (yes no next : Tree)
  | loop (body next : Tree)
  | breakLoop (next : Tree)
  | exit (next : Tree)

namespace Tree

/-- The list of commands of a tree. -/
def flatten : Tree → List Command
  | done => []
  | basic l next => l.command :: next.flatten
  | ifThen set yes next =>
    .ofAction (.conditionalBranch set) :: (yes.flatten ++ .ofAction .endIf :: next.flatten)
  | ifElse set yes no next =>
    .ofAction (.conditionalBranch set) ::
      (yes.flatten ++ .ofAction .elseBranch :: (no.flatten ++ .ofAction .endIf :: next.flatten))
  | loop body next =>
    .ofAction .loop :: (body.flatten ++ .ofAction .endLoop :: next.flatten)
  | breakLoop next => .ofAction .breakLoop :: next.flatten
  | exit next => .ofAction .exitEventProcessing :: next.flatten

/-- The commands of a tree are idle and remember nothing. -/
theorem reset_flatten (t : Tree) : t.flatten.map Command.reset = t.flatten := by
  induction t with
  | done => rfl
  | basic l next ih | breakLoop next ih | exit next ih =>
    rw [flatten, List.map_cons, ih]
    rfl
  | ifThen set yes next ihbody ih | loop yes next ihbody ih =>
    rw [flatten, List.map_cons, List.map_append, List.map_cons, ihbody, ih]
    rfl
  | ifElse set yes no next ihyes ihno ih =>
    rw [flatten, List.map_cons, List.map_append, List.map_cons, List.map_append, List.map_cons,
      ihyes, ihno, ih]
    rfl

/-- Number of commands of a tree. -/
def size (t : Tree) : Nat := t.flatten.length

/-- The end of a tree is no command. -/
@[simp] theorem size_done : done.size = 0 := rfl

/-- A basic command is one command. -/
@[simp] theorem size_basic (l : Leaf) (next : Tree) : (basic l next).size = next.size + 1 := rfl

/-- A branch has a command at either end of its body. -/
@[simp] theorem size_ifThen (set : ConditionSet) (yes next : Tree) :
    (ifThen set yes next).size = yes.size + next.size + 2 := by
  simp only [size, flatten, List.length_cons, List.length_append]
  omega

/-- With an alternative there is one more between the bodies. -/
@[simp] theorem size_ifElse (set : ConditionSet) (yes no next : Tree) :
    (ifElse set yes no next).size = yes.size + no.size + next.size + 3 := by
  simp only [size, flatten, List.length_cons, List.length_append]
  omega

/-- A loop has a command at either end of its body. -/
@[simp] theorem size_loop (body next : Tree) :
    (loop body next).size = body.size + next.size + 2 := by
  simp only [size, flatten, List.length_cons, List.length_append]
  omega

/-- A break is one command. -/
@[simp] theorem size_breakLoop (next : Tree) : (breakLoop next).size = next.size + 1 := rfl

/-- An exit is one command. -/
@[simp] theorem size_exit (next : Tree) : (exit next).size = next.size + 1 := rfl

/-- The kinds of the commands of a tree. -/
def kinds (t : Tree) : List Kind := t.flatten.map Command.kind

/-- There are as many kinds as commands. -/
@[simp] theorem length_kinds (t : Tree) : t.kinds.length = t.size := List.length_map _

/-- The kinds of a branch enclose those of its body. -/
theorem kinds_ifThen (set : ConditionSet) (yes next : Tree) :
    (ifThen set yes next).kinds =
      .conditionalBranch :: yes.kinds ++ [.endIf] ++ next.kinds := by
  simp [kinds, flatten, Command.kind, Command.ofAction, Action.kind]

/-- With an alternative they enclose those of both bodies. -/
theorem kinds_ifElse (set : ConditionSet) (yes no next : Tree) :
    (ifElse set yes no next).kinds =
      .conditionalBranch :: yes.kinds ++ .elseBranch :: no.kinds ++ [.endIf] ++ next.kinds := by
  simp [kinds, flatten, Command.kind, Command.ofAction, Action.kind]

/-- The kinds of a loop enclose those of its body. -/
theorem kinds_loop (body next : Tree) :
    (loop body next).kinds = .loop :: body.kinds ++ [.endLoop] ++ next.kinds := by
  simp [kinds, flatten, Command.kind, Command.ofAction, Action.kind]

/-- The commands of a tree are well nested. -/
theorem balanced (t : Tree) : Balanced t.kinds := by
  induction t with
  | done => exact .empty
  | basic l next ih => exact .sequence (.plain l.isMarker_kind) ih
  | ifThen set yes next ihyes ih =>
    rw [kinds_ifThen]
    exact .sequence (.ifThen ihyes) ih
  | ifElse set yes no next ihyes ihno ih =>
    rw [kinds_ifElse]
    exact .sequence (.ifElse ihyes ihno) ih
  | loop body next ihbody ih =>
    rw [kinds_loop]
    exact .sequence (.loop ihbody) ih
  | breakLoop next ih => exact .sequence (.plain rfl) ih
  | exit next ih => exact .sequence (.plain rfl) ih

/-! ### Loops around a position -/

/-- The loops of a tree that stands at `index`, each with the indices of its opener and its
end, in the order of the text. -/
def loopsFrom (index : Nat) : Tree → List (Nat × Nat)
  | done => []
  | basic _ next => next.loopsFrom (index + 1)
  | ifThen _ yes next => yes.loopsFrom (index + 1) ++ next.loopsFrom (index + yes.size + 2)
  | ifElse _ yes no next =>
    yes.loopsFrom (index + 1) ++ (no.loopsFrom (index + yes.size + 2) ++
      next.loopsFrom (index + yes.size + no.size + 3))
  | loop body next =>
    (index, index + body.size + 1) ::
      (body.loopsFrom (index + 1) ++ next.loopsFrom (index + body.size + 2))
  | breakLoop next => next.loopsFrom (index + 1)
  | exit next => next.loopsFrom (index + 1)

/-- The openers of the loops around a cursor in a tree that stands at `index`, outermost
first: the cursor is behind the opener and not behind the end. -/
def enclosingFrom (index cursor : Nat) (t : Tree) : List Nat :=
  ((t.loopsFrom index).filter fun l => l.1 < cursor && cursor ≤ l.2).map Prod.fst

/-- The openers of the loops around a cursor, outermost first. -/
def enclosing (t : Tree) (cursor : Nat) : List Nat := t.enclosingFrom 0 cursor

/-- The loops of a tree lie within it. -/
theorem loopsFrom_within {t : Tree} {index : Nat} {l : Nat × Nat} (h : l ∈ t.loopsFrom index) :
    index ≤ l.1 ∧ l.2 < index + t.size := by
  induction t generalizing index with
  | done => cases h
  | basic _ next ih | breakLoop next ih | exit next ih =>
    have := ih h
    simp only [size_basic, size_breakLoop, size_exit]
    omega
  | ifThen set yes next ihyes ih =>
    rw [size_ifThen]
    rcases List.mem_append.mp h with h | h
    · have := ihyes h
      omega
    · have := ih h
      omega
  | ifElse set yes no next ihyes ihno ih =>
    rw [size_ifElse]
    rcases List.mem_append.mp h with h | h
    · have := ihyes h
      omega
    · rcases List.mem_append.mp h with h | h
      · have := ihno h
        omega
      · have := ih h
        omega
  | loop body next ihbody ih =>
    rw [size_loop]
    rcases List.mem_cons.mp h with rfl | h
    · exact ⟨Nat.le_refl _, by dsimp only; omega⟩
    · rcases List.mem_append.mp h with h | h
      · have := ihbody h
        omega
      · have := ih h
        omega

/-- No loop of a tree encloses a cursor that is not behind the first command. -/
theorem enclosingFrom_before (t : Tree) {index cursor : Nat} (h : cursor ≤ index) :
    t.enclosingFrom index cursor = [] := by
  rw [enclosingFrom, List.map_eq_nil_iff, List.filter_eq_nil_iff]
  intro l hl
  have := loopsFrom_within hl
  simp only [Bool.and_eq_true, decide_eq_true_eq]
  omega

/-- No loop of a tree encloses a cursor behind the last command. -/
theorem enclosingFrom_behind (t : Tree) {index cursor : Nat} (h : index + t.size ≤ cursor) :
    t.enclosingFrom index cursor = [] := by
  rw [enclosingFrom, List.map_eq_nil_iff, List.filter_eq_nil_iff]
  intro l hl
  have := loopsFrom_within hl
  simp only [Bool.and_eq_true, decide_eq_true_eq]
  omega

end Tree

end EventScript
