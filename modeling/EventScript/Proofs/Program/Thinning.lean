import EventScript.Proofs.Program.Validation

/-!
# Lists with commands left out

An action that opens, closes, names and jumps to nothing is only counted by the check. A list
from which such actions are left out is judged like the whole list: it is accepted if that one
is, and else rejected for the same reason, with every position moved down by the number of
actions left out before it.
-/

namespace EventScript

/-- The error with its positions moved. -/
def ProgramError.relocate (f : Nat → Nat) : ProgramError → ProgramError
  | .unmatchedMarker i marker => .unmatchedMarker (f i) marker
  | .duplicateElse i branch => .duplicateElse (f i) (f branch)
  | .breakOutsideLoop i => .breakOutsideLoop (f i)
  | .unterminatedBlock i opener => .unterminatedBlock (f i) opener
  | .unknownLabel i label => .unknownLabel (f i) label
  | .duplicateLabel i label first => .duplicateLabel (f i) label (f first)

/-- The block with its positions moved. -/
def Block.relocate (f : Nat → Nat) : Block → Block
  | branch i own => branch (f i) (own.map f)
  | loop i => loop (f i)

/-- The check only counts the action. -/
def Action.Plain (a : Action) : Prop := ∀ o : Outline, o.step a = .ok o.advance

/-- Where a position is once some of the actions before it are left out. -/
def Program.thinned (dropped : Action → Bool) (actions : List Action) (i : Nat) : Nat :=
  i - (actions.take i).countP dropped

namespace Program

variable {dropped : Action → Bool} (seen rest : List Action) {a : Action}

private theorem thinned_at :
    thinned dropped (seen ++ rest) seen.length = seen.length - seen.countP dropped := by
  rw [thinned, List.take_left]

private theorem thinned_succ : thinned dropped (seen ++ a :: rest) (seen.length + 1) =
    seen.length + 1 - (seen.countP dropped + if dropped a then 1 else 0) := by
  rw [thinned, List.take_length_add_append, List.take_succ_cons, List.take_zero,
    List.countP_append, List.countP_singleton]

/-- Behind an action that stays the next position is one further on. -/
theorem thinned_of_kept (h : dropped a = false) :
    thinned dropped (seen ++ a :: rest) (seen.length + 1) =
      thinned dropped (seen ++ a :: rest) seen.length + 1 := by
  have hle := List.countP_le_length (p := dropped) (l := seen)
  rw [thinned_at, thinned_succ, h, if_neg Bool.false_ne_true]
  omega

/-- Behind an action left out the next position is the same. -/
theorem thinned_of_dropped (h : dropped a = true) :
    thinned dropped (seen ++ a :: rest) (seen.length + 1) =
      thinned dropped (seen ++ a :: rest) seen.length := by
  rw [thinned_at, thinned_succ, h, if_pos rfl]
  omega

end Program

/-- One outcome is the other one with its positions moved: so is its error, and its result is
related to that of the other. -/
inductive Moved {α : Type} (f : Nat → Nat) (R : α → α → Prop) :
    Except ProgramError α → Except ProgramError α → Prop
  | ok {a b : α} (h : R a b) : Moved f R (.ok a) (.ok b)
  | error (e : ProgramError) : Moved f R (.error e) (.error (e.relocate f))

namespace Moved

variable {α : Type} {f : Nat → Nat} {R : α → α → Prop} {x y : Except ProgramError α}

/-- Both outcomes are results or none is. -/
theorem ok_iff (h : Moved f R x y) : (∃ a, x = .ok a) ↔ ∃ b, y = .ok b := by
  cases h <;> simp

/-- The errors of the second outcome are those of the first. -/
theorem error_iff (h : Moved f R x y) (e' : ProgramError) :
    y = .error e' ↔ ∃ e, x = .error e ∧ e' = e.relocate f := by
  cases h <;> simp [eq_comm]

end Moved

namespace Outline

/-- An outline is another one with its positions moved. -/
structure Relocates (f : Nat → Nat) (o o' : Outline) : Prop where
  index : o'.index = f o.index
  blocks : o'.blocks = o.blocks.map (Block.relocate f)
  labels : ∀ name, o'.labels.find? name = (o.labels.find? name).map f
  jumps : o'.jumps = o.jumps.map (Prod.map f id)

variable {f : Nat → Nat} {o o' : Outline}

private theorem isLoop_relocate (f : Nat → Nat) (b : Block) : (b.relocate f).isLoop = b.isLoop := by
  cases b <;> rfl

/-- Counting one action, which is one more position in both, keeps the relation. -/
theorem Relocates.advance (h : Relocates f o o') (hf : f (o.index + 1) = f o.index + 1) :
    Relocates f o.advance o'.advance :=
  ⟨by rw [Outline.advance, Outline.advance, h.index, hf], h.blocks, h.labels, h.jumps⟩

/-- An action that stays in the list is accepted by both or refused by both. -/
theorem Relocates.step (h : Relocates f o o') (hf : f (o.index + 1) = f o.index + 1)
    (a : Action) : Moved f (Relocates f) (o.step a) (o'.step a) := by
  have hadvance := h.advance hf
  obtain ⟨index, blocks, labels, jumps⟩ := o
  obtain ⟨_, _, labels', _⟩ := o'
  obtain ⟨rfl, rfl, hlabels, rfl⟩ := h
  cases a with
  | conditionalBranch | loop => exact .ok ⟨hf.symm, rfl, hlabels, rfl⟩
  | elseBranch | endIf | endLoop =>
    rcases blocks with _ | ⟨⟨i, _ | own⟩ | i, rest⟩
    all_goals first | exact .error _ | exact .ok ⟨hf.symm, rfl, hlabels, rfl⟩
  | breakLoop =>
    simp only [Outline.step, List.any_map, Function.comp_def, isLoop_relocate]
    split
    · exact .ok hadvance
    · exact .error _
  | label name =>
    have hname := hlabels name
    simp only [Outline.step]
    cases hfind : labels.find? name with
    | some first =>
      rw [hfind] at hname
      rw [hname]
      exact .error _
    | none =>
      rw [hfind] at hname
      rw [hname]
      refine .ok ⟨hf.symm, rfl, fun name' => ?_, rfl⟩
      simp only [Outline.advance, Table.find?_insert]
      split
      · rfl
      · exact hlabels name'
  | jumpToLabel label => exact .ok ⟨hf.symm, rfl, hlabels, rfl⟩
  | _ => exact .ok hadvance

/-- The labels found are those of the other list, at the positions where they are now. -/
def LabelsMoved (f : Nat → Nat) (labels labels' : Labels) : Prop :=
  ∀ name, labels'.find? name = (labels.find? name).map f

/-- The end is accepted by both or refused by both. -/
theorem Relocates.finish (h : Relocates f o o') :
    Moved f (LabelsMoved f) o.finish o'.finish := by
  obtain ⟨index, blocks, labels, jumps⟩ := o
  obtain ⟨_, _, labels', _⟩ := o'
  obtain ⟨-, rfl, hlabels, rfl⟩ := h
  cases blocks with
  | cons b rest =>
    cases b with
    | branch i own => exact .error (.unterminatedBlock i .conditionalBranch)
    | loop i => exact .error (.unterminatedBlock i .loop)
  | nil =>
    have hcontains (name : String) : labels'.contains name = labels.contains name := by
      rw [Table.contains, Table.contains, hlabels, Option.isSome_map]
    simp only [Outline.finish, List.map_nil, ← List.map_reverse, List.find?_map, Function.comp_def,
      Prod.map_snd, id_eq, hcontains]
    cases jumps.reverse.find? fun j => !labels.contains j.2 with
    | some j => exact .error (.unknownLabel j.1 j.2)
    | none => exact .ok hlabels

/-- Where `o` has seen the actions before and `o'` those of them that stay, the rest is judged
with and without the actions left out. -/
theorem Relocates.check {dropped : Action → Bool} (hplain : ∀ a, dropped a = true → a.Plain)
    {all seen rest : List Action} (hall : all = seen ++ rest) (hi : o.index = seen.length)
    (h : Relocates (Program.thinned dropped all) o o') :
    Moved (Program.thinned dropped all) (LabelsMoved (Program.thinned dropped all))
      (o.check rest) (o'.check (rest.filter fun a => !dropped a)) := by
  induction rest generalizing o o' seen with
  | nil => exact h.finish
  | cons a rest ih =>
    have hnext : all = seen ++ [a] ++ rest := by rw [hall, List.append_assoc]; rfl
    cases hd : dropped a with
    | true =>
      have hsame := Program.thinned_of_dropped seen rest hd
      rw [← hall, ← hi] at hsame
      rw [List.filter_cons_of_neg (by simp [hd]), Outline.check, hplain a hd o]
      apply ih hnext (by rw [Outline.advance, hi, List.length_append, List.length_singleton])
      exact ⟨by rw [Outline.advance, h.index, hsame], h.blocks, h.labels, h.jumps⟩
    | false =>
      have hlater := Program.thinned_of_kept seen rest hd
      rw [← hall, ← hi] at hlater
      have hstep := h.step hlater a
      rw [List.filter_cons_of_pos (by simp [hd]), Outline.check, Outline.check]
      cases hs : o.step a with
      | error e =>
        rw [hs] at hstep
        generalize o'.step a = outcome at hstep ⊢
        cases hstep
        exact .error e
      | ok mid =>
        have hindex := (step_grows hs).index
        rw [hs] at hstep
        generalize o'.step a = outcome at hstep ⊢
        cases hstep with
        | ok hmid =>
          apply ih hnext _ hmid
          rw [hindex, hi, List.length_append, List.length_singleton]

end Outline

/-- Leaving out actions that are only counted changes no verdict but for the positions. -/
theorem Program.validate_filter (dropped : Action → Bool)
    (hplain : ∀ a, dropped a = true → a.Plain) (actions : List Action) :
    Moved (thinned dropped actions) (Outline.LabelsMoved (thinned dropped actions))
      (validate actions) (validate (actions.filter fun a => !dropped a)) := by
  apply Outline.Relocates.check hplain (List.nil_append actions).symm rfl
  exact ⟨rfl, rfl, fun _ => rfl, rfl⟩

end EventScript
