import EventScript.Program.Basic
import EventScript.Proofs.Program.Enclosure

/-!
# What the check of a program accepts

The one pass over a command list keeps an outline. `Outline.Records` says what an outline
knows of the commands seen so far, and `Outline.step` keeps it. `Program.Admitted` is what
an accepted list has in terms of the open blocks, and `validate_accepts_iff` puts it into
the words of the grammar.
-/

namespace EventScript

/-- The markers that a block of the check still admits. -/
def Block.shape : Block → OpenBlock
  | .branch _ none => .branch
  | .branch _ (some _) => .alternative
  | .loop _ => .loop

namespace Outline

/-- The open blocks of an outline without their positions. -/
def nesting (o : Outline) : Nesting := o.blocks.map Block.shape

/-- An action fits after an outline. -/
structure Admits (o : Outline) (a : Action) : Prop where
  nest : ∃ st, o.nesting.step a.kind = some st
  inLoop : a = .breakLoop → .loop ∈ o.nesting
  fresh : ∀ name, a = .label name → o.labels.find? name = none

/-- What one accepted action changes. -/
structure Grows (o : Outline) (a : Action) (o' : Outline) : Prop where
  index : o'.index = o.index + 1
  nest : o.nesting.step a.kind = some o'.nesting
  labels : ∀ name i, o'.labels.find? name = some i ↔
    o.labels.find? name = some i ∨ (a = .label name ∧ i = o.index)
  jumps : ∀ i name, (i, name) ∈ o'.jumps ↔
    (i, name) ∈ o.jumps ∨ (a = .jumpToLabel name ∧ i = o.index)

/-- What an outline knows of the actions that led to it. -/
structure Records (o : Outline) (seen : List Action) : Prop where
  index : o.index = seen.length
  nest : Nesting.nest [] (seen.map Action.kind) = some o.nesting
  breaks : ∀ i, seen[i]? = some .breakLoop → Nesting.LoopOpenAt (seen.map Action.kind) i
  labels : ∀ name i, o.labels.find? name = some i ↔ seen[i]? = some (.label name)
  jumps : ∀ i name, (i, name) ∈ o.jumps ↔ seen[i]? = some (.jumpToLabel name)

/-! ### One action -/

private theorem any_isLoop (o : Outline) : o.blocks.any Block.isLoop ↔ .loop ∈ o.nesting := by
  rw [List.any_eq_true, nesting, List.mem_map]
  constructor
  · rintro ⟨b, hb, hl⟩
    cases b with
    | branch i e => cases hl
    | loop i => exact ⟨.loop i, hb, rfl⟩
  · rintro ⟨b, hb, hs⟩
    cases b with
    | branch i e => cases e <;> cases hs
    | loop i => exact ⟨.loop i, hb, rfl⟩

/-- Exactly the actions that fit are accepted. -/
theorem step_ok_iff (o : Outline) (a : Action) : (∃ o', o.step a = .ok o') ↔ o.Admits a := by
  obtain ⟨index, blocks, labels, jumps⟩ := o
  constructor
  · rintro ⟨o', h⟩
    refine ⟨?_, ?_, ?_⟩
    · cases a with
      | elseBranch | endIf | endLoop =>
        rcases blocks with _ | ⟨⟨_, _ | _⟩ | _, _⟩ <;> first | exact ⟨_, rfl⟩ | cases h
      | _ => exact ⟨_, rfl⟩
    · rintro rfl
      simp only [step] at h
      split at h
      · next hl => exact (any_isLoop _).mp hl
      · cases h
    · rintro name rfl
      simp only [step] at h
      split at h
      · cases h
      · next hf => exact hf
  · rintro ⟨⟨st, hst⟩, hloop, hfresh⟩
    cases a with
    | elseBranch | endIf | endLoop =>
      rcases blocks with _ | ⟨⟨_, _ | _⟩ | _, _⟩ <;> first | exact ⟨_, rfl⟩ | cases hst
    | breakLoop => exact ⟨_, if_pos ((any_isLoop _).mpr (hloop rfl))⟩
    | label name =>
      have hf := hfresh name rfl
      simp only [step, hf]
      exact ⟨_, rfl⟩
    | _ => exact ⟨_, rfl⟩

/-- An accepted action is counted, its kind is nested, and a label or jump is noted. -/
theorem step_grows {o o' : Outline} {a : Action} (h : o.step a = .ok o') : o.Grows a o' := by
  obtain ⟨index, blocks, labels, jumps⟩ := o
  cases a with
  | elseBranch | endIf | endLoop =>
    rcases blocks with _ | ⟨⟨_, _ | _⟩ | _, _⟩ <;> cases h
    all_goals exact ⟨rfl, rfl, by simp [advance], by simp [advance]⟩
  | breakLoop =>
    simp only [step] at h
    split at h <;> cases h
    exact ⟨rfl, rfl, by simp [advance], by simp [advance]⟩
  | label name =>
    simp only [step] at h
    split at h
    · cases h
    · next hf =>
      cases h
      refine ⟨rfl, rfl, fun n i => ?_, by simp [advance]⟩
      simp only [advance, Table.find?_insert, Action.label.injEq]
      by_cases hn : name = n
      · subst hn
        simp [hf, eq_comm]
      · simp [hn]
  | jumpToLabel label =>
    cases h
    refine ⟨rfl, rfl, by simp [advance], fun i name => ?_⟩
    simp only [advance, List.mem_cons, Prod.mk.injEq, Action.jumpToLabel.injEq]
    rw [or_comm, and_comm, eq_comm (a := name)]
  | conditionalBranch | loop =>
    cases h
    exact ⟨rfl, rfl, by simp [openBlock, advance], by simp [openBlock, advance]⟩
  | _ =>
    cases h
    exact ⟨rfl, rfl, by simp [advance], by simp [advance]⟩

/-! ### The whole list -/

private theorem getElem?_concat {α : Type} (l : List α) (a b : α) (i : Nat) :
    (l ++ [a])[i]? = some b ↔ l[i]? = some b ∨ (a = b ∧ i = l.length) := by
  rcases Nat.lt_trichotomy i l.length with h | h | h
  · rw [List.getElem?_append_left h]
    simp [Nat.ne_of_lt h]
  · subst h
    simp
  · rw [List.getElem?_eq_none (by rw [List.length_append]; exact h),
      List.getElem?_eq_none (Nat.le_of_lt h)]
    simp [Nat.ne_of_gt h]

/-- Nothing is known before the first action. -/
theorem records_empty : Records {} [] := ⟨rfl, rfl, by simp, by simp, by simp⟩

/-- An accepted action is recorded behind the others. -/
theorem Records.step {o o' : Outline} {seen : List Action} {a : Action} (hr : o.Records seen)
    (h : o.step a = .ok o') : o'.Records (seen ++ [a]) := by
  have hg := step_grows h
  have ha := (step_ok_iff o a).mp ⟨o', h⟩
  refine ⟨?_, ?_, ?_, ?_, ?_⟩
  · rw [hg.index, hr.index, List.length_append]
    rfl
  · rw [List.map_append, Nesting.nest_append, hr.nest, Option.bind_some]
    exact Nesting.nest_cons_eq_some.mpr ⟨_, hg.nest, rfl⟩
  · intro i hi
    rw [List.map_append]
    rcases (getElem?_concat seen a _ i).mp hi with hi | ⟨rfl, rfl⟩
    · obtain ⟨hlt, -⟩ := List.getElem?_eq_some_iff.mp hi
      obtain ⟨st, hst, hm⟩ := hr.breaks i hi
      refine ⟨st, ?_, hm⟩
      rw [List.take_append_of_le_length (by rw [List.length_map]; omega), hst]
    · refine ⟨o.nesting, ?_, ha.inLoop rfl⟩
      rw [List.take_left' (by rw [List.length_map]), hr.nest]
  · intro name i
    rw [hg.labels, hr.labels, hr.index, getElem?_concat]
  · intro i name
    rw [hg.jumps, hr.jumps, hr.index, getElem?_concat]

/-- The end is accepted where no block is open and every jump has its label. -/
theorem finish_ok_iff (o : Outline) (labels : Labels) :
    o.finish = .ok labels ↔
      o.blocks = [] ∧ (∀ i name, (i, name) ∈ o.jumps → ∃ j, o.labels.find? name = some j) ∧
        labels = o.labels := by
  obtain ⟨index, blocks, known, jumps⟩ := o
  have hjumps : (jumps.reverse.find? fun j => !known.contains j.2) = none ↔
      ∀ i name, (i, name) ∈ jumps → ∃ j, known.find? name = some j := by
    simp [List.find?_eq_none, Table.contains, ← Option.isSome_iff_exists, Option.isSome_iff_ne_none]
  cases blocks with
  | cons b rest => simp [finish]
  | nil =>
    simp only [finish, true_and]
    cases hf : jumps.reverse.find? fun j => !known.contains j.2 with
    | some j =>
      have hn : ¬ ∀ i name, (i, name) ∈ jumps → ∃ j, known.find? name = some j := by
        rw [← hjumps, hf]
        simp
      simp [hn]
    | none =>
      rw [Except.ok.injEq, eq_comm, iff_and_self]
      exact fun _ => hjumps.mp hf

/-- An accepted list is recorded as a whole, and its end is accepted. -/
theorem check_ok {o : Outline} {seen rest : List Action} {labels : Labels}
    (hr : o.Records seen) (h : o.check rest = .ok labels) :
    ∃ last : Outline, last.Records (seen ++ rest) ∧ last.finish = .ok labels := by
  induction rest generalizing o seen with
  | nil => exact ⟨o, by simpa using hr, h⟩
  | cons a rest ih =>
    rw [check] at h
    cases hs : o.step a with
    | error e => rw [hs] at h; cases h
    | ok mid =>
      rw [hs] at h
      have hm := ih (hr.step hs) h
      rwa [List.append_assoc] at hm

/-- A list whose every action fits where it stands is recorded as a whole. -/
theorem check_of_admits {o : Outline} {seen rest : List Action} (hr : o.Records seen)
    (hfits : ∀ before a after, rest = before ++ a :: after →
      ∀ mid : Outline, mid.Records (seen ++ before) → mid.Admits a)
    (hend : ∀ last : Outline, last.Records (seen ++ rest) → ∃ labels, last.finish = .ok labels) :
    ∃ labels, o.check rest = .ok labels := by
  induction rest generalizing o seen with
  | nil => exact hend o (by simpa using hr)
  | cons a rest ih =>
    obtain ⟨mid, hs⟩ := (step_ok_iff o a).mpr (hfits [] a rest rfl o (by simpa using hr))
    rw [check, hs]
    apply ih (hr.step hs)
    · intro before b after he mid' hm
      rw [List.append_assoc] at hm
      exact hfits (a :: before) b after (by rw [he]; rfl) mid' hm
    · intro last hl
      rw [List.append_assoc] at hl
      exact hend last hl

end Outline

/-! ### Accepted lists -/

/-- What an accepted list of actions has, with the labels found for it. -/
structure Admitted (actions : List Action) (labels : Labels) : Prop where
  closed : Nesting.nest [] (actions.map Action.kind) = some []
  breaks : ∀ i : Nat, actions[i]? = some .breakLoop →
    Nesting.LoopOpenAt (actions.map Action.kind) i
  labelled : ∀ (name : String) (i : Nat),
    labels.find? name = some i ↔ actions[i]? = some (.label name)
  jumps : ∀ (i : Nat) (name : String), actions[i]? = some (.jumpToLabel name) →
    ∃ j, labels.find? name = some j

/-- The check accepts only what is admitted. -/
theorem Admitted.of_validate {actions : List Action} {labels : Labels}
    (h : Program.validate actions = .ok labels) : Admitted actions labels := by
  obtain ⟨o, hr, hf⟩ := Outline.check_ok Outline.records_empty h
  rw [List.nil_append] at hr
  obtain ⟨hblocks, hjumps, rfl⟩ := (Outline.finish_ok_iff o labels).mp hf
  refine ⟨?_, hr.breaks, hr.labels, ?_⟩
  · rw [hr.nest, Outline.nesting, hblocks]
    rfl
  · intro i name hi
    exact hjumps i name ((hr.jumps i name).mpr hi)

/-- The check accepts every list with balanced blocks, breaks in open loops, distinct labels
and labels for its jumps. -/
theorem validate_of_balanced {actions : List Action}
    (closed : Nesting.nest [] (actions.map Action.kind) = some [])
    (breaks : ∀ i : Nat, actions[i]? = some .breakLoop →
      Nesting.LoopOpenAt (actions.map Action.kind) i)
    (distinct : ∀ (name : String) (i j : Nat), actions[i]? = some (.label name) →
      actions[j]? = some (.label name) → i = j)
    (jumps : ∀ (i : Nat) (name : String), actions[i]? = some (.jumpToLabel name) →
      ∃ j : Nat, actions[j]? = some (.label name)) :
    ∃ labels, Program.validate actions = .ok labels := by
  apply Outline.check_of_admits Outline.records_empty
  · intro before a after he mid hm
    rw [List.nil_append] at hm
    subst he
    have hat : (before ++ a :: after)[before.length]? = some a := by simp
    rw [List.map_append, Nesting.nest_append, hm.nest, Option.bind_some] at closed
    obtain ⟨st, hst, -⟩ := Nesting.nest_cons_eq_some.mp closed
    refine ⟨⟨st, hst⟩, ?_, ?_⟩
    · rintro rfl
      obtain ⟨st', hst', hl⟩ := breaks before.length hat
      rw [List.map_append, List.take_left' (by rw [List.length_map]), hm.nest] at hst'
      rwa [Option.some.inj hst']
    · rintro name rfl
      cases hf : mid.labels.find? name with
      | none => rfl
      | some i =>
        -- The label stands at `i` among the actions before, and here once more.
        have hi := (hm.labels name i).mp hf
        obtain ⟨hlt, -⟩ := List.getElem?_eq_some_iff.mp hi
        have hj := distinct name i before.length
          (by rw [List.getElem?_append_left hlt, hi]) hat
        omega
  · intro last hl
    rw [List.nil_append] at hl
    refine ⟨last.labels, (Outline.finish_ok_iff last _).mpr ⟨?_, ?_, rfl⟩⟩
    · rw [hl.nest, Outline.nesting] at closed
      exact List.map_eq_nil_iff.mp (Option.some.inj closed)
    · intro i name hi
      obtain ⟨j, hj⟩ := jumps i name ((hl.jumps i name).mp hi)
      exact ⟨j, (hl.labels name j).mpr hj⟩

private theorem kind_eq_breakLoop {a : Action} : a.kind = .breakLoop ↔ a = .breakLoop := by
  cases a <;> simp [Action.kind]

private theorem getElem?_kinds_breakLoop (actions : List Action) (i : Nat) :
    (actions.map Action.kind)[i]? = some .breakLoop ↔ actions[i]? = some .breakLoop := by
  rw [List.getElem?_map, Option.map_eq_some_iff]
  constructor
  · rintro ⟨a, ha, hk⟩
    rw [ha, kind_eq_breakLoop.mp hk]
  · intro h
    exact ⟨.breakLoop, h, rfl⟩

/-- A command list is accepted exactly where its kinds are derived by the grammar, every
break lies inside a loop block, no name is given to two labels and every jump names a label;
the labels found are then exactly those of the list, each with its position. -/
theorem validate_accepts_iff (commands : List Command) :
    ((∃ labels, Program.validate (commands.map Command.action) = .ok labels) ↔
      Derives .program (commands.map Command.kind) ∧
      (∀ i : Nat, (commands.map Command.kind)[i]? = some .breakLoop →
        Nesting.InsideLoop (commands.map Command.kind) i) ∧
      (∀ (name : String) (i j : Nat), (commands.map Command.action)[i]? = some (.label name) →
        (commands.map Command.action)[j]? = some (.label name) → i = j) ∧
      (∀ name : String, .jumpToLabel name ∈ commands.map Command.action →
        .label name ∈ commands.map Command.action)) ∧
    ∀ labels, Program.validate (commands.map Command.action) = .ok labels →
      ∀ (name : String) (i : Nat), labels.find? name = some i ↔
        (commands.map Command.action)[i]? = some (.label name) := by
  have hkinds : commands.map Command.kind = (commands.map Command.action).map Action.kind := by
    rw [List.map_map]
    rfl
  rw [hkinds]
  generalize commands.map Command.action = actions
  refine ⟨⟨?_, ?_⟩, fun labels h => (Admitted.of_validate h).labelled⟩
  · rintro ⟨labels, h⟩
    have ha := Admitted.of_validate h
    have hb := Nesting.balanced_iff_nest.mpr ha.closed
    refine ⟨hb, ?_, ?_, ?_⟩
    · intro i hi
      obtain ⟨hlt, -⟩ := List.getElem?_eq_some_iff.mp hi
      refine (Nesting.loopOpenAt_iff_insideLoop hb hlt (by rw [hi]; decide)).mp ?_
      exact ha.breaks i ((getElem?_kinds_breakLoop actions i).mp hi)
    · intro name i j hi hj
      have hfi := (ha.labelled name i).mpr hi
      have hfj := (ha.labelled name j).mpr hj
      exact Option.some.inj (hfi.symm.trans hfj)
    · intro name hm
      obtain ⟨i, hi⟩ := List.getElem?_of_mem hm
      obtain ⟨j, hj⟩ := ha.jumps i name hi
      exact List.mem_of_getElem? ((ha.labelled name j).mp hj)
  · rintro ⟨hb, hbreaks, hdistinct, hjumps⟩
    apply validate_of_balanced (Nesting.balanced_iff_nest.mp hb) _ hdistinct
    · intro i name hi
      exact List.getElem?_of_mem (hjumps name (List.mem_of_getElem? hi))
    · intro i hi
      have hk := (getElem?_kinds_breakLoop actions i).mpr hi
      obtain ⟨hlt, -⟩ := List.getElem?_eq_some_iff.mp hk
      exact (Nesting.loopOpenAt_iff_insideLoop hb hlt (by rw [hk]; decide)).mpr (hbreaks i hk)

end EventScript
