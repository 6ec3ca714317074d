import EventScript.Proofs.Structured.Tree

/-!
# Structured programs are accepted

The check of a program passes the list of commands of a tree as a whole: it finds every
block closed where the tree closes it. What is left to ask of a tree is that its breaks are
inside loops and that no two of its labels have one name.
-/

namespace EventScript

/-- The names of the labels that a basic command gives. -/
def Leaf.labels (l : Leaf) : List String :=
  match l.action with
  | .label name => [name]
  | _ => []

namespace Tree

/-- Every break of the tree is inside a loop of it, or the tree itself is. -/
def Scoped (inLoop : Bool) : Tree → Prop
  | done => True
  | basic _ next => next.Scoped inLoop
  | ifThen _ yes next => yes.Scoped inLoop ∧ next.Scoped inLoop
  | ifElse _ yes no next => yes.Scoped inLoop ∧ no.Scoped inLoop ∧ next.Scoped inLoop
  | loop body next => body.Scoped true ∧ next.Scoped inLoop
  | breakLoop next => inLoop = true ∧ next.Scoped inLoop
  | exit next => next.Scoped inLoop

/-- The names of the labels of a tree. -/
def labels : Tree → List String
  | done => []
  | basic l next => l.labels ++ next.labels
  | ifThen _ yes next => yes.labels ++ next.labels
  | ifElse _ yes no next => yes.labels ++ (no.labels ++ next.labels)
  | loop body next => body.labels ++ next.labels
  | breakLoop next => next.labels
  | exit next => next.labels

/-- The actions of a tree. -/
def actions (t : Tree) : List Action := t.flatten.map Command.action

private theorem actions_ifThen (set : ConditionSet) (yes next : Tree) (rest : List Action) :
    (ifThen set yes next).actions ++ rest =
      .conditionalBranch set :: (yes.actions ++ .endIf :: (next.actions ++ rest)) := by
  simp [actions, flatten, Command.ofAction]

private theorem actions_ifElse (set : ConditionSet) (yes no next : Tree) (rest : List Action) :
    (ifElse set yes no next).actions ++ rest =
      .conditionalBranch set :: (yes.actions ++ .elseBranch ::
        (no.actions ++ .endIf :: (next.actions ++ rest))) := by
  simp [actions, flatten, Command.ofAction]

private theorem actions_loop (body next : Tree) (rest : List Action) :
    (loop body next).actions ++ rest =
      .loop :: (body.actions ++ .endLoop :: (next.actions ++ rest)) := by
  simp [actions, flatten, Command.ofAction]

/-! ### Names of labels -/

/-- Names that differ from one another and are not known yet. -/
structure Fresh (names : List String) (known : Labels) : Prop where
  nodup : names.Nodup
  unknown : ∀ name ∈ names, known.find? name = none

/-- Nothing but the given names has become known. -/
def Adds (names : List String) (known known' : Labels) : Prop :=
  ∀ name, name ∉ names → known'.find? name = known.find? name

variable {names names' : List String} {known known' known'' : Labels}

private theorem Fresh.left (h : Fresh (names ++ names') known) : Fresh names known :=
  ⟨(List.nodup_append.mp h.nodup).1, fun name hm => h.unknown name (List.mem_append_left _ hm)⟩

private theorem Fresh.right (h : Fresh (names ++ names') known) (ha : Adds names known known') :
    Fresh names' known' := by
  obtain ⟨-, hnodup, hdisjoint⟩ := List.nodup_append.mp h.nodup
  refine ⟨hnodup, fun name hm => ?_⟩
  rw [ha name fun hm' => hdisjoint name hm' name hm rfl]
  exact h.unknown name (List.mem_append_right _ hm)

private theorem Adds.trans (h : Adds names known known') (h' : Adds names' known' known'') :
    Adds (names ++ names') known known'' := by
  intro name hn
  rw [h' name fun hm => hn (List.mem_append_right _ hm),
    h name fun hm => hn (List.mem_append_left _ hm)]

/-! ### The check of a tree -/

variable {o o₁ : Outline}

private theorem check_cons {a : Action} (h : o.step a = .ok o₁) (rest : List Action) :
    o.check (a :: rest) = o₁.check rest := by
  rw [Outline.check, h]

private theorem step_endIf {i : Nat} {elseAt : Option Nat} {below : List Block}
    (h : o.blocks = .branch i elseAt :: below) :
    o.step .endIf = .ok { o with blocks := below }.advance := by
  simp only [Outline.step, h]

private theorem step_elseBranch {i : Nat} {below : List Block}
    (h : o.blocks = .branch i none :: below) :
    o.step .elseBranch = .ok { o with blocks := .branch i (some o.index) :: below }.advance := by
  simp only [Outline.step, h]

private theorem step_endLoop {i : Nat} {below : List Block} (h : o.blocks = .loop i :: below) :
    o.step .endLoop = .ok { o with blocks := below }.advance := by
  simp only [Outline.step, h]

private theorem step_leaf {l : Leaf} (hf : Fresh l.labels o.labels) :
    ∃ o₁, o.step l.action = .ok o₁ ∧ o₁.blocks = o.blocks ∧ o₁.jumps = o.jumps ∧
      Adds l.labels o.labels o₁.labels := by
  obtain ⟨_, _, action, hbasic⟩ := l
  cases action with
  | label name =>
    have hnone := hf.unknown name (List.mem_singleton_self name)
    refine ⟨{ o with labels := o.labels.insert name o.index }.advance, ?_, rfl, rfl, ?_⟩
    · simp only [Outline.step, hnone]
    · intro other hother
      apply Table.find?_insert_of_ne
      rintro rfl
      exact hother (List.mem_singleton_self name)
  | conditionalBranch _ | elseBranch | endIf | loop | breakLoop | endLoop | jumpToLabel _
  | exitEventProcessing => cases hbasic
  | _ => exact ⟨o.advance, rfl, rfl, rfl, fun _ _ => rfl⟩

/-- The check passes a tree whose breaks are in loops and whose labels are new, and then has
the same blocks open as before. -/
theorem check_passes {t : Tree} {inLoop : Bool} (hs : t.Scoped inLoop)
    (hb : inLoop = true → o.blocks.any Block.isLoop = true) (hf : Fresh t.labels o.labels)
    (rest : List Action) :
    ∃ o' : Outline, o.check (t.actions ++ rest) = o'.check rest ∧ o'.blocks = o.blocks ∧
      o'.jumps = o.jumps ∧ Adds t.labels o.labels o'.labels := by
  induction t generalizing inLoop o rest with
  | done => exact ⟨o, rfl, rfl, rfl, fun _ _ => rfl⟩
  | basic l next ih =>
    obtain ⟨o₁, hstep, hblocks, hjumps, hadds⟩ := step_leaf hf.left
    obtain ⟨o', hcheck, hblocks', hjumps', hadds'⟩ :=
      ih hs (by rwa [hblocks]) (hf.right hadds) rest
    exact ⟨o', (check_cons hstep _).trans hcheck, hblocks'.trans hblocks, hjumps'.trans hjumps,
      hadds.trans hadds'⟩
  | ifThen set yes next ihyes ih =>
    have hopen : o.step (.conditionalBranch set) = .ok (o.openBlock (.branch o.index none)) := rfl
    obtain ⟨o₁, hcheck₁, hblocks₁, hjumps₁, hadds₁⟩ :=
      ihyes (o := o.openBlock (.branch o.index none)) hs.1
        (fun h => by simp [Outline.openBlock, Outline.advance, hb h]) hf.left
        (.endIf :: (next.actions ++ rest))
    have hend := step_endIf hblocks₁
    have hnext : Fresh next.labels o₁.labels := hf.right hadds₁
    obtain ⟨o', hcheck, hblocks, hjumps, hadds⟩ :=
      ih (o := { o₁ with blocks := o.blocks }.advance) hs.2 hb hnext rest
    refine ⟨o', ?_, hblocks, hjumps.trans hjumps₁, hadds₁.trans hadds⟩
    rw [actions_ifThen, check_cons hopen, hcheck₁, check_cons hend, hcheck]
  | ifElse set yes no next ihyes ihno ih =>
    have hopen : o.step (.conditionalBranch set) = .ok (o.openBlock (.branch o.index none)) := rfl
    have hin (b : Block) (h : inLoop = true) : (b :: o.blocks).any Block.isLoop = true := by
      simp [hb h]
    obtain ⟨o₁, hcheck₁, hblocks₁, hjumps₁, hadds₁⟩ :=
      ihyes (o := o.openBlock (.branch o.index none)) hs.1 (hin _) hf.left
        (.elseBranch :: (no.actions ++ .endIf :: (next.actions ++ rest)))
    have helse := step_elseBranch hblocks₁
    have hf' : Fresh (no.labels ++ next.labels) o₁.labels := hf.right hadds₁
    obtain ⟨o₂, hcheck₂, hblocks₂, hjumps₂, hadds₂⟩ :=
      ihno (o := { o₁ with blocks := .branch o.index (some o₁.index) :: o.blocks }.advance)
        hs.2.1 (hin _) hf'.left (.endIf :: (next.actions ++ rest))
    have hend := step_endIf hblocks₂
    have hnext : Fresh next.labels o₂.labels := hf'.right hadds₂
    obtain ⟨o', hcheck, hblocks, hjumps, hadds⟩ :=
      ih (o := { o₂ with blocks := o.blocks }.advance) hs.2.2 hb hnext rest
    refine ⟨o', ?_, hblocks, (hjumps.trans hjumps₂).trans hjumps₁,
      hadds₁.trans (hadds₂.trans hadds)⟩
    rw [actions_ifElse, check_cons hopen, hcheck₁, check_cons helse, hcheck₂, check_cons hend,
      hcheck]
  | loop body next ihbody ih =>
    have hopen : o.step .loop = .ok (o.openBlock (.loop o.index)) := rfl
    obtain ⟨o₁, hcheck₁, hblocks₁, hjumps₁, hadds₁⟩ :=
      ihbody (o := o.openBlock (.loop o.index)) hs.1 (fun _ => rfl) hf.left
        (.endLoop :: (next.actions ++ rest))
    have hend := step_endLoop hblocks₁
    have hnext : Fresh next.labels o₁.labels := hf.right hadds₁
    obtain ⟨o', hcheck, hblocks, hjumps, hadds⟩ :=
      ih (o := { o₁ with blocks := o.blocks }.advance) hs.2 hb hnext rest
    refine ⟨o', ?_, hblocks, hjumps.trans hjumps₁, hadds₁.trans hadds⟩
    rw [actions_loop, check_cons hopen, hcheck₁, check_cons hend, hcheck]
  | breakLoop next ih =>
    have hstep : o.step .breakLoop = .ok o.advance := if_pos (hb hs.1)
    obtain ⟨o', hcheck, h⟩ := ih (o := o.advance) hs.2 hb hf rest
    exact ⟨o', (check_cons hstep _).trans hcheck, h⟩
  | exit next ih =>
    have hstep : o.step .exitEventProcessing = .ok o.advance := rfl
    obtain ⟨o', hcheck, h⟩ := ih (o := o.advance) hs hb hf rest
    exact ⟨o', (check_cons hstep _).trans hcheck, h⟩

/-- A tree is accepted where its breaks are in loops and its labels have different names. -/
theorem accepted {t : Tree} (hs : t.Scoped false) (hl : t.labels.Nodup) :
    ∃ p, Program.ofCommands t.flatten = .ok p := by
  obtain ⟨o, hcheck, hblocks, hjumps, -⟩ :=
    check_passes (o := {}) hs (by rintro ⟨⟩) ⟨hl, fun _ _ => rfl⟩ []
  have hvalid : Program.validate (t.flatten.map Command.action) = .ok o.labels := by
    rw [List.append_nil] at hcheck
    rw [Program.validate, ← actions, hcheck, Outline.check, Outline.finish, hblocks, hjumps]
    rfl
  exact ⟨⟨t.flatten, o.labels⟩, by rw [Program.ofCommands, hvalid]; rfl⟩

end Tree

end EventScript
