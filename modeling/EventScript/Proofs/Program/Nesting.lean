import EventScript.Command.Kind

/-!
# Nesting of blocks

Two accounts of which sequences of kinds are well nested. `Derives` is the grammar of
programs and statements. `nest` reads a sequence from the left with the stack of open
blocks. `balanced_iff_nest` says that they agree; on the way come the laws of the stack
that every later argument about scans and loops rests on: a balanced sequence gives the
stack back, and what lies below on the stack plays no part.
-/

namespace EventScript

/-- The kinds that open, continue or close a block. -/
def Kind.isMarker : Kind → Bool
  | .conditionalBranch | .elseBranch | .endIf | .loop | .endLoop => true
  | _ => false

/-- The nonterminals of the grammar. -/
inductive Phrase where
  | program
  | statement
  deriving DecidableEq, Repr

/-- A program is a sequence of statements, and a block is a statement around programs. -/
inductive Derives : Phrase → List Kind → Prop
  | empty : Derives .program []
  | sequence {s p : List Kind} :
    Derives .statement s → Derives .program p → Derives .program (s ++ p)
  | ifThen {p : List Kind} :
    Derives .program p → Derives .statement (.conditionalBranch :: p ++ [.endIf])
  | ifElse {p q : List Kind} :
    Derives .program p → Derives .program q →
      Derives .statement (.conditionalBranch :: p ++ .elseBranch :: q ++ [.endIf])
  | loop {p : List Kind} :
    Derives .program p → Derives .statement (.loop :: p ++ [.endLoop])
  | plain {k : Kind} : k.isMarker = false → Derives .statement [k]

/-- A sequence of kinds that the grammar derives as a program. -/
abbrev Balanced (ks : List Kind) : Prop := Derives .program ks

/-- An open block, by the markers that it still admits. -/
inductive OpenBlock where
  /-- A branch before its `else`. -/
  | branch
  /-- A branch after its `else`. -/
  | alternative
  | loop
  deriving DecidableEq, Repr

/-- Open blocks, innermost first. -/
abbrev Nesting := List OpenBlock

namespace Nesting

/-- The open blocks after one more kind, or none where the kind does not fit. -/
def step (st : Nesting) (k : Kind) : Option Nesting :=
  match k with
  | .conditionalBranch => some (.branch :: st)
  | .loop => some (.loop :: st)
  | .elseBranch =>
    match st with
    | .branch :: rest => some (.alternative :: rest)
    | _ => none
  | .endIf =>
    match st with
    | .branch :: rest => some rest
    | .alternative :: rest => some rest
    | _ => none
  | .endLoop =>
    match st with
    | .loop :: rest => some rest
    | _ => none
  | _ => some st

/-- The open blocks after a sequence of kinds. -/
def nest (st : Nesting) : List Kind → Option Nesting
  | [] => some st
  | k :: ks => (st.step k).bind fun st => nest st ks

/-- Number of open loops. -/
def loops (st : Nesting) : Nat := st.count .loop

/-- Number of open branches. -/
def branches (st : Nesting) : Nat := st.count .branch + st.count .alternative

/-! ### One kind -/

/-- A kind that is no marker fits everywhere and leaves the open blocks as they are. -/
theorem step_of_not_marker {k : Kind} (h : k.isMarker = false) (st : Nesting) :
    st.step k = some st := by
  cases k <;> first | rfl | cases h

/-- An `else` fits where a branch that has none is innermost. -/
theorem step_elseBranch {st st' : Nesting} (h : st.step .elseBranch = some st') :
    ∃ rest, st = .branch :: rest ∧ st' = .alternative :: rest := by
  match st, h with
  | .branch :: rest, h => exact ⟨rest, rfl, (Option.some.inj h).symm⟩

/-- An `end_if` closes the innermost block, a branch. -/
theorem step_endIf {st st' : Nesting} (h : st.step .endIf = some st') :
    st = .branch :: st' ∨ st = .alternative :: st' := by
  match st, h with
  | .branch :: rest, h => exact .inl (by rw [← Option.some.inj h])
  | .alternative :: rest, h => exact .inr (by rw [← Option.some.inj h])

/-- An `end_loop` closes the innermost block, a loop. -/
theorem step_endLoop {st st' : Nesting} (h : st.step .endLoop = some st') :
    st = .loop :: st' := by
  match st, h with
  | .loop :: rest, h => rw [← Option.some.inj h]

/-- Blocks below on the stack play no part in a step that is possible without them. -/
theorem step_append {st st' : Nesting} {k : Kind} (h : st.step k = some st')
    (below : Nesting) : (st ++ below).step k = some (st' ++ below) := by
  by_cases hk : k.isMarker
  · cases k with
    | conditionalBranch => cases h; rfl
    | loop => cases h; rfl
    | elseBranch =>
      obtain ⟨rest, rfl, rfl⟩ := step_elseBranch h
      rfl
    | endIf => rcases step_endIf h with rfl | rfl <;> rfl
    | endLoop =>
      obtain rfl := step_endLoop h
      rfl
    | _ => cases hk
  · rw [Bool.not_eq_true] at hk
    rw [step_of_not_marker hk] at h ⊢
    rw [Option.some.inj h]

/-- Loops are opened by `loop` and closed by `end_loop` alone. -/
theorem loops_step {st st' : Nesting} {k : Kind} (h : st.step k = some st') :
    st'.loops + (if k = .endLoop then 1 else 0) = st.loops + (if k = .loop then 1 else 0) := by
  by_cases hk : k.isMarker
  · cases k with
    | conditionalBranch => cases h; simp [loops]
    | loop => cases h; simp [loops]
    | elseBranch =>
      obtain ⟨rest, rfl, rfl⟩ := step_elseBranch h
      simp [loops]
    | endIf => rcases step_endIf h with rfl | rfl <;> simp [loops]
    | endLoop =>
      obtain rfl := step_endLoop h
      simp [loops]
    | _ => cases hk
  · rw [Bool.not_eq_true] at hk
    rw [step_of_not_marker hk] at h
    cases h
    have he : k ≠ .endLoop := by rintro rfl; cases hk
    have hl : k ≠ .loop := by rintro rfl; cases hk
    simp [he, hl]

/-- Branches are opened by `conditional_branch` and closed by `end_if` alone. -/
theorem branches_step {st st' : Nesting} {k : Kind} (h : st.step k = some st') :
    st'.branches + (if k = .endIf then 1 else 0) =
      st.branches + (if k = .conditionalBranch then 1 else 0) := by
  by_cases hk : k.isMarker
  · cases k with
    | conditionalBranch => cases h; simp [branches]; omega
    | loop => cases h; simp [branches]
    | elseBranch =>
      obtain ⟨rest, rfl, rfl⟩ := step_elseBranch h
      simp [branches]
      omega
    | endIf => rcases step_endIf h with rfl | rfl <;> simp [branches] <;> omega
    | endLoop =>
      obtain rfl := step_endLoop h
      simp [branches]
    | _ => cases hk
  · rw [Bool.not_eq_true] at hk
    rw [step_of_not_marker hk] at h
    cases h
    have he : k ≠ .endIf := by rintro rfl; cases hk
    have hb : k ≠ .conditionalBranch := by rintro rfl; cases hk
    simp [he, hb]

/-! ### Sequences of kinds -/

/-- No markers leave the nesting as it is. -/
@[simp] theorem nest_nil (st : Nesting) : st.nest [] = some st := rfl

/-- One kind more at the front. -/
theorem nest_cons (st : Nesting) (k : Kind) (ks : List Kind) :
    st.nest (k :: ks) = (st.step k).bind fun st => nest st ks := rfl

/-- A sequence that begins with a kind fits if the kind fits and the rest fits after it. -/
theorem nest_cons_eq_some {st st' : Nesting} {k : Kind} {ks : List Kind} :
    st.nest (k :: ks) = some st' ↔ ∃ mid, st.step k = some mid ∧ mid.nest ks = some st' := by
  rw [nest_cons, Option.bind_eq_some_iff]

/-- Two sequences one after the other. -/
theorem nest_append (st : Nesting) (ks ks' : List Kind) :
    st.nest (ks ++ ks') = (st.nest ks).bind fun st => nest st ks' := by
  induction ks generalizing st with
  | nil => rfl
  | cons k ks ih =>
    rw [List.cons_append, nest_cons, nest_cons, Option.bind_assoc]
    congr 1
    funext mid
    exact ih mid

/-- A sequence in two parts fits if the first fits and the second fits after it. -/
theorem nest_append_eq_some {st st' : Nesting} {ks ks' : List Kind} :
    st.nest (ks ++ ks') = some st' ↔ ∃ mid, st.nest ks = some mid ∧ mid.nest ks' = some st' := by
  rw [nest_append, Option.bind_eq_some_iff]

/-- Blocks below on the stack play no part in a sequence that fits without them. -/
theorem nest_below {st st' : Nesting} {ks : List Kind} (h : st.nest ks = some st')
    (below : Nesting) : nest (st ++ below) ks = some (st' ++ below) := by
  induction ks generalizing st with
  | nil => rw [nest_nil] at h ⊢; rw [Option.some.inj h]
  | cons k ks ih =>
    obtain ⟨mid, hk, hks⟩ := nest_cons_eq_some.mp h
    exact nest_cons_eq_some.mpr ⟨mid ++ below, step_append hk below, ih hks⟩

/-! ### The grammar -/

/-- A derived sequence gives the open blocks back. -/
theorem nest_of_derives {n : Phrase} {ks : List Kind} (h : Derives n ks) (st : Nesting) :
    st.nest ks = some st := by
  induction h generalizing st with
  | empty => rfl
  | sequence _ _ ihs ihp => rw [nest_append, ihs, Option.bind_some, ihp]
  | ifThen _ ih =>
    rw [List.cons_append, nest_cons]
    simp only [step, Option.bind_some]
    rw [nest_append, ih, Option.bind_some, nest_cons]
    rfl
  | ifElse _ _ ihp ihq =>
    rw [List.append_assoc, List.cons_append, nest_cons]
    simp only [step, Option.bind_some]
    rw [nest_append, ihp, Option.bind_some, List.cons_append, nest_cons]
    simp only [step, Option.bind_some]
    rw [nest_append, ihq, Option.bind_some, nest_cons]
    rfl
  | loop _ ih =>
    rw [List.cons_append, nest_cons]
    simp only [step, Option.bind_some]
    rw [nest_append, ih, Option.bind_some, nest_cons]
    rfl
  | plain hk => rw [nest_cons, step_of_not_marker hk]; rfl

/-- What the open blocks wait for: a sequence that closes each of them in turn, with a
balanced sequence before each marker and after the last. -/
def Closes : Nesting → List Kind → Prop
  | [], ks => Balanced ks
  | .loop :: st, ks => ∃ p rest, ks = p ++ .endLoop :: rest ∧ Balanced p ∧ Closes st rest
  | .alternative :: st, ks => ∃ p rest, ks = p ++ .endIf :: rest ∧ Balanced p ∧ Closes st rest
  | .branch :: st, ks =>
    (∃ p rest, ks = p ++ .endIf :: rest ∧ Balanced p ∧ Closes st rest) ∨
      ∃ p q rest, ks = p ++ .elseBranch :: q ++ .endIf :: rest ∧
        Balanced p ∧ Balanced q ∧ Closes st rest

/-- A statement in front is part of the innermost block. -/
theorem Closes.statement {s : List Kind} (hs : Derives .statement s) {st : Nesting}
    {ks : List Kind} (h : Closes st ks) : Closes st (s ++ ks) := by
  match st, h with
  | [], h => exact .sequence hs h
  | .loop :: _, ⟨p, rest, he, hp, hr⟩ =>
    exact ⟨s ++ p, rest, by rw [he, List.append_assoc], .sequence hs hp, hr⟩
  | .alternative :: _, ⟨p, rest, he, hp, hr⟩ =>
    exact ⟨s ++ p, rest, by rw [he, List.append_assoc], .sequence hs hp, hr⟩
  | .branch :: _, .inl ⟨p, rest, he, hp, hr⟩ =>
    exact .inl ⟨s ++ p, rest, by rw [he, List.append_assoc], .sequence hs hp, hr⟩
  | .branch :: _, .inr ⟨p, q, rest, he, hp, hq, hr⟩ =>
    exact .inr ⟨s ++ p, q, rest, by rw [he]; simp, .sequence hs hp, hq, hr⟩

/-- A sequence that leaves no block open closes the blocks that were open before it. -/
theorem closes_of_nest {st : Nesting} {ks : List Kind} (h : st.nest ks = some []) :
    Closes st ks := by
  induction ks generalizing st with
  | nil => cases h; exact .empty
  | cons k ks ih =>
    obtain ⟨mid, hk, hks⟩ := nest_cons_eq_some.mp h
    have hc := ih hks
    by_cases hm : k.isMarker
    · cases k with
      | conditionalBranch =>
        -- The body found for the new branch makes it a statement in front of the rest.
        cases hk
        rcases hc with ⟨p, rest, rfl, hp, hr⟩ | ⟨p, q, rest, rfl, hp, hq, hr⟩
        · have hs := Closes.statement (.ifThen hp) hr
          simpa using hs
        · have hs := Closes.statement (.ifElse hp hq) hr
          simpa using hs
      | loop =>
        cases hk
        obtain ⟨p, rest, rfl, hp, hr⟩ := hc
        have hs := Closes.statement (.loop hp) hr
        simpa using hs
      | elseBranch =>
        obtain ⟨below, rfl, rfl⟩ := step_elseBranch hk
        obtain ⟨q, rest, rfl, hq, hr⟩ := hc
        exact .inr ⟨[], q, rest, rfl, .empty, hq, hr⟩
      | endIf =>
        rcases step_endIf hk with rfl | rfl
        · exact .inl ⟨[], ks, rfl, .empty, hc⟩
        · exact ⟨[], ks, rfl, .empty, hc⟩
      | endLoop =>
        obtain rfl := step_endLoop hk
        exact ⟨[], ks, rfl, .empty, hc⟩
      | _ => cases hm
    · rw [Bool.not_eq_true] at hm
      rw [step_of_not_marker hm] at hk
      cases hk
      exact Closes.statement (.plain hm) hc

/-- The grammar derives exactly the sequences that leave no block open. -/
theorem balanced_iff_nest {ks : List Kind} : Balanced ks ↔ nest [] ks = some [] :=
  ⟨fun h => nest_of_derives h [], closes_of_nest⟩

/-- A balanced sequence has the same open blocks before and after it. -/
theorem nest_balanced {ks : List Kind} (h : Balanced ks) (st : Nesting) :
    st.nest ks = some st := nest_of_derives h st

end Nesting

end EventScript
