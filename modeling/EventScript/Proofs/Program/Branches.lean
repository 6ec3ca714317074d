import EventScript.Proofs.Program.Loops

/-!
# Branch blocks

A branch block has an opener, a closer and at most one `else` of its own, with a balanced
sequence between any two of them. The scan for a false body starts at the opener and stops at
the first of the two that it finds, the scan for the end of a true body starts at the `else`.
Both count branches only: a loop in their way lies between the markers as a whole.

With the loop blocks this accounts for all scans of the resolver: in an accepted program each
of them finds the block that the grammar gives.
-/

namespace EventScript

namespace Nesting

open EventScript.Flow

/-- The branch that is opened at `start`, with or without an `else` of its own, is closed just
before `exit`. -/
inductive BranchBlock : List Kind → Nat → Option Nat → Nat → Prop
  | ifThen {before body after : List Kind} (hb : Balanced body) :
    BranchBlock (before ++ .conditionalBranch :: body ++ .endIf :: after) before.length none
      (before.length + 1 + body.length + 1)
  | ifElse {before body other after : List Kind} (hb : Balanced body) (ho : Balanced other) :
    BranchBlock (before ++ .conditionalBranch :: body ++ .elseBranch :: other ++ .endIf :: after)
      before.length (some (before.length + 1 + body.length))
      (before.length + 1 + body.length + 1 + other.length + 1)

namespace BranchBlock

variable {ks : List Kind} {start exit : Nat} {own : Option Nat}

/-- A block of a part of a sequence is a block of the sequence. -/
theorem within (h : BranchBlock ks start own exit) (before after : List Kind) :
    BranchBlock (before ++ ks ++ after) (before.length + start)
      (own.map (before.length + ·)) (before.length + exit) := by
  cases h with
  | @ifThen left body right hb =>
    have hblock := @ifThen (before ++ left) body (right ++ after) hb
    simp only [List.length_append, List.append_assoc, List.cons_append, Nat.add_assoc] at hblock ⊢
    exact hblock
  | @ifElse left body other right hb ho =>
    have hblock := @ifElse (before ++ left) body other (right ++ after) hb ho
    simp only [List.length_append, List.append_assoc, List.cons_append, Nat.add_assoc] at hblock ⊢
    exact hblock

/-- The scan from the opener for the end of the branch ends behind the closer. -/
theorem closePast_eq (h : BranchBlock ks start own exit) :
    closePast .conditionalBranch .endIf 0 (start + 1) (ks.drop (start + 1)) = some exit := by
  cases h with
  | ifThen hb =>
    rw [List.append_assoc, List.cons_append, drop_behind, closePast_block counts_branches hb]
  | ifElse hb ho =>
    rw [List.append_assoc, List.append_assoc, List.cons_append, drop_behind,
      closePast_balanced counts_branches hb, List.cons_append, closePast]
    exact closePast_block counts_branches ho _ _

/-- The scan for a false body ends behind the `else` of the branch, or else behind its closer. -/
theorem skipFalseBranch_eq (h : BranchBlock ks start own exit) :
    skipFalseBranch ks start = .ok (own.elim exit (· + 1)) := by
  rw [skipFalseBranch]
  cases h with
  | ifThen hb =>
    rw [List.append_assoc, List.cons_append, drop_behind, falseBranchPast_balanced hb]
    rfl
  | ifElse hb ho =>
    rw [List.append_assoc, List.append_assoc, List.cons_append, drop_behind,
      falseBranchPast_balanced hb]
    rfl

/-- The scan from the `else` of a branch ends behind the closer. -/
theorem skipElseBody_eq {other : Nat} (h : BranchBlock ks start (some other) exit) :
    skipElseBody ks other = .ok exit := by
  generalize ho : some other = own at h
  cases h with
  | ifThen => cases ho
  | @ifElse before body other' after hb ho' =>
    cases ho
    have hlen : before.length + 1 + body.length =
        (before ++ .conditionalBranch :: body).length := by
      simp only [List.length_append, List.length_cons]
      omega
    rw [skipElseBody, List.append_assoc, hlen, List.cons_append, drop_behind,
      closePast_block counts_branches ho']
    rfl

/-- The `else` of a branch stands before the closer. -/
theorem own_add_two_le {other : Nat} (h : BranchBlock ks start (some other) exit) :
    other + 2 ≤ exit := by
  generalize ho : some other = own at h
  cases h with
  | ifThen => cases ho
  | ifElse =>
    cases ho
    omega

/-- A branch has one exit and at most one `else`. -/
theorem unique (h : BranchBlock ks start own exit) {own' : Option Nat} {exit' : Nat}
    (h' : BranchBlock ks start own' exit') : own' = own ∧ exit' = exit := by
  obtain rfl := Option.some.inj (h'.closePast_eq.symm.trans h.closePast_eq)
  have htarget := Except.ok.inj (h'.skipFalseBranch_eq.symm.trans h.skipFalseBranch_eq)
  refine ⟨?_, rfl⟩
  -- The scan for a false body ends before the exit just where there is an `else`.
  cases own with
  | none =>
    cases own' with
    | none => rfl
    | some other =>
      have hle := h'.own_add_two_le
      simp only [Option.elim] at htarget
      omega
  | some other =>
    have hle := h.own_add_two_le
    cases own' <;> simp only [Option.elim] at htarget
    · omega
    · rw [Nat.succ.inj htarget]

end BranchBlock

/-- Every `conditional_branch` of a balanced sequence starts a block. -/
theorem exists_branchBlock {ks : List Kind} (h : nest [] ks = some []) {start : Nat}
    (hk : ks[start]? = some .conditionalBranch) : ∃ own exit, BranchBlock ks start own exit := by
  obtain ⟨hlt, hat⟩ := List.getElem?_eq_some_iff.mp hk
  obtain ⟨st, st', -, hstep, hrest⟩ := nest_around h hk
  obtain rfl := Option.some.inj hstep
  have hlen : (ks.take start).length = start := List.length_take_of_le (Nat.le_of_lt hlt)
  have hsplit : ks.take start ++ .conditionalBranch :: ks.drop (start + 1) = ks := by
    rw [← hat, ← List.drop_eq_getElem_cons hlt, List.take_append_drop]
  rcases closes_of_nest hrest with
    ⟨body, after, hdrop, hb, -⟩ | ⟨body, other, after, hdrop, hb, ho, -⟩
  · have hblock := @BranchBlock.ifThen (ks.take start) body after hb
    rw [List.append_assoc, List.cons_append, ← hdrop, hsplit, hlen] at hblock
    exact ⟨_, _, hblock⟩
  · have hblock := @BranchBlock.ifElse (ks.take start) body other after hb ho
    rw [List.append_assoc, List.append_assoc, List.cons_append, ← List.append_assoc body, ← hdrop,
      hsplit, hlen] at hblock
    exact ⟨_, _, hblock⟩

end Nesting

namespace Program

open EventScript.Nesting EventScript.Flow

/-- In an accepted program, whichever of its commands are enabled, every branch and every loop
has exactly one block, and the scans find it. The scan for a false body ends behind the `else`
of the branch, or behind its `end_if` where it has none; the scan from that `else` ends behind
the `end_if`. The scans of a loop lead from its opener behind its `end_loop` and from there back
to the opener, and from every position inside, but in no loop nested inside, to the same exit. -/
theorem scans_find_blocks {commands : List Command} {p : Program}
    (h : ofCommands commands = .ok p) :
    (∀ start, p.kinds[start]? = some .conditionalBranch →
      ∃ own exit, BranchBlock p.kinds start own exit ∧
        ∀ own' exit', BranchBlock p.kinds start own' exit' → own' = own ∧ exit' = exit) ∧
    (∀ start exit, BranchBlock p.kinds start none exit →
      skipFalseBranch p.kinds start = .ok exit) ∧
    (∀ start other exit, BranchBlock p.kinds start (some other) exit →
      skipFalseBranch p.kinds start = .ok (other + 1) ∧ skipElseBody p.kinds other = .ok exit) ∧
    (∀ start, p.kinds[start]? = some .loop →
      ∃ exit, LoopBlock p.kinds start exit ∧
        ∀ exit', LoopBlock p.kinds start exit' → exit' = exit) ∧
    ∀ start exit, LoopBlock p.kinds start exit →
      findLoopExit p.kinds start = .ok exit ∧ findLoopStart p.kinds (exit - 1) = some start ∧
      ∀ i k, p.kinds[i]? = some k → k ≠ .loop → k ≠ .endLoop → LoopAround p.kinds i start exit →
        (∀ start' exit', LoopAround p.kinds i start' exit' → start' ≤ start) →
        findLoopExit p.kinds i = .ok exit := by
  have hn := (accepted_of_ofCommands h).2.nest_kinds
  refine ⟨?_, ?_, ?_, ?_, ?_⟩
  · intro start hk
    obtain ⟨own, exit, hblock⟩ := exists_branchBlock hn hk
    exact ⟨own, exit, hblock, fun own' exit' h' => hblock.unique h'⟩
  · intro start exit hblock
    exact hblock.skipFalseBranch_eq
  · intro start other exit hblock
    exact ⟨hblock.skipFalseBranch_eq, hblock.skipElseBody_eq⟩
  · intro start hk
    obtain ⟨exit, hblock⟩ := exists_loopBlock hn hk
    exact ⟨exit, hblock, fun exit' h' => hblock.exit_unique h'⟩
  · intro start exit hblock
    refine ⟨hblock.findLoopExit_eq, hblock.findLoopStart_eq, ?_⟩
    intro i k hk hloop hend haround hlast
    apply hblock.findLoopExit_of_body haround.start_lt haround.lt_exit hk hloop hend
    intro start' exit' hblock' hlo hhi
    -- A loop that begins later and is still open would be a later one around the position.
    by_contra hopen
    have hle := hlast start' exit' ⟨hblock', hhi, by omega⟩
    omega

/-- A loop around a branch, with a disabled loop in its body and a break behind its `else`. -/
theorem scans_find_blocks_nested :
    let commands : List Command := [.ofAction .loop, .ofAction (.conditionalBranch {}),
      (Command.ofAction .loop).disable, .ofAction .breakLoop, .ofAction .endLoop,
      .ofAction .elseBranch, .ofAction .breakLoop, .ofAction .endIf, .ofAction .endLoop]
    let p : Program := ⟨commands, .empty⟩
    ofCommands commands = .ok p ∧
      (BranchBlock p.kinds 1 (some 5) 8 ∧ skipFalseBranch p.kinds 1 = .ok 6 ∧
        skipElseBody p.kinds 5 = .ok 8) ∧
      LoopBlock p.kinds 0 9 ∧ findLoopStart p.kinds 8 = some 0 ∧
        (∀ start exit, LoopAround p.kinds 6 start exit → start ≤ 0) ∧
        findLoopExit p.kinds 6 = .ok 9 := by
  intro commands p
  have hp : ofCommands commands = .ok p := rfl
  obtain ⟨-, -, hbranch, -, hloop⟩ := scans_find_blocks hp
  have hinner : Balanced [.loop, .breakLoop, .endLoop] := balanced_iff_nest.mpr rfl
  have hbreak : Balanced [.breakLoop] := balanced_iff_nest.mpr rfl
  have hown : BranchBlock p.kinds 1 (some 5) 8 :=
    @BranchBlock.ifElse [.loop] _ _ [.endLoop] hinner hbreak
  have hblock : LoopBlock p.kinds 0 9 :=
    ⟨[], (p.kinds.drop 1).take 7, [], rfl, balanced_iff_nest.mpr rfl, rfl, rfl⟩
  have hpassed : LoopBlock p.kinds 2 5 :=
    ⟨[.loop, .conditionalBranch], [.breakLoop], p.kinds.drop 5, rfl, hbreak, rfl, rfl⟩
  have hlast : ∀ start exit, LoopAround p.kinds 6 start exit → start ≤ 0 := by
    rintro start exit ⟨hb, hlo, hhi⟩
    have hloops : ∀ i < 6, p.kinds[i]? = some .loop → i = 0 ∨ i = 2 := by decide
    rcases hloops start hlo hb.opener with rfl | rfl
    · exact Nat.le_refl 0
    · rw [hpassed.exit_unique hb] at hhi
      omega
  obtain ⟨-, hstart, hinside⟩ := hloop 0 9 hblock
  exact ⟨hp, ⟨hown, hbranch 1 5 8 hown⟩, hblock, hstart, hlast,
    hinside 6 .breakLoop rfl (by decide) (by decide) ⟨hblock, by decide, by decide⟩ hlast⟩

end Program

end EventScript
