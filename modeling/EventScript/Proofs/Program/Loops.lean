import EventScript.Proofs.Program.Flow
import Mathlib.Data.Nat.Find

/-!
# Loop blocks

A loop block of a balanced sequence is found from either end: its opener has one exit, and
its closer has one opener. Two loop blocks nest or lie apart, and the scans of the resolver
find what the grammar says: from an opener the exit of its loop, from a closer its opener,
and from a position in a body the exit of the innermost loop around it.
-/

namespace EventScript

namespace Nesting

/-- The loop that is opened at `start` is closed just before `exit`. -/
def LoopBlock (ks : List Kind) (start exit : Nat) : Prop :=
  ∃ before body after, ks = before ++ .loop :: body ++ .endLoop :: after ∧ Balanced body ∧
    before.length = start ∧ start + body.length + 2 = exit

/-- Position `i` is behind the opener of the loop and before its exit. -/
structure LoopAround (ks : List Kind) (i start exit : Nat) : Prop where
  block : LoopBlock ks start exit
  start_lt : start < i
  lt_exit : i < exit

/-- Of the loops around a position whose openers are candidates, the one opened last. -/
structure Innermost (ks : List Kind) (candidate : Nat → Prop) (i start exit : Nat) : Prop where
  around : LoopAround ks i start exit
  chosen : candidate start
  last : ∀ start' exit', candidate start' → LoopAround ks i start' exit' → start' ≤ start

/-- Behind the kind that stands between two parts of a sequence comes the second part. -/
theorem drop_behind (before rest : List Kind) (k : Kind) :
    (before ++ k :: rest).drop (before.length + 1) = rest := by
  rw [List.drop_length_add_append, List.drop_succ_cons, List.drop_zero]

namespace LoopBlock

variable {ks : List Kind} {start exit : Nat}

/-- Where the block starts there is a `loop`. -/
theorem opener (h : LoopBlock ks start exit) : ks[start]? = some .loop := by
  obtain ⟨before, body, after, rfl, -, rfl, -⟩ := h
  simp

/-- Just before its exit there is an `end_loop`. -/
theorem closer (h : LoopBlock ks start exit) : ks[exit - 1]? = some .endLoop := by
  obtain ⟨before, body, after, rfl, -, rfl, rfl⟩ := h
  have he : before.length + body.length + 2 - 1 = (before ++ .loop :: body).length := by
    simp
    omega
  rw [he, List.getElem?_append_right (Nat.le_refl _), Nat.sub_self]
  rfl

/-- Opener and closer are two markers. -/
theorem start_add_two_le (h : LoopBlock ks start exit) : start + 2 ≤ exit := by
  obtain ⟨-, body, -, -, -, -, rfl⟩ := h
  omega

/-- The block is part of the sequence. -/
theorem exit_le (h : LoopBlock ks start exit) : exit ≤ ks.length := by
  obtain ⟨before, body, after, rfl, -, rfl, rfl⟩ := h
  simp
  omega

/-- Behind every other kind the loop goes on. -/
theorem succ_ne_exit (h : LoopBlock ks start exit) {i : Nat} {k : Kind} (hk : ks[i]? = some k)
    (hend : k ≠ .endLoop) : i + 1 ≠ exit := by
  rintro rfl
  have hcloser := h.closer
  rw [Nat.add_sub_cancel, hk] at hcloser
  exact hend (Option.some.inj hcloser)

/-- A block of a part of a sequence is a block of the sequence. -/
theorem within (h : LoopBlock ks start exit) (before after : List Kind) :
    LoopBlock (before ++ ks ++ after) (before.length + start) (before.length + exit) := by
  obtain ⟨left, body, right, rfl, hb, rfl, rfl⟩ := h
  refine ⟨before ++ left, body, right ++ after, by simp, hb, ?_, by omega⟩
  rw [List.length_append]

/-- A block of the body of a loop is a block of the whole sequence. -/
theorem of_body (h : LoopBlock ks start exit) (before after : List Kind) :
    LoopBlock (before ++ .loop :: ks ++ .endLoop :: after) (before.length + start + 1)
      (before.length + exit + 1) := by
  have hwithin := h.within (before ++ [.loop]) (.endLoop :: after)
  simp only [List.length_append, List.length_singleton, List.append_assoc,
    List.singleton_append, Nat.add_right_comm _ 1] at hwithin
  rwa [List.append_assoc]

/-- The scan from the opener ends behind the closer. -/
theorem findLoopExit_eq (h : LoopBlock ks start exit) :
    Flow.findLoopExit ks start = .ok exit := by
  obtain ⟨before, body, after, rfl, hb, rfl, rfl⟩ := h
  rw [Flow.findLoopExit, List.append_assoc, List.cons_append, drop_behind,
    Flow.closePast_block counts_loops hb, Flow.target]
  congr 1
  omega

/-- The scan back from the closer ends at the opener. -/
theorem findLoopStart_eq (h : LoopBlock ks start exit) :
    Flow.findLoopStart ks (exit - 1) = some start := by
  obtain ⟨before, body, after, rfl, hb, rfl, rfl⟩ := h
  have htake : (before ++ .loop :: body ++ .endLoop :: after).take
      (before.length + body.length + 2 - 1) = before ++ .loop :: body := by
    apply List.take_left'
    rw [List.length_append, List.length_cons]
    omega
  rw [Flow.findLoopStart, htake, List.reverse_append, List.reverse_cons, List.append_assoc]
  have hindex : before.length + body.length + 2 - 1 = before.length + 1 + body.length := by omega
  rw [hindex]
  exact Flow.openBefore_block hb before.length before.reverse

/-- A loop has one exit. -/
theorem exit_unique (h : LoopBlock ks start exit) {exit' : Nat} (h' : LoopBlock ks start exit') :
    exit' = exit := Except.ok.inj (h'.findLoopExit_eq.symm.trans h.findLoopExit_eq)

/-- A closer has one opener. -/
theorem start_unique (h : LoopBlock ks start exit) {start' : Nat}
    (h' : LoopBlock ks start' exit) : start' = start :=
  Option.some.inj (h'.findLoopStart_eq.symm.trans h.findLoopStart_eq)

end LoopBlock

/-- Every `loop` of a balanced sequence starts a block. -/
theorem exists_loopBlock {ks : List Kind} (h : nest [] ks = some []) {start : Nat}
    (hk : ks[start]? = some .loop) : ∃ exit, LoopBlock ks start exit := by
  obtain ⟨hlt, hat⟩ := List.getElem?_eq_some_iff.mp hk
  obtain ⟨st, st', -, hstep, hrest⟩ := Flow.nest_around h hk
  obtain rfl := Option.some.inj hstep
  rw [← List.nil_append (.loop :: st)] at hrest
  obtain ⟨body, after, hdrop, hb, -⟩ := exists_closer hrest
  refine ⟨_, ks.take start, body, after, ?_, balanced_iff_nest.mpr hb,
    List.length_take_of_le (Nat.le_of_lt hlt), rfl⟩
  rw [List.append_assoc, List.cons_append, ← hdrop, ← hat, ← List.drop_eq_getElem_cons hlt,
    List.take_append_drop]

/-- Every `end_loop` of a balanced sequence ends a block. -/
theorem exists_loopBlock_of_endLoop {ks : List Kind} (h : nest [] ks = some []) {i : Nat}
    (hk : ks[i]? = some .endLoop) : ∃ start, LoopBlock ks start (i + 1) := by
  obtain ⟨hlt, hat⟩ := List.getElem?_eq_some_iff.mp hk
  obtain ⟨st, st', hst, hstep, -⟩ := Flow.nest_around h hk
  obtain rfl := step_endLoop hstep
  rw [← List.nil_append (.loop :: st')] at hst
  obtain ⟨before, body, htake, -, hb⟩ := exists_opener hst
  have hlen := congrArg List.length htake
  rw [List.length_take_of_le (Nat.le_of_lt hlt), List.length_append, List.length_cons] at hlen
  refine ⟨before.length, before, body, ks.drop (i + 1), ?_, balanced_iff_nest.mpr hb, rfl, by omega⟩
  rw [← htake, ← hat, ← List.drop_eq_getElem_cons hlt, List.take_append_drop]

private theorem getElem?_body (before body after : List Kind) {j : Nat} (hj : j < body.length) :
    (before ++ .loop :: body ++ after)[before.length + j + 1]? = body[j]? := by
  have hlt : before.length + j + 1 < (before ++ .loop :: body).length := by
    rw [List.length_append, List.length_cons]
    omega
  rw [List.getElem?_append_left hlt, List.getElem?_append_right (by omega),
    show before.length + j + 1 - before.length = j + 1 by omega, List.getElem?_cons_succ]

private theorem drop_body (before body after : List Kind) {j : Nat} (hj : j ≤ body.length) :
    (before ++ .loop :: body ++ after).drop (before.length + j + 1) = body.drop j ++ after := by
  rw [List.append_assoc, Nat.add_assoc, List.drop_length_add_append, List.cons_append,
    List.drop_succ_cons, List.drop_append_of_le_length hj]

private theorem LoopBlock.position {ks : List Kind} {start exit i : Nat} {k : Kind}
    (h : LoopBlock ks start exit) (hlo : start < i) (hhi : i < exit) (hk : ks[i]? = some k)
    (hend : k ≠ .endLoop) :
    ∃ before body after j, ks = before ++ .loop :: body ++ .endLoop :: after ∧
      i = before.length + j + 1 ∧ Balanced body ∧ body[j]? = some k ∧ before.length = start ∧
      exit = start + body.length + 2 := by
  -- A position in a loop that is not its closer is one in the body.
  have hne := h.succ_ne_exit hk hend
  obtain ⟨before, body, after, rfl, hb, rfl, rfl⟩ := h
  obtain ⟨j, rfl⟩ := Nat.exists_eq_add_of_lt hlo
  rw [getElem?_body before body _ (by omega)] at hk
  exact ⟨before, body, after, j, rfl, rfl, hb, hk, rfl, rfl⟩

/-- A loop that is opened inside another one is closed inside it. -/
theorem LoopBlock.exit_lt {ks : List Kind} {start exit start' exit' : Nat}
    (h : LoopBlock ks start exit) (h' : LoopBlock ks start' exit') (hlo : start < start')
    (hhi : start' < exit) : exit' < exit := by
  obtain ⟨before, body, after, j, rfl, rfl, hb, hat, rfl, rfl⟩ :=
    h.position hlo hhi h'.opener (by decide)
  obtain ⟨e, he⟩ := exists_loopBlock (balanced_iff_nest.mp hb) hat
  have hle := he.exit_le
  rw [(he.of_body before after).exit_unique h']
  omega

/-- A loop opened before one that is around a position, and not closed before that, is around
the position too. -/
theorem LoopAround.outer {ks : List Kind} {i start exit start' exit' : Nat}
    (h : LoopAround ks i start' exit') (hb : LoopBlock ks start exit) (hle : start ≤ start')
    (hlt : start' < exit) : LoopAround ks i start exit := by
  rcases Nat.lt_or_eq_of_le hle with hopened | rfl
  · have hnest := hb.exit_lt h.block hopened hlt
    exact ⟨hb, Nat.lt_trans hopened h.start_lt, Nat.lt_trans h.lt_exit hnest⟩
  · exact hb.exit_unique h.block ▸ h

/-- A position is inside a loop where a loop block reaches over it and past the next one. -/
theorem insideLoop_iff {ks : List Kind} {i : Nat} :
    InsideLoop ks i ↔ ∃ start exit, LoopBlock ks start exit ∧ start < i ∧ i + 1 < exit := by
  constructor
  · rintro ⟨before, body, after, he, hb, hlo, hhi⟩
    exact ⟨_, _, ⟨before, body, after, he, hb, rfl, rfl⟩, hlo, by omega⟩
  · rintro ⟨start, exit, ⟨before, body, after, he, hb, rfl, rfl⟩, hlo, hhi⟩
    exact ⟨before, body, after, he, hb, hlo, by omega⟩

/-- From a position in the body of a loop, and in no loop inside of it, the scan ends at the
exit of the loop. -/
theorem LoopBlock.findLoopExit_of_body {ks : List Kind} {start exit i : Nat} {k : Kind}
    (h : LoopBlock ks start exit) (hlo : start < i) (hhi : i < exit) (hk : ks[i]? = some k)
    (hloop : k ≠ .loop) (hend : k ≠ .endLoop)
    (hin : ∀ start' exit', LoopBlock ks start' exit' → start < start' → start' < i → exit' ≤ i) :
    Flow.findLoopExit ks i = .ok exit := by
  obtain ⟨before, body, after, j, rfl, rfl, hb, hat, rfl, rfl⟩ := h.position hlo hhi hk hend
  have hj := (List.getElem?_eq_some_iff.mp hat).1
  -- No loop of the body is open at the position, so the depth there is zero.
  have hclosed : ¬ LoopOpenAt body j := by
    rw [loopOpenAt_iff_insideLoop hb hj (by rw [hat]; simpa using hend), insideLoop_iff]
    rintro ⟨start, exit, hblock, hlo', hhi'⟩
    have hle := hin _ _ (hblock.of_body before after) (by omega) (by omega)
    omega
  obtain ⟨st, st', hst, hstep, hrest⟩ := Flow.nest_around (balanced_iff_nest.mp hb) hat
  have hnone : loops st = 0 := by
    rw [loops, List.count_eq_zero]
    exact fun hm => hclosed ⟨st, hst, hm⟩
  have hdepth : loops st' = 0 := by
    have hloops := loops_step hstep
    rwa [if_neg hend, if_neg hloop, hnone] at hloops
  have hscan := Flow.closePast_nest counts_loops hrest 0 (before.length + (j + 1) + 1)
    (.endLoop :: after)
  rw [hdepth] at hscan
  rw [Flow.findLoopExit, Nat.add_assoc _ j 1, drop_body before body _ hj, hscan]
  simp only [Flow.closePast, Flow.target, List.length_drop, loops, List.count_nil, reduceCtorEq,
    if_false, if_true]
  congr 1
  omega

/-- From a branch in a loop the scan for its false body stays in the loop. -/
theorem LoopBlock.skipFalseBranch_lt {ks : List Kind} {start exit i next : Nat}
    (h : LoopBlock ks start exit) (hlo : start < i) (hhi : i < exit)
    (hk : ks[i]? = some .conditionalBranch) (hn : Flow.skipFalseBranch ks i = .ok next) :
    next < exit := by
  obtain ⟨before, body, after, j, rfl, rfl, hb, hat, rfl, rfl⟩ :=
    h.position hlo hhi hk (by decide)
  have hj := (List.getElem?_eq_some_iff.mp hat).1
  obtain ⟨st, st', -, hstep, hrest⟩ := Flow.nest_around (balanced_iff_nest.mp hb) hat
  obtain rfl := Option.some.inj hstep
  obtain ⟨found, hfound, -, hle⟩ := Flow.falseBranchPast_found hrest (d := 0)
    (by rw [branches, List.count_cons_self]; omega) (before.length + (j + 1) + 1)
  rw [Flow.skipFalseBranch, Nat.add_assoc _ j 1, drop_body before body _ hj,
    Flow.falseBranchPast_append hfound] at hn
  cases hn
  rw [List.length_drop] at hle
  omega

/-- From the end of a true body in a loop the scan for the end of the branch stays in the
loop. -/
theorem LoopBlock.skipElseBody_lt {ks : List Kind} {start exit i next : Nat}
    (h : LoopBlock ks start exit) (hlo : start < i) (hhi : i < exit)
    (hk : ks[i]? = some .elseBranch) (hn : Flow.skipElseBody ks i = .ok next) :
    next < exit := by
  obtain ⟨before, body, after, j, rfl, rfl, hb, hat, rfl, rfl⟩ :=
    h.position hlo hhi hk (by decide)
  have hj := (List.getElem?_eq_some_iff.mp hat).1
  obtain ⟨st, st', -, hstep, hrest⟩ := Flow.nest_around (balanced_iff_nest.mp hb) hat
  obtain ⟨below, -, rfl⟩ := step_elseBranch hstep
  obtain ⟨found, hfound, -, hle⟩ := Flow.closePast_found counts_branches hrest (d := 0)
    (by rw [branches, List.count_cons_self]; omega) (before.length + (j + 1) + 1)
  rw [Flow.skipElseBody, Nat.add_assoc _ j 1, drop_body before body _ hj,
    Flow.closePast_append hfound] at hn
  cases hn
  rw [List.length_drop] at hle
  omega

/-- Of the loops around a position whose openers are candidates, one is opened last. -/
theorem exists_innermost {ks : List Kind} {candidate : Nat → Prop} {i : Nat}
    (h : ∃ start exit, candidate start ∧ LoopAround ks i start exit) :
    ∃ start exit, Innermost ks candidate i start exit := by
  classical
  obtain ⟨start, exit, hc, ha⟩ := h
  let eligible := fun start => candidate start ∧ ∃ exit, LoopAround ks i start exit
  obtain ⟨hchosen, exit', ha'⟩ : eligible (Nat.findGreatest eligible i) :=
    Nat.findGreatest_spec (Nat.le_of_lt ha.start_lt) ⟨hc, exit, ha⟩
  refine ⟨_, exit', ha', hchosen, fun start'' exit'' hc'' ha'' => ?_⟩
  exact Nat.le_findGreatest (Nat.le_of_lt ha''.start_lt) ⟨hc'', exit'', ha''⟩

end Nesting

end EventScript
