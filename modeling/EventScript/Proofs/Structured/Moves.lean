import EventScript.Proofs.Structured.Focus

/-!
# Moves in a structured program

The scans of the interpreter find the markers of the block that a position belongs to, and
each move leads from one position of the tree to the next one of its run.
-/

namespace EventScript

open Nesting EventScript.Flow

namespace Focus

variable {T : Tree} {i : Nat} {ks : List Cont} {st : ControlStack}

/-! ### Targets of scans -/

private theorem drop_eq {kinds ks ks' rest : List Kind} {k : Kind}
    (h : Reads kinds i (k :: ks ++ ks' ++ rest)) :
    ∃ more, kinds.drop (i + 1) = ks ++ (ks' ++ more) := by
  obtain ⟨more, h⟩ := h.tail
  exact ⟨rest ++ more, by rw [← h]; simp⟩

/-- A branch without an `else` whose condition is false is passed. -/
theorem skipFalseBranch_ifThen {set : ConditionSet} {yes next : Tree}
    (h : Focus T i (.ifThen set yes next) ks st) :
    skipFalseBranch T.kinds i = .ok (i + yes.size + 2) := by
  have hr := h.reads_kinds
  rw [Tree.kinds_ifThen] at hr
  obtain ⟨more, hdrop⟩ := drop_eq hr
  rw [skipFalseBranch, hdrop, falseBranchPast_balanced yes.balanced, Tree.length_kinds]
  rw [Nat.add_right_comm]
  rfl

/-- A false condition leads behind the `else`. -/
theorem skipFalseBranch_ifElse {set : ConditionSet} {yes no next : Tree}
    (h : Focus T i (.ifElse set yes no next) ks st) :
    skipFalseBranch T.kinds i = .ok (i + yes.size + 2) := by
  have hr := h.reads_kinds
  rw [Tree.kinds_ifElse, List.append_assoc] at hr
  obtain ⟨more, hdrop⟩ := drop_eq hr
  rw [skipFalseBranch, hdrop, falseBranchPast_balanced yes.balanced, Tree.length_kinds]
  rw [Nat.add_right_comm]
  rfl

/-- The `else` behind a true body leads behind the `end_if`. -/
theorem skipElseBody_of_reads {no : Tree}
    (h : Reads T.flatten i (.ofAction .elseBranch :: (no.flatten ++ [.ofAction .endIf]))) :
    skipElseBody T.kinds i = .ok (i + no.size + 2) := by
  obtain ⟨more, hdrop⟩ := (h.map Command.kind).tail
  rw [List.map_append, List.append_assoc] at hdrop
  have hpast := closePast_block counts_branches no.balanced (i + 1) more
  rw [Tree.length_kinds, Nat.add_right_comm i 1] at hpast
  rw [skipElseBody, Tree.kinds, ← hdrop]
  exact congrArg (target i .elseBranch) hpast

/-- A loop ends behind its body. -/
theorem findLoopExit_eq {body next : Tree} (h : Focus T i (.loop body next) ks st) :
    findLoopExit T.kinds i = .ok (i + body.size + 2) := by
  have hr := h.reads_kinds
  rw [Tree.kinds_loop] at hr
  obtain ⟨more, hdrop⟩ := drop_eq hr
  have hpast := closePast_block counts_loops body.balanced (i + 1) more
  rw [Tree.length_kinds, Nat.add_right_comm i 1] at hpast
  rw [findLoopExit, hdrop]
  exact congrArg (target i .loop) hpast

/-- The end of a loop finds its opener. -/
theorem findLoopStart_eq {body next : Tree} (h : Focus T i (.loop body next) ks st) :
    findLoopStart T.kinds (i + body.size + 1) = some i := by
  have hr := h.reads_kinds
  rw [Tree.kinds_loop, List.append_assoc] at hr
  have htake := hr.left.take
  rw [List.length_cons, Tree.length_kinds, ← Nat.add_assoc] at htake
  have hopen := openBefore_block body.balanced i (T.kinds.take i).reverse
  rw [Tree.length_kinds, Nat.add_right_comm] at hopen
  rw [findLoopStart, htake, List.reverse_append, List.reverse_cons, List.append_assoc]
  exact hopen

/-- The frame of the innermost loop around a position is kept. -/
theorem discardOutside_eq {body next : Tree} {rest : ControlStack} {position : Nat}
    (h : Focus T i (.loop body next) ks rest) (hlo : i < position)
    (hhi : position ≤ i + body.size + 1) :
    discardOutside T.kinds position (i :: rest) = (.ok (), i :: rest) := by
  simp only [discardOutside, h.findLoopExit_eq]
  exact if_pos ⟨hlo, by omega⟩

/-! ### From one position to the next -/

/-- A move leads from an index to the position of a part with what is left after it. -/
def Goes (T : Tree) (labels : Labels) (motion : Motion) (i : Nat) (st : ControlStack)
    (t : Tree) (ks : List Cont) : Prop :=
  ∃ r next st', Flow.resolve motion T.kinds labels i st = (.ok r, st') ∧
    r.target i = some next ∧ Focus T next t ks st'

variable {labels : Labels}

/-- The next command is the next position. -/
theorem goes_next {t : Tree} (h : Focus T (i + 1) t ks st) :
    Goes T labels .next i st t ks :=
  ⟨.advance, i + 1, st, rfl, rfl, h⟩

/-- A false condition leads behind a branch without an `else`. -/
theorem goes_ifThenPassed {set : ConditionSet} {yes next : Tree}
    (h : Focus T i (.ifThen set yes next) ks st) :
    Goes T labels .skipFalseBranch i st next ks := by
  refine ⟨.moveTo (i + yes.size + 2), _, st, ?_, rfl, h.afterIfThen⟩
  rw [Flow.resolve, h.skipFalseBranch_ifThen]
  rfl

/-- A false condition leads to the body of the `else`. -/
theorem goes_alternative {set : ConditionSet} {yes no next : Tree}
    (h : Focus T i (.ifElse set yes no next) ks st) :
    Goes T labels .skipFalseBranch i st no (.resume next :: ks) := by
  refine ⟨.moveTo (i + yes.size + 2), _, st, ?_, rfl, h.alternative⟩
  rw [Flow.resolve, h.skipFalseBranch_ifElse]
  rfl

/-- A loop leads to its body and puts its frame on the stack. -/
theorem goes_loop {body next : Tree} (h : Focus T i (.loop body next) ks st) :
    Goes T labels .enterLoop i st body (.again body next :: ks) :=
  ⟨.advance, i + 1, i :: st, rfl, rfl, h.loop⟩

/-- A break leads behind the innermost loop. -/
theorem goes_breakLoop {t next : Tree} {ks' : List Cont}
    (h : Focus T i (.breakLoop t) ks st) (hu : Cont.unwind ks = some (next, ks')) :
    Goes T labels .breakLoop i st next ks' := by
  obtain ⟨start, rest, body, rfl, hle, hloop⟩ := h.unwind hu
  have hlt := h.lt_of_mem start (List.mem_cons_self ..)
  have hsize := Tree.size_breakLoop t
  refine ⟨.moveTo (start + body.size + 2), _, rest, ?_, rfl, hloop.afterLoop⟩
  simp only [Flow.resolve, hloop.discardOutside_eq hlt (by omega), hloop.findLoopExit_eq]
  rfl

/-- What stands behind a body of a branch leads behind the branch. -/
theorem goes_resume {next : Tree} (h : Focus T i .done (.resume next :: ks) st) :
    ∃ a : Action, T.flatten[i]? = some (.ofAction a) ∧ (a = .endIf ∨ a = .elseBranch) ∧
      ∀ memory, Goes T labels (a.motion memory) i st next ks := by
  have hb := h.behind
  rw [Tree.size_done, Nat.add_zero] at hb
  rcases hb with ⟨hend, hf⟩ | ⟨no, helse, hf⟩
  · exact ⟨.endIf, hend, .inl rfl, fun _ => goes_next hf⟩
  · refine ⟨.elseBranch, helse.head, .inr rfl, fun _ => ?_⟩
    refine ⟨.moveTo (i + no.size + 2), _, st, ?_, rfl, hf⟩
    rw [Action.motion, Flow.resolve, skipElseBody_of_reads helse]
    rfl

/-- The end of a loop leads to its body. -/
theorem goes_again {body next : Tree} (h : Focus T i .done (.again body next :: ks) st) :
    T.flatten[i]? = some (.ofAction .endLoop) ∧
      Goes T labels .endLoop i st body (.again body next :: ks) := by
  obtain ⟨start, rest, rfl, hi, hloop⟩ := h.behind
  rw [Tree.size_done, Nat.add_zero] at hi
  subst hi
  have hend := hloop.reads.tail.right.head
  rw [Nat.add_right_comm] at hend
  refine ⟨hend, .moveTo (start + 1), _, start :: rest, ?_, rfl, hloop.loop⟩
  simp only [Flow.resolve, hloop.discardOutside_eq (by omega) (Nat.le_refl _)]
  rw [if_pos hloop.findLoopStart_eq]

/-! ### Breaks -/

private theorem nest_reads (pre : List Kind) {kinds rest : List Kind} {n n' : Nesting} {j : Nat}
    (hn : nest [] (kinds.take i) = some n) (hr : Reads kinds i (pre ++ rest))
    (hs : n.nest pre = some n') (hj : i + pre.length = j) :
    nest [] (kinds.take j) = some n' := by
  subst hj
  rw [hr.left.take, nest_append, hn, Option.bind_some, hs]

private theorem nest_alternative (yes : Tree) (n : Nesting) :
    n.nest (.conditionalBranch :: yes.kinds ++ [.elseBranch]) = some (.alternative :: n) := by
  rw [List.cons_append, nest_cons]
  simp only [step, Option.bind_some]
  rw [nest_append, nest_balanced yes.balanced]
  rfl

/-- The blocks that are open before a position hold a loop only if one encloses it. -/
theorem nested {t : Tree} (h : Focus T i t ks st) :
    ∃ n, nest [] (T.kinds.take i) = some n ∧ (.loop ∈ n → st ≠ []) := by
  induction h with
  | root => exact ⟨[], rfl, fun hm => by cases hm⟩
  | @basic i l next _ _ h ih =>
    obtain ⟨n, hn, hst⟩ := ih
    have hr : Reads T.kinds i ([l.command.kind] ++ next.kinds) := h.reads_kinds
    have hs : n.nest [l.command.kind] = some n := nest_of_derives (.plain l.isMarker_kind) n
    exact ⟨n, nest_reads _ hn hr hs rfl, hst⟩
  | @ifThen i _ yes next _ _ h ih =>
    obtain ⟨n, hn, hst⟩ := ih
    have hr := h.reads_kinds
    rw [Tree.kinds_ifThen, List.append_assoc] at hr
    exact ⟨.branch :: n, nest_reads [.conditionalBranch] hn hr rfl rfl, by simpa using hst⟩
  | @afterIfThen i _ yes next _ _ h ih =>
    obtain ⟨n, hn, hst⟩ := ih
    have hr := h.reads_kinds
    rw [Tree.kinds_ifThen] at hr
    have hs := nest_of_derives (.ifThen yes.balanced) n
    exact ⟨n, nest_reads _ hn hr hs (by simp; omega), hst⟩
  | @ifElse i _ yes no next _ _ h ih =>
    obtain ⟨n, hn, hst⟩ := ih
    have hr := h.reads_kinds
    rw [Tree.kinds_ifElse, List.append_assoc, List.append_assoc] at hr
    exact ⟨.branch :: n, nest_reads [.conditionalBranch] hn hr rfl rfl, by simpa using hst⟩
  | @alternative i _ yes no next _ _ h ih =>
    obtain ⟨n, hn, hst⟩ := ih
    have hr : Reads T.kinds i ((.conditionalBranch :: yes.kinds ++ [.elseBranch]) ++
        (no.kinds ++ [.endIf] ++ next.kinds)) := by
      simpa [Tree.kinds_ifElse] using h.reads_kinds
    have hs := nest_alternative yes n
    exact ⟨.alternative :: n, nest_reads _ hn hr hs (by simp; omega), by simpa using hst⟩
  | @afterIfElse i _ yes no next _ _ h ih =>
    obtain ⟨n, hn, hst⟩ := ih
    have hr := h.reads_kinds
    rw [Tree.kinds_ifElse] at hr
    have hs := nest_of_derives (.ifElse yes.balanced no.balanced) n
    exact ⟨n, nest_reads _ hn hr hs (by simp; omega), hst⟩
  | @loop i body next _ _ h ih =>
    obtain ⟨n, hn, -⟩ := ih
    have hr := h.reads_kinds
    rw [Tree.kinds_loop, List.append_assoc] at hr
    exact ⟨.loop :: n, nest_reads [.loop] hn hr rfl rfl, by simp⟩
  | @afterLoop i body next _ _ h ih =>
    obtain ⟨n, hn, hst⟩ := ih
    have hr := h.reads_kinds
    rw [Tree.kinds_loop] at hr
    have hs := nest_of_derives (.loop body.balanced) n
    exact ⟨n, nest_reads _ hn hr hs (by simp; omega), hst⟩

/-- A break in an accepted program has a loop to leave. -/
theorem unwind_of_accepted {t : Tree} {p : Program} (ha : p.Accepted)
    (hp : p.commands = T.flatten) (h : Focus T i (.breakLoop t) ks st) :
    ∃ next ks', Cont.unwind ks = some (next, ks') := by
  cases hu : Cont.unwind ks with
  | some r => exact ⟨r.1, r.2, rfl⟩
  | none =>
    have hat : p.actions[i]? = some .breakLoop := by
      rw [Program.actions, hp, List.getElem?_map, h.reads.head]
      rfl
    obtain ⟨n, hn, hloop⟩ := ha.breaks i hat
    rw [← Program.kinds_eq, Program.kinds, hp] at hn
    obtain ⟨n', hn', hst⟩ := h.nested
    obtain rfl := Option.some.inj (hn.symm.trans hn')
    exact absurd (h.unwind_none hu) (hst hloop)

end Focus

end EventScript
