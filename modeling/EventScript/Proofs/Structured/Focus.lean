import EventScript.Proofs.Program.Flow
import EventScript.Proofs.Structured.Machine

/-!
# Positions in a structured program

`Focus` walks a tree and its list of commands side by side: a part of the tree, the index
where its commands stand, what is left to do after it, and the openers of the loops around
it. From it everything that the interpreter finds by scans can be read off: the command at
the index, the targets of its moves, and the loops that enclose it.
-/

namespace EventScript

/-- A list goes on with a given sequence at an index. -/
def Reads {α : Type} (xs : List α) (i : Nat) (ys : List α) : Prop := ys <+: xs.drop i

namespace Reads

variable {α : Type} {xs ys zs : List α} {i : Nat}

/-- The first element stands at the index. -/
theorem head {y : α} (h : Reads xs i (y :: ys)) : xs[i]? = some y := by
  obtain ⟨more, h⟩ := h
  rw [← List.head?_drop, ← h]
  rfl

/-- The rest stands behind the first element. -/
theorem tail {y : α} (h : Reads xs i (y :: ys)) : Reads xs (i + 1) ys := by
  obtain ⟨more, h⟩ := h
  refine ⟨more, ?_⟩
  rw [← List.drop_drop, ← h]
  rfl

/-- The first part stands at the index. -/
theorem left (h : Reads xs i (ys ++ zs)) : Reads xs i ys := (List.prefix_append ys zs).trans h

/-- The second part stands behind the first. -/
theorem right (h : Reads xs i (ys ++ zs)) : Reads xs (i + ys.length) zs := by
  obtain ⟨more, h⟩ := h
  refine ⟨more, ?_⟩
  rw [← List.drop_drop, ← h, List.append_assoc, List.drop_left]

/-- An image of the list goes on with the image of the sequence. -/
theorem map {β : Type} (f : α → β) (h : Reads xs i ys) : Reads (xs.map f) i (ys.map f) := by
  rw [Reads, ← List.map_drop]
  exact List.IsPrefix.map f h

/-- The list up to the end of the sequence. -/
theorem take (h : Reads xs i ys) : xs.take (i + ys.length) = xs.take i ++ ys := by
  rw [List.take_add, ← List.prefix_iff_eq_take.mp h]

end Reads

/-- A part of a tree where it stands, with what is left to do after it and the openers of the
loops around it, innermost first. -/
inductive Focus (T : Tree) : Nat → Tree → List Cont → ControlStack → Prop
  | root : Focus T 0 T [] []
  | basic {i : Nat} {l : Leaf} {next : Tree} {ks : List Cont} {st : ControlStack}
    (h : Focus T i (.basic l next) ks st) : Focus T (i + 1) next ks st
  | ifThen {i : Nat} {set : ConditionSet} {yes next : Tree} {ks : List Cont}
    {st : ControlStack} (h : Focus T i (.ifThen set yes next) ks st) :
    Focus T (i + 1) yes (.resume next :: ks) st
  | afterIfThen {i : Nat} {set : ConditionSet} {yes next : Tree} {ks : List Cont}
    {st : ControlStack} (h : Focus T i (.ifThen set yes next) ks st) :
    Focus T (i + yes.size + 2) next ks st
  | ifElse {i : Nat} {set : ConditionSet} {yes no next : Tree} {ks : List Cont}
    {st : ControlStack} (h : Focus T i (.ifElse set yes no next) ks st) :
    Focus T (i + 1) yes (.resume next :: ks) st
  | alternative {i : Nat} {set : ConditionSet} {yes no next : Tree} {ks : List Cont}
    {st : ControlStack} (h : Focus T i (.ifElse set yes no next) ks st) :
    Focus T (i + yes.size + 2) no (.resume next :: ks) st
  | afterIfElse {i : Nat} {set : ConditionSet} {yes no next : Tree} {ks : List Cont}
    {st : ControlStack} (h : Focus T i (.ifElse set yes no next) ks st) :
    Focus T (i + yes.size + no.size + 3) next ks st
  | loop {i : Nat} {body next : Tree} {ks : List Cont} {st : ControlStack}
    (h : Focus T i (.loop body next) ks st) :
    Focus T (i + 1) body (.again body next :: ks) (i :: st)
  | afterLoop {i : Nat} {body next : Tree} {ks : List Cont} {st : ControlStack}
    (h : Focus T i (.loop body next) ks st) : Focus T (i + body.size + 2) next ks st

namespace Focus

variable {T t : Tree} {i : Nat} {ks : List Cont} {st : ControlStack}

/-- The same position by another name. -/
theorem at_eq {j : Nat} (h : Focus T i t ks st) (hi : i = j) : Focus T j t ks st := hi ▸ h

/-- The commands of the part stand at its index. -/
theorem reads (h : Focus T i t ks st) : Reads T.flatten i t.flatten := by
  induction h with
  | root => exact List.prefix_refl _
  | basic _ ih => exact ih.tail
  | ifThen _ ih => exact ih.tail.left
  | @afterIfThen i _ yes _ _ _ _ ih =>
    have h := ih.tail.right.tail
    rwa [Nat.add_right_comm i 1] at h
  | ifElse _ ih => exact ih.tail.left
  | @alternative i _ yes _ _ _ _ _ ih =>
    have h := ih.tail.right.tail.left
    rwa [Nat.add_right_comm i 1] at h
  | @afterIfElse i _ yes no _ _ _ _ ih =>
    have h := ih.tail.right.tail.right.tail
    have hi : i + 1 + yes.flatten.length + 1 + no.flatten.length + 1 =
        i + yes.size + no.size + 3 := by
      simp only [Tree.size]
      omega
    rwa [hi] at h
  | loop _ ih => exact ih.tail.left
  | @afterLoop i body _ _ _ _ ih =>
    have h := ih.tail.right.tail
    rwa [Nat.add_right_comm i 1] at h

/-- The kinds of the part stand at its index. -/
theorem reads_kinds (h : Focus T i t ks st) : Reads T.kinds i t.kinds := h.reads.map Command.kind

/-- The loops around a position are before it. -/
theorem lt_of_mem (h : Focus T i t ks st) : ∀ f ∈ st, f < i := by
  induction h with
  | root => intro f hf; cases hf
  | loop _ ih =>
    intro f hf
    rcases List.mem_cons.mp hf with rfl | hf
    · exact Nat.lt_succ_self f
    · exact Nat.lt_succ_of_lt (ih f hf)
  | _ =>
    rename_i ih
    intro f hf
    have := ih f hf
    omega

/-! ### The loops around a position -/

private theorem enclosingFrom_ifThen (set : ConditionSet) (yes next : Tree) (i cursor : Nat) :
    (Tree.ifThen set yes next).enclosingFrom i cursor =
      yes.enclosingFrom (i + 1) cursor ++ next.enclosingFrom (i + yes.size + 2) cursor := by
  simp only [Tree.enclosingFrom, Tree.loopsFrom, List.filter_append, List.map_append]

private theorem enclosingFrom_ifElse (set : ConditionSet) (yes no next : Tree)
    (i cursor : Nat) :
    (Tree.ifElse set yes no next).enclosingFrom i cursor =
      yes.enclosingFrom (i + 1) cursor ++ (no.enclosingFrom (i + yes.size + 2) cursor ++
        next.enclosingFrom (i + yes.size + no.size + 3) cursor) := by
  simp only [Tree.enclosingFrom, Tree.loopsFrom, List.filter_append, List.map_append]

private theorem enclosingFrom_loop (body next : Tree) (i cursor : Nat) :
    (Tree.loop body next).enclosingFrom i cursor =
      (if i < cursor ∧ cursor ≤ i + body.size + 1 then [i] else []) ++
        (body.enclosingFrom (i + 1) cursor ++
          next.enclosingFrom (i + body.size + 2) cursor) := by
  simp only [Tree.enclosingFrom, Tree.loopsFrom, List.filter_append, List.filter_cons]
  by_cases h : i < cursor ∧ cursor ≤ i + body.size + 1
  · simp [h]
  · have hb : (decide (i < cursor) && decide (cursor ≤ i + body.size + 1)) = false := by
      rw [← Bool.not_eq_true, Bool.and_eq_true, decide_eq_true_eq, decide_eq_true_eq]
      exact h
    simp [hb, h]

/-- Within a part of a tree the enclosing loops are those around the part and those of the
part itself. -/
theorem enclosing_within (h : Focus T i t ks st) {cursor : Nat} (hlo : i ≤ cursor)
    (hhi : cursor ≤ i + t.size) :
    T.enclosing cursor = st.reverse ++ t.enclosingFrom i cursor := by
  induction h with
  | root => rfl
  | basic _ ih => exact ih (by omega) (by rw [Tree.size_basic]; omega)
  | @ifThen i _ yes next _ _ _ ih =>
    rw [ih (by omega) (by rw [Tree.size_ifThen]; omega), enclosingFrom_ifThen,
      next.enclosingFrom_before (by omega), List.append_nil]
  | @afterIfThen i _ yes next _ _ _ ih =>
    rw [ih (by omega) (by rw [Tree.size_ifThen]; omega), enclosingFrom_ifThen,
      yes.enclosingFrom_behind (by omega), List.nil_append]
  | @ifElse i _ yes no next _ _ _ ih =>
    rw [ih (by omega) (by rw [Tree.size_ifElse]; omega), enclosingFrom_ifElse,
      no.enclosingFrom_before (by omega), next.enclosingFrom_before (by omega),
      List.append_nil, List.append_nil]
  | @alternative i _ yes no next _ _ _ ih =>
    rw [ih (by omega) (by rw [Tree.size_ifElse]; omega), enclosingFrom_ifElse,
      yes.enclosingFrom_behind (by omega), next.enclosingFrom_before (by omega),
      List.append_nil, List.nil_append]
  | @afterIfElse i _ yes no next _ _ _ ih =>
    rw [ih (by omega) (by rw [Tree.size_ifElse]; omega), enclosingFrom_ifElse,
      yes.enclosingFrom_behind (by omega), no.enclosingFrom_behind (by omega),
      List.nil_append, List.nil_append]
  | @loop i body next _ st _ ih =>
    rw [ih (by omega) (by rw [Tree.size_loop]; omega), enclosingFrom_loop,
      next.enclosingFrom_before (by omega), if_pos (by omega), List.append_nil,
      List.reverse_cons, List.append_assoc]
  | @afterLoop i body next _ st _ ih =>
    rw [ih (by omega) (by rw [Tree.size_loop]; omega), enclosingFrom_loop,
      body.enclosingFrom_behind (by omega), if_neg (by omega), List.nil_append,
      List.nil_append]

/-- The stack of a position is the list of the loops that enclose it. -/
theorem reverse_eq_enclosing (h : Focus T i t ks st) : st.reverse = T.enclosing i := by
  rw [h.enclosing_within (Nat.le_refl i) (Nat.le_add_right i _),
    t.enclosingFrom_before (Nat.le_refl i), List.append_nil]

/-! ### What stands behind a part -/

/-- What stands at the index behind a part of a tree: the end of the program, a marker that
ends a body of a branch, or the end of a loop. -/
def Behind (T : Tree) (i : Nat) (st : ControlStack) : List Cont → Prop
  | [] => i = T.size ∧ st = []
  | .resume next :: ks =>
    (T.flatten[i]? = some (.ofAction .endIf) ∧ Focus T (i + 1) next ks st) ∨
      ∃ no : Tree, Reads T.flatten i
          (.ofAction .elseBranch :: (no.flatten ++ [.ofAction .endIf])) ∧
        Focus T (i + no.size + 2) next ks st
  | .again body next :: ks => ∃ start rest, st = start :: rest ∧ i = start + body.size + 1 ∧
      Focus T start (.loop body next) ks rest

private theorem Behind.at_eq {i j : Nat} (h : Behind T i st ks) (hi : i = j) :
    Behind T j st ks := hi ▸ h

/-- Behind every part stands what is left to do after it. -/
theorem behind (h : Focus T i t ks st) : Behind T (i + t.size) st ks := by
  induction h with
  | root => exact ⟨Nat.zero_add _, rfl⟩
  | basic _ ih => exact ih.at_eq (by rw [Tree.size_basic]; omega)
  | @ifThen i _ yes _ _ _ h _ =>
    have hend := h.reads.tail.right.head
    rw [show i + 1 + yes.flatten.length = i + 1 + yes.size from rfl] at hend
    exact .inl ⟨hend, h.afterIfThen.at_eq (by omega)⟩
  | afterIfThen _ ih => exact ih.at_eq (by rw [Tree.size_ifThen]; omega)
  | @ifElse i _ yes no next _ _ h _ =>
    have helse := h.reads.tail.right
    have hsplit : Command.ofAction .elseBranch :: (no.flatten ++ .ofAction .endIf :: next.flatten)
        = Command.ofAction .elseBranch :: (no.flatten ++ [.ofAction .endIf]) ++ next.flatten := by
      simp
    rw [hsplit] at helse
    exact .inr ⟨no, helse.left, h.afterIfElse.at_eq (by omega)⟩
  | @alternative i _ yes no _ _ _ h _ =>
    have hend := h.reads.tail.right.tail.right.head
    have hi : i + 1 + yes.flatten.length + 1 + no.flatten.length =
        i + yes.size + 2 + no.size := by
      simp only [Tree.size]
      omega
    rw [hi] at hend
    exact .inl ⟨hend, h.afterIfElse.at_eq (by omega)⟩
  | afterIfElse _ ih => exact ih.at_eq (by rw [Tree.size_ifElse]; omega)
  | @loop i _ _ _ st h _ => exact ⟨i, st, rfl, by omega, h⟩
  | afterLoop _ ih => exact ih.at_eq (by rw [Tree.size_loop]; omega)

/-- Leaving the innermost loop of what is left to do leads behind the innermost loop around
the position. -/
theorem unwind (h : Focus T i t ks st) {next : Tree} {ks' : List Cont}
    (hu : Cont.unwind ks = some (next, ks')) :
    ∃ start rest body, st = start :: rest ∧ i + t.size ≤ start + body.size + 1 ∧
      Focus T start (.loop body next) ks' rest := by
  have hb := h.behind
  induction ks generalizing i t with
  | nil => cases hu
  | cons k ks ih =>
    cases k with
    | resume u =>
      rcases hb with ⟨-, hf⟩ | ⟨no, -, hf⟩
      · obtain ⟨start, rest, body, hst, hle, hloop⟩ := ih hf hu hf.behind
        exact ⟨start, rest, body, hst, by omega, hloop⟩
      · obtain ⟨start, rest, body, hst, hle, hloop⟩ := ih hf hu hf.behind
        exact ⟨start, rest, body, hst, by omega, hloop⟩
    | again body u =>
      cases hu
      obtain ⟨start, rest, hst, hi, hloop⟩ := hb
      exact ⟨start, rest, body, hst, by omega, hloop⟩

/-- Where no loop is left, none encloses the position. -/
theorem unwind_none (h : Focus T i t ks st) (hu : Cont.unwind ks = none) : st = [] := by
  have hb := h.behind
  induction ks generalizing i t with
  | nil => exact hb.2
  | cons k ks ih =>
    cases k with
    | resume u =>
      rcases hb with ⟨-, hf⟩ | ⟨no, -, hf⟩
      · exact ih hf hu hf.behind
      · exact ih hf hu hf.behind
    | again body u => cases hu

end Focus

end EventScript
