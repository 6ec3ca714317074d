import EventScript.Program.Flow
import EventScript.Proofs.Program.Nesting

/-!
# Scans over nested blocks

Each scan counts the depth of one family of blocks, and the depth follows the number of
open blocks of that family. So a scan passes a balanced sequence as a whole, and a scan
that starts inside a block finds a target where the sequence ahead closes every block.
-/

namespace EventScript

namespace Nesting

/-- `depth` counts the open blocks of the family with the given opener and closer. -/
structure Counts (opener closer : Kind) (depth : Nesting → Nat) : Prop where
  opener_ne_closer : opener ≠ closer
  depth_nil : depth [] = 0
  depth_step : ∀ {st st' : Nesting} {k : Kind}, st.step k = some st' →
    depth st' + (if k = closer then 1 else 0) = depth st + (if k = opener then 1 else 0)

/-- The loops are a family. -/
theorem counts_loops : Counts .loop .endLoop loops := ⟨by decide, rfl, loops_step⟩

/-- The branches are a family. -/
theorem counts_branches : Counts .conditionalBranch .endIf branches :=
  ⟨by decide, rfl, branches_step⟩

end Nesting

namespace Flow

open Nesting

/-! ### Forward scans for a closer -/

section

variable {opener closer : Kind} {depth : Nesting → Nat}

private theorem closePast_cons (d index : Nat) (k : Kind) (rest : List Kind) :
    closePast opener closer d index (k :: rest) =
      if k = opener then closePast opener closer (d + 1) (index + 1) rest
      else if k = closer then
        match d with
        | 0 => some (index + 1)
        | d + 1 => closePast opener closer d (index + 1) rest
      else closePast opener closer d (index + 1) rest := by
  cases d <;> simp only [closePast]

/-- A scan that starts `extra` levels inside the blocks of a stack follows the stack. -/
theorem closePast_nest (hc : Counts opener closer depth) {st st' : Nesting} {ks : List Kind}
    (h : st.nest ks = some st') (extra index : Nat) (rest : List Kind) :
    closePast opener closer (extra + depth st) index (ks ++ rest) =
      closePast opener closer (extra + depth st') (index + ks.length) rest := by
  induction ks generalizing st index with
  | nil => rw [nest_nil] at h; cases h; rfl
  | cons k ks ih =>
    obtain ⟨mid, hk, hks⟩ := nest_cons_eq_some.mp h
    have hd := hc.depth_step hk
    have hi : index + (k :: ks).length = index + 1 + ks.length := by
      rw [List.length_cons]; omega
    rw [hi, ← ih hks, List.cons_append, closePast_cons]
    by_cases ho : k = opener
    · subst ho
      simp only [hc.opener_ne_closer, if_true, if_false] at hd ⊢
      congr 1
      omega
    · by_cases hcl : k = closer
      · subst hcl
        simp only [ho, if_true, if_false] at hd ⊢
        have he : extra + depth st = extra + depth mid + 1 := by omega
        rw [he]
      · simp only [ho, hcl, if_false] at hd ⊢
        congr 1
        omega

/-- What stands behind the closer that a scan finds plays no part. -/
theorem closePast_append {d index target : Nat} {ks : List Kind}
    (h : closePast opener closer d index ks = some target) (rest : List Kind) :
    closePast opener closer d index (ks ++ rest) = some target := by
  induction ks generalizing d index with
  | nil => cases h
  | cons k ks ih =>
    rw [List.cons_append, closePast_cons]
    rw [closePast_cons] at h
    by_cases ho : k = opener
    · rw [if_pos ho] at h ⊢
      exact ih h
    · by_cases hcl : k = closer
      · rw [if_neg ho, if_pos hcl] at h ⊢
        cases d with
        | zero => exact h
        | succ d => exact ih h
      · rw [if_neg ho, if_neg hcl] at h ⊢
        exact ih h

/-- A balanced sequence is passed as a whole. -/
theorem closePast_balanced (hc : Counts opener closer depth) {ks : List Kind}
    (h : Balanced ks) (d index : Nat) (rest : List Kind) :
    closePast opener closer d index (ks ++ rest) =
      closePast opener closer d (index + ks.length) rest := by
  have hn := closePast_nest hc (nest_balanced h []) d index rest
  rwa [hc.depth_nil] at hn

/-- Past a balanced sequence with its closer. -/
theorem closePast_block (hc : Counts opener closer depth) {ks : List Kind}
    (h : Balanced ks) (index : Nat) (rest : List Kind) :
    closePast opener closer 0 index (ks ++ closer :: rest) = some (index + ks.length + 1) := by
  rw [closePast_balanced hc h, closePast_cons, if_neg (Ne.symm hc.opener_ne_closer), if_pos rfl]

/-- A scan that starts inside more blocks than it has to leave finds where they end. -/
theorem closePast_found (hc : Counts opener closer depth) {st : Nesting} {ks : List Kind}
    (h : st.nest ks = some []) {d : Nat} (hd : d < depth st) (index : Nat) :
    ∃ target, closePast opener closer d index ks = some target ∧
      index < target ∧ target ≤ index + ks.length := by
  induction ks generalizing st d index with
  | nil =>
    rw [nest_nil] at h
    cases h
    rw [hc.depth_nil] at hd
    omega
  | cons k ks ih =>
    obtain ⟨mid, hk, hks⟩ := nest_cons_eq_some.mp h
    have hs := hc.depth_step hk
    simp only [List.length_cons]
    rw [closePast_cons]
    -- What is found in the rest lies behind this kind as well.
    have later (e : Nat) (he : e < depth mid) : ∃ target,
        closePast opener closer e (index + 1) ks = some target ∧
          index < target ∧ target ≤ index + (ks.length + 1) := by
      obtain ⟨target, ht, hlo, hhi⟩ := ih hks he (index + 1)
      exact ⟨target, ht, by omega, by omega⟩
    by_cases ho : k = opener
    · subst ho
      simp only [hc.opener_ne_closer, if_true, if_false] at hs ⊢
      exact later (d + 1) (by omega)
    · by_cases hcl : k = closer
      · subst hcl
        simp only [ho, if_true, if_false] at hs ⊢
        cases d with
        | zero => exact ⟨index + 1, rfl, by omega, by omega⟩
        | succ d => exact later d (by omega)
      · simp only [ho, hcl, if_false] at hs ⊢
        exact later d (by omega)

end

/-! ### The scan for a false body -/

private theorem falseBranchPast_cons (d index : Nat) (k : Kind) (rest : List Kind) :
    falseBranchPast d index (k :: rest) =
      if k = .conditionalBranch then falseBranchPast (d + 1) (index + 1) rest
      else if k = .elseBranch ∧ d = 0 then some (index + 1)
      else if k = .endIf then
        match d with
        | 0 => some (index + 1)
        | d + 1 => falseBranchPast d (index + 1) rest
      else falseBranchPast d (index + 1) rest := by
  cases d <;> simp only [falseBranchPast]

/-- A scan that starts `extra` levels inside the branches of a stack follows the stack. -/
theorem falseBranchPast_nest {st st' : Nesting} {ks : List Kind} (h : st.nest ks = some st')
    (extra index : Nat) (rest : List Kind) :
    falseBranchPast (extra + branches st) index (ks ++ rest) =
      falseBranchPast (extra + branches st') (index + ks.length) rest := by
  induction ks generalizing st index with
  | nil => rw [nest_nil] at h; cases h; rfl
  | cons k ks ih =>
    obtain ⟨mid, hk, hks⟩ := nest_cons_eq_some.mp h
    have hd := branches_step hk
    have hi : index + (k :: ks).length = index + 1 + ks.length := by
      rw [List.length_cons]; omega
    rw [hi, ← ih hks, List.cons_append, falseBranchPast_cons]
    by_cases ho : k = .conditionalBranch
    · subst ho
      simp only [reduceCtorEq, if_true, if_false] at hd ⊢
      congr 1
      omega
    · by_cases he : k = .elseBranch
      · -- An `else` stands in an open branch, so the depth is not zero.
        subst he
        obtain ⟨below, rfl, rfl⟩ := step_elseBranch hk
        simp only [branches, List.count_cons, beq_self_eq_true, reduceCtorEq, if_true, if_false,
          beq_iff_eq, true_and]
        rw [if_neg (by omega)]
        congr 1
        omega
      · by_cases hc : k = .endIf
        · subst hc
          simp only [reduceCtorEq, false_and, if_true, if_false] at hd ⊢
          have hb : extra + branches st = extra + branches mid + 1 := by omega
          rw [hb]
        · simp only [ho, he, hc, false_and, if_false] at hd ⊢
          congr 1
          omega

/-- A balanced sequence is passed as a whole. -/
theorem falseBranchPast_balanced {ks : List Kind} (h : Balanced ks) (d index : Nat)
    (rest : List Kind) :
    falseBranchPast d index (ks ++ rest) = falseBranchPast d (index + ks.length) rest :=
  falseBranchPast_nest (nest_balanced h []) d index rest

/-- A scan that starts inside more branches than it has to leave finds a false body or an
end. -/
theorem falseBranchPast_found {st : Nesting} {ks : List Kind} (h : st.nest ks = some [])
    {d : Nat} (hd : d < branches st) (index : Nat) :
    ∃ target, falseBranchPast d index ks = some target ∧
      index < target ∧ target ≤ index + ks.length := by
  induction ks generalizing st d index with
  | nil => rw [nest_nil] at h; cases h; cases hd
  | cons k ks ih =>
    obtain ⟨mid, hk, hks⟩ := nest_cons_eq_some.mp h
    have hs := branches_step hk
    simp only [List.length_cons]
    rw [falseBranchPast_cons]
    have later (e : Nat) (he : e < branches mid) : ∃ target,
        falseBranchPast e (index + 1) ks = some target ∧
          index < target ∧ target ≤ index + (ks.length + 1) := by
      obtain ⟨target, ht, hlo, hhi⟩ := ih hks he (index + 1)
      exact ⟨target, ht, by omega, by omega⟩
    by_cases ho : k = .conditionalBranch
    · subst ho
      simp only [reduceCtorEq, if_true, if_false] at hs ⊢
      exact later (d + 1) (by omega)
    · by_cases he : k = .elseBranch ∧ d = 0
      · rw [if_neg ho, if_pos he]
        exact ⟨index + 1, rfl, by omega, by omega⟩
      · by_cases hc : k = .endIf
        · subst hc
          simp only [reduceCtorEq, false_and, if_true, if_false] at hs ⊢
          cases d with
          | zero => exact ⟨index + 1, rfl, by omega, by omega⟩
          | succ d => exact later d (by omega)
        · simp only [ho, he, hc, if_false] at hs ⊢
          exact later d (by omega)

/-- What stands behind the target plays no part. -/
theorem falseBranchPast_append {d index target : Nat} {ks : List Kind}
    (h : falseBranchPast d index ks = some target) (rest : List Kind) :
    falseBranchPast d index (ks ++ rest) = some target := by
  induction ks generalizing d index with
  | nil => cases h
  | cons k ks ih =>
    rw [List.cons_append, falseBranchPast_cons]
    rw [falseBranchPast_cons] at h
    by_cases ho : k = .conditionalBranch
    · rw [if_pos ho] at h ⊢
      exact ih h
    · by_cases he : k = .elseBranch ∧ d = 0
      · rw [if_neg ho, if_pos he] at h ⊢
        exact h
      · by_cases hcl : k = .endIf
        · rw [if_neg ho, if_neg he, if_pos hcl] at h ⊢
          cases d with
          | zero => exact h
          | succ d => exact ih h
        · rw [if_neg ho, if_neg he, if_neg hcl] at h ⊢
          exact ih h

/-! ### The backward scan for an opener -/

/-- A balanced sequence is passed as a whole, from its end to its start. -/
theorem openBefore_balanced {n : Phrase} {ks : List Kind} (h : Derives n ks)
    (depth index : Nat) (rest : List Kind) :
    openBefore depth index (ks.reverse ++ rest) = openBefore depth (index - ks.length) rest := by
  induction h generalizing depth index rest with
  | empty => rfl
  | sequence _ _ ihs ihp =>
    rw [List.reverse_append, List.append_assoc, ihp, ihs, List.length_append, Nat.sub_sub,
      Nat.add_comm]
  | ifThen _ ih =>
    simp only [List.reverse_append, List.reverse_cons, List.reverse_nil, List.nil_append,
      List.cons_append, List.append_assoc, openBefore, reduceCtorEq, if_false]
    rw [ih]
    simp only [openBefore, reduceCtorEq, if_false, List.length_cons, List.length_append,
      List.length_nil]
    congr 1
    omega
  | ifElse _ _ ihp ihq =>
    simp only [List.reverse_append, List.reverse_cons, List.reverse_nil, List.nil_append,
      List.cons_append, List.append_assoc, openBefore, reduceCtorEq, if_false]
    rw [ihq]
    simp only [openBefore, reduceCtorEq, if_false]
    rw [ihp]
    simp only [openBefore, reduceCtorEq, if_false, List.length_cons, List.length_append,
      List.length_nil]
    congr 1
    omega
  | loop _ ih =>
    simp only [List.reverse_append, List.reverse_cons, List.reverse_nil, List.nil_append,
      List.cons_append, List.append_assoc, openBefore, if_true]
    rw [ih]
    simp only [openBefore, reduceCtorEq, if_true, if_false, List.length_cons,
      List.length_append, List.length_nil]
    congr 1
    omega
  | @plain k hk =>
    have ho : k ≠ .loop := by rintro rfl; cases hk
    have hc : k ≠ .endLoop := by rintro rfl; cases hk
    simp only [List.reverse_cons, List.reverse_nil, List.nil_append, List.cons_append,
      openBefore, ho, hc, if_false, List.length_cons, List.length_nil]

/-- Before a balanced sequence stands its opener. -/
theorem openBefore_block {ks : List Kind} (h : Balanced ks) (start : Nat) (rest : List Kind) :
    openBefore 0 (start + 1 + ks.length) (ks.reverse ++ .loop :: rest) = some start := by
  rw [openBefore_balanced h, openBefore, if_neg (by decide), if_pos rfl]
  congr 1
  omega

end Flow

end EventScript
