import EventScript.Proofs.Program.Nesting

/-!
# Positions inside loops

A position lies inside a loop block if the block's body reaches over it. In a balanced
sequence this is the same as an open loop on the stack of the kinds before the position:
the opener of an open loop is found to the left, its closer to the right, and what stands
between them is balanced.
-/

namespace EventScript

namespace Nesting

/-- Some prefix of the sequence leaves a loop open. -/
def LoopOpenAt (ks : List Kind) (i : Nat) : Prop :=
  ∃ st, nest [] (ks.take i) = some st ∧ .loop ∈ st

/-- Position `i` is in the body of a loop block. -/
def InsideLoop (ks : List Kind) (i : Nat) : Prop :=
  ∃ before body after, ks = before ++ .loop :: body ++ .endLoop :: after ∧ Balanced body ∧
    before.length < i ∧ i < before.length + 1 + body.length

/-- Above an open loop a step either closes the loop or acts on the blocks above it. -/
theorem step_above_loop {st below st' : Nesting} {k : Kind}
    (h : step (st ++ .loop :: below) k = some st') :
    (st = [] ∧ k = .endLoop ∧ st' = below) ∨
      ∃ above, st.step k = some above ∧ st' = above ++ .loop :: below := by
  by_cases hk : k.isMarker
  · cases k with
    | conditionalBranch => exact .inr ⟨.branch :: st, rfl, (Option.some.inj h).symm⟩
    | loop => exact .inr ⟨.loop :: st, rfl, (Option.some.inj h).symm⟩
    | elseBranch =>
      obtain ⟨rest, he, rfl⟩ := step_elseBranch h
      cases st with
      | nil => cases he
      | cons b st => cases he; exact .inr ⟨.alternative :: st, rfl, rfl⟩
    | endIf =>
      cases st with
      | nil => rcases step_endIf h with he | he <;> cases he
      | cons b st => rcases step_endIf h with he | he <;> cases he <;> exact .inr ⟨st, rfl, rfl⟩
    | endLoop =>
      have he := step_endLoop h
      cases st with
      | nil => cases he; exact .inl ⟨rfl, rfl, rfl⟩
      | cons b st => cases he; exact .inr ⟨st, rfl, rfl⟩
    | _ => cases hk
  · rw [Bool.not_eq_true] at hk
    rw [step_of_not_marker hk] at h
    exact .inr ⟨st, step_of_not_marker hk st, (Option.some.inj h).symm⟩

/-- An open loop was either opened by the last step or open before it, with the step
acting on the blocks above it. -/
theorem step_to_loop {mid st below : Nesting} {k : Kind}
    (h : mid.step k = some (st ++ .loop :: below)) :
    (st = [] ∧ k = .loop ∧ mid = below) ∨
      ∃ above, mid = above ++ .loop :: below ∧ above.step k = some st := by
  by_cases hk : k.isMarker
  · cases k with
    | conditionalBranch =>
      have he : .branch :: mid = st ++ .loop :: below := Option.some.inj h
      cases st with
      | nil => cases he
      | cons b st => cases he; exact .inr ⟨st, rfl, rfl⟩
    | loop =>
      have he : .loop :: mid = st ++ .loop :: below := Option.some.inj h
      cases st with
      | nil => cases he; exact .inl ⟨rfl, rfl, rfl⟩
      | cons b st => cases he; exact .inr ⟨st, rfl, rfl⟩
    | elseBranch =>
      obtain ⟨rest, rfl, he⟩ := step_elseBranch h
      cases st with
      | nil => cases he
      | cons b st => cases he; exact .inr ⟨.branch :: st, rfl, rfl⟩
    | endIf =>
      rcases step_endIf h with rfl | rfl
      · exact .inr ⟨.branch :: st, rfl, rfl⟩
      · exact .inr ⟨.alternative :: st, rfl, rfl⟩
    | endLoop =>
      obtain rfl := step_endLoop h
      exact .inr ⟨.loop :: st, rfl, rfl⟩
    | _ => cases hk
  · rw [Bool.not_eq_true] at hk
    rw [step_of_not_marker hk] at h
    exact .inr ⟨st, Option.some.inj h, step_of_not_marker hk st⟩

/-- The closer of an open loop stands in a sequence that leaves no block open. -/
theorem exists_closer {st below : Nesting} {ks : List Kind}
    (h : nest (st ++ .loop :: below) ks = some []) :
    ∃ body after, ks = body ++ .endLoop :: after ∧ st.nest body = some [] ∧
      below.nest after = some [] := by
  induction ks generalizing st with
  | nil => cases st <;> cases h
  | cons k ks ih =>
    obtain ⟨mid, hk, hks⟩ := nest_cons_eq_some.mp h
    rcases step_above_loop hk with ⟨rfl, rfl, rfl⟩ | ⟨above, ha, rfl⟩
    · exact ⟨[], ks, rfl, rfl, hks⟩
    · obtain ⟨body, after, rfl, hb, hr⟩ := ih hks
      exact ⟨k :: body, after, rfl, nest_cons_eq_some.mpr ⟨above, ha, hb⟩, hr⟩

/-- The opener of an open loop stands in the sequence that left it open. -/
theorem exists_opener {st below : Nesting} {ks : List Kind}
    (h : nest [] ks = some (st ++ .loop :: below)) :
    ∃ before body, ks = before ++ .loop :: body ∧ nest [] before = some below ∧
      nest [] body = some st := by
  -- The last kind decides, so the induction takes it off.
  generalize hn : ks.length = n
  induction n generalizing ks st with
  | zero =>
    rw [List.length_eq_zero_iff] at hn
    subst hn
    cases st <;> cases h
  | succ n ih =>
    obtain rfl | ⟨init, k, rfl⟩ := List.eq_nil_or_concat ks
    · cases hn
    · rw [List.concat_eq_append] at h hn ⊢
      obtain ⟨mid, hi, hk⟩ := nest_append_eq_some.mp h
      obtain ⟨mid', hk, hm⟩ := nest_cons_eq_some.mp hk
      cases hm
      rcases step_to_loop hk with ⟨rfl, rfl, rfl⟩ | ⟨above, rfl, ha⟩
      · exact ⟨init, [], rfl, hi, rfl⟩
      · have hl : init.length = n := by simpa using hn
        obtain ⟨before, body, rfl, hb, hs⟩ := ih hi hl
        refine ⟨before, body ++ [k], by simp, hb, ?_⟩
        exact nest_append_eq_some.mpr ⟨above, hs, nest_cons_eq_some.mpr ⟨st, ha, rfl⟩⟩

/-- In a balanced sequence a position that is no `end_loop` lies inside a loop block
exactly where a loop is open. -/
theorem loopOpenAt_iff_insideLoop {ks : List Kind} (h : Balanced ks) {i : Nat}
    (hi : i < ks.length) (hk : ks[i]? ≠ some .endLoop) :
    LoopOpenAt ks i ↔ InsideLoop ks i := by
  have hn := balanced_iff_nest.mp h
  constructor
  · rintro ⟨st, hst, hm⟩
    obtain ⟨above, below, rfl⟩ := List.append_of_mem hm
    rw [← List.take_append_drop i ks, nest_append, hst, Option.bind_some] at hn
    obtain ⟨before, left, hleft, -, hl⟩ := exists_opener hst
    obtain ⟨right, after, hright, hr, -⟩ := exists_closer hn
    have hlen := congrArg List.length hleft
    rw [List.length_take, List.length_append, List.length_cons] at hlen
    have hne : right ≠ [] := by
      rintro rfl
      apply hk
      rw [← List.head?_drop, hright]
      rfl
    have hpos := List.length_pos_iff.mpr hne
    refine ⟨before, left ++ right, after, ?_, ?_, by omega, ?_⟩
    · rw [← List.take_append_drop i ks, hleft, hright]
      simp
    · rw [balanced_iff_nest, nest_append, hl, Option.bind_some, hr]
    · rw [List.length_append]
      omega
  · rintro ⟨before, body, after, rfl, hb, hlo, hhi⟩
    rw [List.append_assoc] at hn
    obtain ⟨below, hbefore, -⟩ := nest_append_eq_some.mp hn
    have hsplit := balanced_iff_nest.mp hb
    rw [← List.take_append_drop (i - (before.length + 1)) body] at hsplit
    obtain ⟨above, habove, -⟩ := nest_append_eq_some.mp hsplit
    have htake : (before ++ .loop :: body ++ .endLoop :: after).take i =
        before ++ .loop :: body.take (i - (before.length + 1)) := by
      have he : i = before.length + (i - (before.length + 1) + 1) := by omega
      rw [List.append_assoc, he, List.take_length_add_append, List.cons_append,
        List.take_succ_cons, List.take_append_of_le_length (by omega), ← he]
    refine ⟨above ++ .loop :: below, ?_, by simp⟩
    rw [htake, nest_append, hbefore, Option.bind_some, nest_cons]
    exact nest_below habove (.loop :: below)

end Nesting

end EventScript
