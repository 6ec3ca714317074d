import EventScript.Proofs.Program.OpenBlocks

/-!
# Where a rejected list goes wrong

The check stops at the first action that does not fit. Everything before it can still be
completed: whatever an outline holds, the closers of its open blocks and a label for every jump
without one end it well. From that action on nothing helps, since the check has stopped. A list
whose every action fits is rejected at its end, for the innermost block that is open there or
for the first jump without a label.
-/

namespace EventScript

open Nesting

/-- The action that closes a block. -/
def Block.closer : Block → Action
  | branch _ _ => .endIf
  | loop _ => .endLoop

namespace Outline

/-! ### What an outline stands for -/

/-- The outline after some actions that were accepted one by one. -/
structure Follows (o : Outline) (seen : List Action) : Prop where
  records : o.Records seen
  opens : Opens o.blocks (seen.map Action.kind)
  descending : o.jumps.Pairwise fun j j' => j'.1 < j.1
  resumes : ∀ rest, Program.validate (seen ++ rest) = o.check rest

/-- The check begins with the empty outline. -/
theorem follows_empty : Follows {} [] := ⟨records_empty, .empty, .nil, fun _ => rfl⟩

private theorem step_jumps {o o' : Outline} {a : Action} (hs : o.step a = .ok o') :
    o'.jumps = o.jumps ∨ ∃ label, o'.jumps = (o.index, label) :: o.jumps := by
  cases a with
  | jumpToLabel label =>
    cases hs
    exact .inr ⟨label, rfl⟩
  | elseBranch | endIf | endLoop | breakLoop | label =>
    simp only [step] at hs
    split at hs <;> cases hs
    exact .inl rfl
  | _ =>
    cases hs
    exact .inl rfl

/-- An accepted action leads to the outline after one action more. -/
theorem Follows.step {o o' : Outline} {seen : List Action} {a : Action} (h : o.Follows seen)
    (hs : o.step a = .ok o') : o'.Follows (seen ++ [a]) := by
  have hindex := h.records.index
  refine ⟨h.records.step hs, ?_, ?_, ?_⟩
  · rw [List.map_append]
    exact h.opens.step (by rw [hindex, List.length_map]) hs
  · rcases step_jumps hs with he | ⟨label, he⟩ <;> rw [he]
    · exact h.descending
    · refine List.pairwise_cons.mpr ⟨?_, h.descending⟩
      rintro ⟨i, name⟩ hm
      have hi := (h.records.jumps i name).mp hm
      rw [hindex]
      exact (List.getElem?_eq_some_iff.mp hi).1
  · intro rest
    rw [List.append_assoc, List.singleton_append, h.resumes, check, hs]

/-- A list is rejected at its first action that does not fit, or at its end. -/
theorem Follows.rejected {o : Outline} {seen rest : List Action} {e : ProgramError}
    (h : o.Follows seen) (he : o.check rest = .error e) :
    (∃ before a after mid, rest = before ++ a :: after ∧ Follows mid (seen ++ before) ∧
      mid.step a = .error e) ∨
    ∃ last, Follows last (seen ++ rest) ∧ last.finish = .error e := by
  induction rest generalizing o seen with
  | nil => exact .inr ⟨o, by rwa [List.append_nil], he⟩
  | cons a rest ih =>
    rw [check] at he
    cases hs : o.step a with
    | error e' =>
      rw [hs] at he
      cases he
      exact .inl ⟨[], a, rest, o, rfl, by rwa [List.append_nil], hs⟩
    | ok mid =>
      rw [hs] at he
      have hlater := ih (h.step hs) he
      rw [List.append_assoc, List.singleton_append] at hlater
      rcases hlater with ⟨before, b, after, mid', rfl, hf, hb⟩ | hend
      · rw [List.append_assoc] at hf
        exact .inl ⟨a :: before, b, after, mid', rfl, hf, hb⟩
      · exact .inr hend

/-! ### Completions -/

/-- Its closers in turn take all open blocks off an outline. -/
theorem check_closers (o : Outline) (rest : List Action) :
    o.check (o.blocks.map Block.closer ++ rest) =
      check { o with index := o.index + o.blocks.length, blocks := [] } rest := by
  obtain ⟨index, blocks, labels, jumps⟩ := o
  induction blocks generalizing index with
  | nil => rfl
  | cons b below ih =>
    have hnext := ih (index + 1)
    rw [Nat.add_right_comm] at hnext
    cases b <;> exact hnext

/-- Labels for the jumps that have none complete an outline without open blocks. -/
theorem exists_labels {o : Outline} (hb : o.blocks = []) (missing : List String)
    (h : ∀ i name, (i, name) ∈ o.jumps → (∃ j, o.labels.find? name = some j) ∨ name ∈ missing) :
    ∃ rest labels, o.check rest = .ok labels := by
  induction missing generalizing o with
  | nil =>
    refine ⟨[], o.labels, (o.finish_ok_iff _).mpr ⟨hb, fun i name hm => ?_, rfl⟩⟩
    exact (h i name hm).resolve_right List.not_mem_nil
  | cons new missing ih =>
    cases hf : o.labels.find? new with
    | some j =>
      apply ih hb
      intro i name hm
      rcases h i name hm with hl | hm
      · exact .inl hl
      · rcases List.mem_cons.mp hm with rfl | hm
        · exact .inl ⟨j, hf⟩
        · exact .inr hm
    | none =>
      obtain ⟨o', hs, hb', hjumps, hlabels⟩ : ∃ o', o.step (.label new) = .ok o' ∧
          o'.blocks = [] ∧ o'.jumps = o.jumps ∧ o'.labels = o.labels.insert new o.index :=
        ⟨advance { o with labels := o.labels.insert new o.index }, by simp only [step, hf], hb,
          rfl, rfl⟩
      obtain ⟨rest, labels, hrest⟩ := ih hb' <| by
        intro i name hm
        rw [hjumps] at hm
        rw [hlabels, Table.find?_insert]
        split
        · exact .inl ⟨o.index, rfl⟩
        · next hne =>
          exact (h i name hm).imp_right fun hm => (List.mem_cons.mp hm).resolve_left (Ne.symm hne)
      exact ⟨.label new :: rest, labels, by rw [check, hs]; exact hrest⟩

/-- Every outline can be completed. -/
theorem exists_completion (o : Outline) : ∃ rest labels, o.check rest = .ok labels := by
  have hjumps : ∀ i name, (i, name) ∈ o.jumps → name ∈ o.jumps.map Prod.snd :=
    fun i name hm => List.mem_map.mpr ⟨(i, name), hm, rfl⟩
  obtain ⟨rest, labels, hrest⟩ :=
    exists_labels (o := { o with index := o.index + o.blocks.length, blocks := [] }) rfl _
      fun i name hm => .inr (hjumps i name hm)
  exact ⟨o.blocks.map Block.closer ++ rest, labels, by rw [check_closers, hrest]⟩

/-! ### Errors -/

/-- An action that does not fit is refused at its own position. -/
theorem step_error {o : Outline} {a : Action} {e : ProgramError} (hs : o.step a = .error e) :
    e = .unmatchedMarker o.index a.kind ∨ (∃ i, e = .duplicateElse o.index i) ∨
      e = .breakOutsideLoop o.index ∨ ∃ name first, e = .duplicateLabel o.index name first := by
  cases a with
  | elseBranch | endIf | endLoop =>
    simp only [step] at hs
    split at hs <;> cases hs
    all_goals first | exact .inl rfl | exact .inr (.inl ⟨_, rfl⟩)
  | breakLoop =>
    simp only [step] at hs
    split at hs <;> cases hs
    exact .inr (.inr (.inl rfl))
  | label =>
    simp only [step] at hs
    split at hs <;> cases hs
    exact .inr (.inr (.inr ⟨_, _, rfl⟩))
  | _ => cases hs

/-- An end is refused for the innermost open block, or else for the first jump without a
label. -/
theorem finish_error {o : Outline} {e : ProgramError} (hf : o.finish = .error e) :
    (∃ b below, o.blocks = b :: below ∧ e = .unterminatedBlock b.index b.opener) ∨
    (o.blocks = [] ∧ ∃ i label, e = .unknownLabel i label ∧
      o.jumps.reverse.find? (fun j => !o.labels.contains j.2) = some (i, label)) := by
  unfold finish at hf
  split at hf
  · next b below hb =>
    cases hf
    exact .inl ⟨b, below, hb, rfl⟩
  · next hb =>
    split at hf
    · next i label hfind =>
      cases hf
      exact .inr ⟨hb, i, label, rfl, hfind⟩
    · cases hf

end Outline

namespace Program

/-- Some continuation of the list is accepted. -/
def Extendable (actions : List Action) : Prop :=
  ∃ rest labels, validate (actions ++ rest) = .ok labels

end Program

open Program

/-- What an error says of the list that was rejected with it. Four errors name the first action
after which the list is beyond help. An open block is the last that was opened and never
closed, and closing it is what the list needs. A jump is the first whose label stands nowhere,
in a list that has no other defect. -/
def ProgramError.Explains (actions : List Action) : ProgramError → Prop
  | .unmatchedMarker i _ | .duplicateElse i _ | .breakOutsideLoop i | .duplicateLabel i _ _ =>
    i < actions.length ∧ Extendable (actions.take i) ∧ ¬ Extendable (actions.take (i + 1))
  | .unterminatedBlock i opener =>
    Extendable actions ∧ (actions.map Action.kind)[i]? = some opener ∧
      Unclosed (actions.map Action.kind) i ∧ ∀ j, Unclosed (actions.map Action.kind) j → j ≤ i
  | .unknownLabel i label =>
    Balanced (actions.map Action.kind) ∧
      (∀ (name : String) (j j' : Nat), actions[j]? = some (.label name) →
        actions[j']? = some (.label name) → j = j') ∧
      actions[i]? = some (.jumpToLabel label) ∧ .label label ∉ actions ∧
      ∀ (j : Nat) (name : String), j < i → actions[j]? = some (.jumpToLabel name) →
        .label name ∈ actions

namespace Outline.Follows

variable {o : Outline} {seen : List Action}

/-- What has an outline can be extended. -/
theorem extendable (h : o.Follows seen) : Extendable seen := by
  obtain ⟨rest, labels, hrest⟩ := o.exists_completion
  exact ⟨rest, labels, by rw [h.resumes, hrest]⟩

/-- Behind an action that does not fit nothing is accepted. -/
theorem not_extendable (h : o.Follows seen) {a : Action} {e : ProgramError}
    (hs : o.step a = .error e) : ¬ Extendable (seen ++ [a]) := by
  rintro ⟨rest, labels, hrest⟩
  rw [List.append_assoc, List.singleton_append, h.resumes, check, hs] at hrest
  cases hrest

/-- No two labels of the actions have one name. -/
theorem labels_distinct (h : o.Follows seen) (name : String) (i j : Nat)
    (hi : seen[i]? = some (.label name)) (hj : seen[j]? = some (.label name)) : i = j := by
  rw [← h.records.labels] at hi hj
  exact Option.some.inj (hi.symm.trans hj)

/-- A name without a label in the outline has none among the actions. -/
theorem label_mem_iff (h : o.Follows seen) (name : String) :
    .label name ∈ seen ↔ o.labels.contains name = true := by
  rw [Table.contains, Option.isSome_iff_exists, List.mem_iff_getElem?]
  exact exists_congr fun i => (h.records.labels name i).symm

/-- The first jump that the end finds without a label is the first of the actions. -/
theorem first_unlabelled (h : o.Follows seen) {i : Nat} {label : String}
    (hfind : o.jumps.reverse.find? (fun j => !o.labels.contains j.2) = some (i, label)) :
    seen[i]? = some (.jumpToLabel label) ∧ .label label ∉ seen ∧
      ∀ (j : Nat) (name : String), j < i → seen[j]? = some (.jumpToLabel name) →
        .label name ∈ seen := by
  obtain ⟨hnone, earlier, later, hsplit, hearlier⟩ := List.find?_eq_some_iff_append.mp hfind
  have hascending : (o.jumps.reverse).Pairwise fun j j' => j.1 < j'.1 :=
    List.pairwise_reverse.mpr h.descending
  rw [hsplit, List.pairwise_append, List.pairwise_cons] at hascending
  obtain ⟨-, ⟨hlater, -⟩, -⟩ := hascending
  have hmem (j : Nat) (name : String) :
      (j, name) ∈ earlier ++ (i, label) :: later ↔ seen[j]? = some (.jumpToLabel name) := by
    rw [← hsplit, List.mem_reverse, h.records.jumps]
  refine ⟨(hmem i label).mp (by simp), by simpa [h.label_mem_iff] using hnone, ?_⟩
  intro j name hlt hj
  rcases List.mem_append.mp ((hmem j name).mpr hj) with hm | hm
  · simpa [h.label_mem_iff] using hearlier _ hm
  · -- From the jump found on, positions only grow.
    rcases List.mem_cons.mp hm with he | hm
    · cases he
      omega
    · have hgt := hlater _ hm
      simp only at hgt
      omega

end Outline.Follows

/-- A rejected list is rejected for its earliest defect. -/
theorem validate_error_explains {actions : List Action} {e : ProgramError}
    (h : validate actions = .error e) : e.Explains actions := by
  rcases Outline.follows_empty.rejected h with ⟨before, a, after, o, rfl, hf, hs⟩ | ⟨o, hf, hend⟩
  · rw [List.nil_append] at hf
    have hindex := hf.records.index
    have hstuck : o.index < (before ++ a :: after).length ∧
        Extendable ((before ++ a :: after).take o.index) ∧
        ¬ Extendable ((before ++ a :: after).take (o.index + 1)) := by
      rw [hindex, List.take_left, List.take_length_add_append]
      refine ⟨by simp, hf.extendable, ?_⟩
      exact hf.not_extendable hs
    rcases Outline.step_error hs with rfl | ⟨i, rfl⟩ | rfl | ⟨name, first, rfl⟩ <;> exact hstuck
  · rw [List.nil_append] at hf
    rcases Outline.finish_error hend with ⟨b, below, hb, rfl⟩ | ⟨hb, i, label, rfl, hfind⟩
    · have hopens := hf.opens
      rw [hb] at hopens
      exact ⟨hf.extendable, hopens.last_unclosed⟩
    · have hopens := hf.opens
      rw [hb] at hopens
      exact ⟨hopens, hf.labels_distinct, hf.first_unlabelled hfind⟩

/-- A branch behind its `else`, in a loop: it can still be closed, but not by `end_loop`, and
once both are closed the jump is left. -/
theorem validate_error_explains_jump :
    let actions : List Action := [.loop, .conditionalBranch {}, .loop, .endLoop, .elseBranch,
      .label "here", .jumpToLabel "here", .jumpToLabel "there"]
    let kinds := actions.map Action.kind
    let closed : List Action := actions ++ [.endIf, .endLoop]
    (validate actions = .error (.unterminatedBlock 1 .conditionalBranch) ∧
      Extendable actions ∧ Unclosed kinds 1 ∧ ∀ i, Unclosed kinds i → i ≤ 1) ∧
    (validate (actions ++ [.endLoop]) = .error (.unmatchedMarker 8 .endLoop) ∧
      ¬ Extendable (actions ++ [.endLoop])) ∧
    validate closed = .error (.unknownLabel 7 "there") ∧ Balanced (closed.map Action.kind) := by
  intro actions kinds closed
  have hopen : validate actions = .error (.unterminatedBlock 1 .conditionalBranch) := rfl
  have hstuck : validate (actions ++ [.endLoop]) = .error (.unmatchedMarker 8 .endLoop) := rfl
  have hjump : validate closed = .error (.unknownLabel 7 "there") := rfl
  obtain ⟨hextendable, -, hunclosed, hlast⟩ := validate_error_explains hopen
  obtain ⟨-, -, hbeyond⟩ := validate_error_explains hstuck
  obtain ⟨hbalanced, -⟩ := validate_error_explains hjump
  exact ⟨⟨hopen, hextendable, hunclosed, hlast⟩, ⟨hstuck, hbeyond⟩, hjump, hbalanced⟩

end EventScript
