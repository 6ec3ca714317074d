import EventScript.Proofs.Program.Branches

/-!
# Blocks that a list leaves open

The check of a program keeps its open blocks with the positions where they were opened. Read
backwards, the commands seen are those of the innermost block, the opener of that block, and so
on for the blocks below: `Opens` says this, and every accepted command keeps it. It follows
that the innermost open block was opened last of all that are never closed.
-/

namespace EventScript

namespace Nesting

/-- A branch or loop is opened at `i` and never closed. -/
inductive Unclosed (ks : List Kind) (i : Nat) : Prop
  | branch (opener : ks[i]? = some .conditionalBranch)
    (never : ∀ own exit, ¬ BranchBlock ks i own exit)
  | loop (opener : ks[i]? = some .loop) (never : ∀ exit, ¬ LoopBlock ks i exit)

/-- What is opened is opened in the sequence. -/
theorem Unclosed.lt_length {ks : List Kind} {i : Nat} (h : Unclosed ks i) : i < ks.length := by
  rcases h with ⟨hopener, -⟩ | ⟨hopener, -⟩
  · exact (List.getElem?_eq_some_iff.mp hopener).1
  · exact (List.getElem?_eq_some_iff.mp hopener).1

/-- A balanced sequence closes what it opens, wherever it stands. -/
theorem not_unclosed {body : List Kind} (hb : Balanced body) (before after : List Kind) {i : Nat}
    (hi : i < body.length) : ¬ Unclosed (before ++ body ++ after) (before.length + i) := by
  have hn := balanced_iff_nest.mp hb
  have hat : (before ++ body ++ after)[before.length + i]? = body[i]? := by
    rw [List.append_assoc, List.getElem?_append_right (Nat.le_add_right ..),
      Nat.add_sub_cancel_left, List.getElem?_append_left hi]
  rintro (⟨hopener, hnever⟩ | ⟨hopener, hnever⟩)
  · rw [hat] at hopener
    obtain ⟨own, exit, hblock⟩ := exists_branchBlock hn hopener
    exact hnever _ _ (hblock.within before after)
  · rw [hat] at hopener
    obtain ⟨exit, hblock⟩ := exists_loopBlock hn hopener
    exact hnever _ (hblock.within before after)

/-- Balanced sequences follow each other in a balanced sequence. -/
theorem balanced_append {ks ks' : List Kind} (h : Balanced ks) (h' : Balanced ks') :
    Balanced (ks ++ ks') := by
  rw [balanced_iff_nest, nest_append, balanced_iff_nest.mp h, Option.bind_some,
    balanced_iff_nest.mp h']

/-- A statement is balanced. -/
theorem balanced_statement {s : List Kind} (h : Derives .statement s) : Balanced s := by
  rw [← List.append_nil s]
  exact .sequence h .empty

end Nesting

open EventScript.Nesting EventScript.Flow

namespace Block

/-- What may stand behind the opener of an open block: a balanced sequence, or two of them
around the `else` of the block. -/
def Contents : Block → List Kind → Prop
  | branch _ (some _), ks =>
    ∃ body other, ks = body ++ .elseBranch :: other ∧ Balanced body ∧ Balanced other
  | _, ks => Balanced ks

variable {b : Block} {ks : List Kind}

/-- An open block goes on with a balanced sequence. -/
theorem Contents.append (h : b.Contents ks) {p : List Kind} (hp : Balanced p) :
    b.Contents (ks ++ p) := by
  match b, h with
  | branch _ (some _), ⟨body, other, he, hb, ho⟩ =>
    exact ⟨body, other ++ p, by rw [he, List.append_assoc, List.cons_append], hb,
      balanced_append ho hp⟩
  | branch _ none, h => exact balanced_append h hp
  | loop _, h => exact balanced_append h hp

/-- An open branch is a statement once it is closed. -/
theorem Contents.endIf {i : Nat} {own : Option Nat} (h : (branch i own).Contents ks) :
    Derives .statement (.conditionalBranch :: ks ++ [.endIf]) := by
  match own, h with
  | none, h => exact .ifThen h
  | some _, ⟨body, other, he, hb, ho⟩ =>
    rw [he]
    exact .ifElse hb ho

/-- The scan from the opener of an open block for the closer of its sort finds none. -/
theorem Contents.closePast_branch {i : Nat} {own : Option Nat} (h : (branch i own).Contents ks)
    (index : Nat) : closePast .conditionalBranch .endIf 0 index ks = none := by
  match own, h with
  | none, h =>
    have hscan := closePast_balanced counts_branches h 0 index []
    rwa [List.append_nil] at hscan
  | some _, ⟨body, other, he, hb, ho⟩ =>
    have hscan := closePast_balanced counts_branches ho 0 (index + body.length + 1) []
    rw [List.append_nil] at hscan
    rw [he, closePast_balanced counts_branches hb]
    exact hscan

/-- A loop is open where the scan for its closer finds none. -/
theorem Contents.closePast_loop {i : Nat} (h : (loop i).Contents ks) (index : Nat) :
    closePast .loop .endLoop 0 index ks = none := by
  have hscan := closePast_balanced counts_loops h 0 index []
  rwa [List.append_nil] at hscan

/-- Whatever is opened inside an open block so far is closed there. -/
theorem Contents.closed (h : b.Contents ks) (before : List Kind) (i : Nat) :
    ¬ Unclosed (before ++ ks) (before.length + i) := by
  intro hopen
  have hlen := hopen.lt_length
  rw [List.length_append] at hlen
  have hbalanced {ks : List Kind} (hb : Balanced ks) (before : List Kind) (i : Nat)
      (hi : i < ks.length) : ¬ Unclosed (before ++ ks) (before.length + i) := by
    have hclosed := not_unclosed hb before [] hi
    rwa [List.append_nil] at hclosed
  match b, h with
  | branch _ none, h => exact hbalanced h before i (by omega) hopen
  | loop _, h => exact hbalanced h before i (by omega) hopen
  | branch _ (some _), ⟨body, other, he, hb, ho⟩ =>
    subst he
    rw [List.length_append, List.length_cons] at hlen
    rcases Nat.lt_trichotomy i body.length with hi | rfl | hi
    · rw [← List.append_assoc] at hopen
      exact not_unclosed hb before _ hi hopen
    · -- The `else` between the two parts opens nothing.
      have helse : (before ++ (body ++ .elseBranch :: other))[before.length + body.length]? =
          some .elseBranch := by
        rw [← List.append_assoc, ← List.length_append, List.getElem?_append_right (Nat.le_refl _),
          Nat.sub_self]
        rfl
      rcases hopen with ⟨hopener, -⟩ | ⟨hopener, -⟩ <;> rw [helse] at hopener <;> cases hopener
    · obtain ⟨j, rfl⟩ := Nat.exists_eq_add_of_lt hi
      apply hbalanced ho (before ++ (body ++ [.elseBranch])) j (by omega)
      simpa [Nat.add_assoc, Nat.add_comm, Nat.add_left_comm] using hopen

end Block

/-- The open blocks after a sequence of kinds, innermost first: behind the opener of each comes
what it contains so far. -/
def Opens : List Block → List Kind → Prop
  | [], ks => Balanced ks
  | b :: below, ks => ∃ before body, ks = before ++ b.opener :: body ∧ before.length = b.index ∧
    Opens below before ∧ b.Contents body

namespace Opens

variable {blocks below : List Block} {b : Block} {ks : List Kind}

/-- A balanced sequence leaves the open blocks as they are. -/
theorem append (h : Opens blocks ks) {p : List Kind} (hp : Balanced p) :
    Opens blocks (ks ++ p) := by
  match blocks, h with
  | [], h => exact balanced_append h hp
  | _ :: _, ⟨before, body, he, hi, hbelow, hbody⟩ =>
    exact ⟨before, body ++ p, by rw [he, List.append_assoc, List.cons_append], hi, hbelow,
      hbody.append hp⟩

/-- An opener opens its block where the sequence ends. -/
theorem enter (h : Opens blocks ks) (hi : b.index = ks.length) (hb : b.Contents []) :
    Opens (b :: blocks) (ks ++ [b.opener]) := ⟨ks, [], rfl, hi.symm, h, hb⟩

/-- One accepted action keeps the account of the open blocks. -/
theorem step {o o' : Outline} {a : Action} (h : Opens o.blocks ks) (hi : o.index = ks.length)
    (hs : o.step a = .ok o') : Opens o'.blocks (ks ++ [a.kind]) := by
  obtain ⟨index, blocks, labels, jumps⟩ := o
  have hplain (hk : a.kind.isMarker = false) : Opens blocks (ks ++ [a.kind]) :=
    h.append (balanced_statement (.plain hk))
  cases a with
  | conditionalBranch | loop =>
    cases hs
    exact h.enter hi .empty
  | elseBranch =>
    match blocks, h with
    | .branch i none :: _, ⟨before, body, he, hi, hbelow, hbody⟩ =>
      cases hs
      exact ⟨before, body ++ [.elseBranch], by rw [he, List.append_assoc]; rfl, hi, hbelow,
        body, [], rfl, hbody, .empty⟩
    | .branch _ (some _) :: _, _ | .loop _ :: _, _ | [], _ => cases hs
  | endIf =>
    match blocks, h with
    | .branch i own :: _, ⟨before, body, he, hi, hbelow, hbody⟩ =>
      cases hs
      have hclosed := hbelow.append (balanced_statement hbody.endIf)
      rw [he, List.append_assoc]
      exact hclosed
    | .loop _ :: _, _ | [], _ => cases hs
  | endLoop =>
    match blocks, h with
    | .loop i :: _, ⟨before, body, he, hi, hbelow, hbody⟩ =>
      cases hs
      have hclosed := hbelow.append (balanced_statement (.loop hbody))
      rw [he, List.append_assoc]
      exact hclosed
    | .branch _ _ :: _, _ | [], _ => cases hs
  | breakLoop | label =>
    simp only [Outline.step] at hs
    split at hs <;> cases hs
    exact hplain rfl
  | _ =>
    cases hs
    exact hplain rfl

/-- The innermost open block is the last one that is never closed. -/
theorem last_unclosed (h : Opens (b :: below) ks) :
    ks[b.index]? = some b.opener ∧ Unclosed ks b.index ∧
      ∀ i, Unclosed ks i → i ≤ b.index := by
  obtain ⟨before, body, rfl, hi, -, hbody⟩ := h
  have hopener : (before ++ b.opener :: body)[b.index]? = some b.opener := by simp [← hi]
  refine ⟨hopener, ?_, ?_⟩
  · cases b with
    | branch i own =>
      refine .branch hopener fun own' exit hblock => ?_
      have hscan := hblock.closePast_eq
      rw [← hi, drop_behind, hbody.closePast_branch] at hscan
      cases hscan
    | loop i =>
      refine .loop hopener fun exit hblock => ?_
      have hscan := hblock.findLoopExit_eq
      rw [findLoopExit, ← hi, drop_behind, hbody.closePast_loop] at hscan
      cases hscan
  · intro i hopen
    by_contra hlt
    obtain ⟨j, hj⟩ := Nat.exists_eq_add_of_lt (Nat.lt_of_not_le hlt)
    apply hbody.closed (before ++ [b.opener]) j
    rw [List.append_assoc, List.singleton_append, List.length_append, List.length_singleton, hi,
      Nat.add_right_comm, ← hj]
    exact hopen

end Opens

end EventScript
