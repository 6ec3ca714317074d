import EventScript.Proofs.Program.Loops

/-!
# Where loop control goes

The frames of a control stack ascend, and loop blocks nest. So dropping frames from the top
until one encloses a position brings the innermost running loop around the position to the
top, and each of the three commands that consult the stack has one move: a break leaves that
loop, the end of a loop goes back just where the loop has a frame, and a jump goes behind its
label.
-/

namespace EventScript

open EventScript.Nesting

namespace Flow

variable {kinds : List Kind} {cursor position : Nat} {stack : ControlStack}

/-- A loop encloses the positions between its opener and its exit. -/
theorem encloses_of_block {start exit : Nat} (h : LoopBlock kinds start exit) :
    encloses kinds start position ↔ LoopAround kinds position start exit := by
  rw [encloses, h.findLoopExit_eq]
  simp only [Bool.and_eq_true, decide_eq_true_eq]
  exact ⟨fun hin => ⟨h, hin.1, hin.2⟩, fun hin => ⟨hin.start_lt, hin.lt_exit⟩⟩

/-- The frames below another one are frames of loops that were opened before it. -/
theorem Frames.lt_of_below (hf : Frames kinds cursor stack) {above rest : ControlStack}
    {start f : Nat} (hs : stack = above ++ start :: rest) (hm : f ∈ rest) :
    f ∈ stack ∧ f < start := by
  subst hs
  refine ⟨by simp [hm], ?_⟩
  exact List.rel_of_pairwise_cons (List.pairwise_append.mp hf.descending).2.1 hm

/-- What a frame encloses is what its block is around. -/
theorem Frames.encloses_iff (hf : Frames kinds cursor stack) (hn : nest [] kinds = some [])
    {f : Nat} (hm : f ∈ stack) :
    encloses kinds f position ↔ ∃ exit, LoopAround kinds position f exit := by
  obtain ⟨exit, hblock⟩ := exists_loopBlock hn (hf.loops f hm)
  rw [encloses_of_block hblock]
  constructor
  · exact fun h => ⟨exit, h⟩
  · rintro ⟨exit', h⟩
    rwa [hblock.exit_unique h.block] at h

/-- A frame is left just where it, or one above it, encloses the position. -/
theorem mem_enclosing_iff (kinds : List Kind) (position : Nat) (hd : stack.Pairwise (· > ·))
    {f : Nat} :
    f ∈ enclosing kinds position stack ↔
      f ∈ stack ∧ ∃ t ∈ stack, f ≤ t ∧ encloses kinds t position := by
  induction stack with
  | nil => simp [enclosing]
  | cons top rest ih =>
    obtain ⟨htop, hrest⟩ := List.pairwise_cons.mp hd
    by_cases he : encloses kinds top position
    · have hall : enclosing kinds position (top :: rest) = top :: rest :=
        List.dropWhile_cons_of_neg (by simpa using he)
      rw [hall]
      refine ⟨fun hm => ⟨hm, top, List.mem_cons_self, ?_, he⟩, And.left⟩
      rcases List.mem_cons.mp hm with rfl | hm
      · exact Nat.le_refl f
      · exact Nat.le_of_lt (htop f hm)
    · have hless : enclosing kinds position (top :: rest) = enclosing kinds position rest :=
        List.dropWhile_cons_of_pos (by simpa using he)
      rw [hless, ih hrest]
      constructor
      · rintro ⟨hm, t, ht, hle, hin⟩
        exact ⟨List.mem_cons_of_mem top hm, t, List.mem_cons_of_mem top ht, hle, hin⟩
      · rintro ⟨hm, t, ht, hle, hin⟩
        rcases List.mem_cons.mp ht with rfl | htr
        · exact absurd hin he
        · refine ⟨?_, t, htr, hle, hin⟩
          rcases List.mem_cons.mp hm with rfl | hm
          · exact absurd (htop t htr) (by omega)
          · exact hm

/-- Dropping frames brings the innermost running loop around the position to the top, or
leaves no frame where there is none. -/
theorem Frames.enclosing_cases (hf : Frames kinds cursor stack) (hn : nest [] kinds = some [])
    (position : Nat) :
    (enclosing kinds position stack = [] ∧
      ∀ f ∈ stack, ∀ exit, ¬ LoopAround kinds position f exit) ∨
    ∃ start exit above rest, enclosing kinds position stack = start :: rest ∧
      stack = above ++ start :: rest ∧ Innermost kinds (· ∈ stack) position start exit := by
  have hmem {f : Nat} := mem_enclosing_iff kinds position hf.descending (f := f)
  have hsuffix := enclosing_suffix kinds position stack
  cases he : enclosing kinds position stack with
  | nil =>
    refine .inl ⟨rfl, fun f hm exit ha => ?_⟩
    have hleft := hmem.mpr ⟨hm, f, hm, Nat.le_refl f, (hf.encloses_iff hn hm).mpr ⟨exit, ha⟩⟩
    rw [he] at hleft
    cases hleft
  | cons start rest =>
    rw [he] at hsuffix hmem
    obtain ⟨above, habove⟩ := hsuffix
    have hbelow {f : Nat} (hm : f ∈ start :: rest) : f ≤ start := by
      rcases List.mem_cons.mp hm with rfl | hm
      · exact Nat.le_refl f
      · exact Nat.le_of_lt (hf.lt_of_below habove.symm hm).2
    obtain ⟨hstart, t, ht, hle, hin⟩ := hmem.mp List.mem_cons_self
    have htop : t = start := Nat.le_antisymm
      (hbelow (hmem.mpr ⟨ht, t, ht, Nat.le_refl t, hin⟩)) hle
    obtain ⟨exit, ha⟩ := (hf.encloses_iff hn hstart).mp (htop ▸ hin)
    refine .inr ⟨start, exit, above, rest, rfl, habove.symm, ha, hstart, ?_⟩
    intro f exit' hm ha'
    exact hbelow (hmem.mpr ⟨hm, f, hm, Nat.le_refl f, (hf.encloses_iff hn hm).mpr ⟨exit', ha'⟩⟩)

end Flow

namespace Program

open EventScript.Flow

variable {p : Program} {cursor : Nat} {c : Command} {stack : ControlStack}

/-- A break leaves the innermost running loop around it, and keeps the frames below. Where no
running loop is around it, it leaves the innermost loop of the text, and no frame is kept. -/
theorem resolve_breakLoop (ha : p.Accepted) (hc : p.get? cursor = some c)
    (hb : c.action = .breakLoop) (hf : Frames p.kinds cursor stack) :
    (∃ start exit above rest, Innermost p.kinds (· ∈ stack) cursor start exit ∧
      stack = above ++ start :: rest ∧
      p.resolve .breakLoop cursor stack = (.ok (.moveTo exit), rest)) ∨
    (∀ f ∈ stack, ∀ exit, ¬ LoopAround p.kinds cursor f exit) ∧
      ∃ start exit, Innermost p.kinds (fun _ => True) cursor start exit ∧
        p.resolve .breakLoop cursor stack = (.ok (.moveTo exit), []) := by
  have hn := ha.nest_kinds
  simp only [resolve, Flow.resolve, discardOutside_frames ha hf]
  rcases hf.enclosing_cases hn cursor with ⟨he, hnone⟩ | ⟨start, exit, above, rest, he, hs, hi⟩
  · refine .inr ⟨hnone, ?_⟩
    have hk := getElem?_kinds hc
    rw [Command.kind, hb] at hk
    have hopen := ha.breaks cursor (by rw [getElem?_actions hc, hb])
    rw [← kinds_eq, loopOpenAt_iff_insideLoop (balanced_iff_nest.mpr hn)
      (List.getElem?_eq_some_iff.mp hk).1 (by rw [hk]; decide), insideLoop_iff] at hopen
    obtain ⟨start, exit, hblock, hlo, hhi⟩ := hopen
    obtain ⟨start, exit, hi⟩ : ∃ start exit, Innermost p.kinds (fun _ => True) cursor start exit :=
      exists_innermost ⟨start, exit, trivial, hblock, hlo, by omega⟩
    refine ⟨start, exit, hi, ?_⟩
    have hexit := hi.around.block.findLoopExit_of_body hi.around.start_lt hi.around.lt_exit hk
      (by decide) (by decide) fun start' exit' hblock' hlo' hhi' => by
        by_contra hlt
        have := hi.last start' exit' trivial ⟨hblock', hhi', by omega⟩
        omega
    rw [he]
    simp only [hexit, moveTo]
  · refine .inl ⟨start, exit, above, rest, hi, hs, ?_⟩
    rw [he]
    simp only [hi.around.block.findLoopExit_eq, moveTo]

/-- The end of a loop goes back behind the opener just where the loop has a frame, which is
on top then. -/
theorem resolve_endLoop (ha : p.Accepted) (hc : p.get? cursor = some c)
    (hb : c.action = .endLoop) (hf : Frames p.kinds cursor stack) :
    ∃ start, LoopBlock p.kinds start (cursor + 1) ∧
      ((∃ above rest, stack = above ++ start :: rest ∧
        p.resolve .endLoop cursor stack = (.ok (.moveTo (start + 1)), start :: rest)) ∨
      start ∉ stack ∧
        p.resolve .endLoop cursor stack = (.ok .advance, enclosing p.kinds cursor stack)) := by
  have hn := ha.nest_kinds
  have hk := getElem?_kinds hc
  rw [Command.kind, hb] at hk
  obtain ⟨start, hblock⟩ := exists_loopBlock_of_endLoop hn hk
  have hstart : findLoopStart p.kinds cursor = some start := hblock.findLoopStart_eq
  have hlo := hblock.start_add_two_le
  refine ⟨start, hblock, ?_⟩
  simp only [resolve, Flow.resolve, discardOutside_frames ha hf]
  rcases hf.enclosing_cases hn cursor with ⟨he, hnone⟩ | ⟨top, exit, above, rest, he, hs, hi⟩
  · rw [he]
    refine .inr ⟨fun hm => hnone start hm _ ⟨hblock, by omega, by omega⟩, rfl⟩
  · rw [he]
    by_cases htop : top = start
    · subst htop
      exact .inl ⟨above, rest, hs, by simp only [hstart, if_true]⟩
    · refine .inr ⟨fun hm => htop ?_,
        by simp only [hstart, Option.some.injEq, Ne.symm htop, if_false]⟩
      -- A loop around the closer and above `start` is inside the block, so it ends before.
      have hle := hi.last start (cursor + 1) hm ⟨hblock, by omega, by omega⟩
      by_contra hne
      have hin := hblock.exit_lt hi.around.block (by omega) (Nat.lt_succ_of_lt hi.around.start_lt)
      have := hi.around.lt_exit
      omega

/-- A jump goes behind its label. -/
theorem resolve_jump (ha : p.Accepted) (hc : p.get? cursor = some c) {label : String}
    (hj : c.action = .jumpToLabel label) (hf : Frames p.kinds cursor stack) :
    ∃ index, p.actions[index]? = some (.label label) ∧
      p.resolve (.jump label) cursor stack =
        (.ok (.moveTo (index + 1)), enclosing p.kinds index stack) := by
  obtain ⟨index, hindex⟩ := ha.jumps cursor label (by rw [getElem?_actions hc, hj])
  refine ⟨index, (ha.labelled label index).mp hindex, ?_⟩
  simp only [resolve, Flow.resolve, hindex, discardOutside_frames ha hf]

/-- The position for which frames of left loops are dropped: that of the command, or that of
the label of a jump. -/
def consulted? (p : Program) (cursor : Nat) : Action → Option Nat
  | .breakLoop | .endLoop => some cursor
  | .jumpToLabel label => p.labelIndex? label
  | _ => none

/-- A command that consults the stack moves the cursor. -/
theorem exists_target (ha : p.Accepted) (hc : p.get? cursor = some c) {position : Nat}
    (hq : p.consulted? cursor c.action = some position) (hf : Frames p.kinds cursor stack)
    (memory : Memory) : ∃ r left next,
      p.resolve (c.action.motion memory) cursor stack = (.ok r, left) ∧
        r.target cursor = some next := by
  cases hact : c.action with
  | breakLoop =>
    rcases resolve_breakLoop ha hc hact hf with
      ⟨start, exit, above, rest, -, -, hr⟩ | ⟨-, start, exit, -, hr⟩
    · exact ⟨_, _, _, hr, rfl⟩
    · exact ⟨_, _, _, hr, rfl⟩
  | endLoop =>
    obtain ⟨start, -, ⟨above, rest, -, hr⟩ | ⟨-, hr⟩⟩ := resolve_endLoop ha hc hact hf
    · exact ⟨_, _, _, hr, rfl⟩
    · exact ⟨_, _, _, hr, rfl⟩
  | jumpToLabel label =>
    obtain ⟨index, -, hr⟩ := resolve_jump ha hc hact hf
    exact ⟨_, _, _, hr, rfl⟩
  | _ =>
    rw [hact] at hq
    cases hq

private theorem left_eq (ha : p.Accepted) (hf : Frames p.kinds cursor stack) {a : Action}
    {position : Nat} (hq : p.consulted? cursor a = some position) {memory : Memory}
    {r : Resolution} {left : ControlStack}
    (hm : p.resolve (a.motion memory) cursor stack = (.ok r, left)) :
    left = if a = .breakLoop then (enclosing p.kinds position stack).tail
      else enclosing p.kinds position stack := by
  cases a with
  | breakLoop =>
    cases hq
    simp only [Action.motion, resolve, Flow.resolve, discardOutside_frames ha hf] at hm
    cases he : enclosing p.kinds cursor stack with
    | nil => rw [he] at hm; exact (congrArg Prod.snd hm).symm
    | cons start rest => rw [he] at hm; exact (congrArg Prod.snd hm).symm
  | endLoop =>
    cases hq
    simp only [Action.motion, resolve, Flow.resolve, discardOutside_frames ha hf] at hm
    cases he : enclosing p.kinds cursor stack with
    | nil => rw [he] at hm; exact (congrArg Prod.snd hm).symm
    | cons start rest =>
      rw [he] at hm
      dsimp only at hm
      split at hm <;> exact (congrArg Prod.snd hm).symm
  | jumpToLabel label =>
    have hfind : p.labels.find? label = some position := hq
    simp only [Action.motion, resolve, Flow.resolve, hfind, discardOutside_frames ha hf] at hm
    exact (congrArg Prod.snd hm).symm
  | _ => cases hq

/-- The frames that are kept when the stack is consulted for a position: those of the loops
around it, except for the one that a break leaves, and every frame below one of these. -/
theorem mem_left_iff (ha : p.Accepted) (hf : Frames p.kinds cursor stack) {a : Action}
    {position : Nat} (hq : p.consulted? cursor a = some position) {memory : Memory}
    {r : Resolution} {left : ControlStack}
    (hm : p.resolve (a.motion memory) cursor stack = (.ok r, left)) {f : Nat} :
    f ∈ left ↔ f ∈ stack ∧ ∃ t ∈ stack, (∃ exit, LoopAround p.kinds position t exit) ∧
      (f < t ∨ f = t ∧ a ≠ .breakLoop) := by
  have hn := ha.nest_kinds
  rw [left_eq ha hf hq hm]
  rcases hf.enclosing_cases hn position with
    ⟨he, hnone⟩ | ⟨start, exit, above, rest, he, hs, hi⟩
  · rw [he, List.tail_nil, ite_self]
    refine ⟨fun h => absurd h List.not_mem_nil, ?_⟩
    rintro ⟨-, t, ht, ⟨exit, hin⟩, -⟩
    exact absurd hin (hnone t ht exit)
  · have hkept := mem_enclosing_iff p.kinds position hf.descending (f := f)
    rw [he] at hkept ⊢
    constructor
    · intro h
      by_cases hb : a = .breakLoop
      · rw [if_pos hb, List.tail_cons] at h
        obtain ⟨hold, hlt⟩ := hf.lt_of_below hs h
        exact ⟨hold, start, hi.chosen, ⟨exit, hi.around⟩, .inl hlt⟩
      · rw [if_neg hb] at h
        obtain ⟨hold, t, ht, hle, hin⟩ := hkept.mp h
        refine ⟨hold, t, ht, (hf.encloses_iff hn ht).mp hin, ?_⟩
        rcases Nat.lt_or_eq_of_le hle with hlt | heq
        · exact .inl hlt
        · exact .inr ⟨heq, hb⟩
    · rintro ⟨hold, t, ht, ⟨exit', hin⟩, hbelow⟩
      have hle : f ≤ t := by omega
      have hmem := hkept.mpr ⟨hold, t, ht, hle, (hf.encloses_iff hn ht).mpr ⟨exit', hin⟩⟩
      by_cases hb : a = .breakLoop
      · -- The frame is below that of a running loop around the position, so it is not on top.
        have hlast := hi.last t exit' ht hin
        rw [if_pos hb, List.tail_cons]
        rcases List.mem_cons.mp hmem with rfl | hrest
        · rcases hbelow with hlt | ⟨-, hnb⟩
          · omega
          · exact absurd hb hnb
        · exact hrest
      · rwa [if_neg hb]

/-- A move keeps the frame of a loop without leaving the loop: the loop reaches over the next
cursor, or the frame was there before and the loop had ended before the cursor already. -/
def Stays (p : Program) (cursor : Nat) (stack : ControlStack) (next f : Nat) : Prop :=
  ∀ exit, LoopBlock p.kinds f exit → next < exit ∨ f ∈ stack ∧ exit ≤ cursor

private theorem stays_of_mem {next f : Nat} (hm : f ∈ stack)
    (h : ∀ exit, LoopBlock p.kinds f exit → cursor < exit → next < exit) :
    p.Stays cursor stack next f := by
  intro exit hblock
  rcases Nat.lt_or_ge cursor exit with hlt | hge
  · exact .inl (h exit hblock hlt)
  · exact .inr ⟨hm, hge⟩

private theorem stays_advance (hc : p.get? cursor = some c) {f : Nat} (hm : f ∈ stack)
    (hend : c.action.kind ≠ .endLoop) : p.Stays cursor stack (cursor + 1) f := by
  refine stays_of_mem hm fun exit hblock hlt => ?_
  have hne := hblock.succ_ne_exit (getElem?_kinds hc) hend
  omega

private theorem breakLoop_stays (ha : p.Accepted) (hc : p.get? cursor = some c)
    (hb : c.action = .breakLoop) (hf : Frames p.kinds cursor stack) {r : Resolution}
    {left : ControlStack} {next f : Nat}
    (hm : p.resolve .breakLoop cursor stack = (.ok r, left))
    (hn : r.target cursor = some next) (hleft : f ∈ left) : p.Stays cursor stack next f := by
  rcases resolve_breakLoop ha hc hb hf with
    ⟨start, exit, above, rest, hi, hs, hr⟩ | ⟨-, start, exit, -, hr⟩
  · cases hm.symm.trans hr
    cases hn
    obtain ⟨hold, hlt⟩ := hf.lt_of_below hs hleft
    refine stays_of_mem hold fun exit' hblock hcursor => ?_
    exact hblock.exit_lt hi.around.block hlt (Nat.lt_trans hi.around.start_lt hcursor)
  · cases hm.symm.trans hr
    cases hleft

private theorem endLoop_stays (ha : p.Accepted) (hc : p.get? cursor = some c)
    (hb : c.action = .endLoop) (hf : Frames p.kinds cursor stack) {r : Resolution}
    {left : ControlStack} {next f : Nat}
    (hm : p.resolve .endLoop cursor stack = (.ok r, left))
    (hn : r.target cursor = some next) (hleft : f ∈ left) : p.Stays cursor stack next f := by
  obtain ⟨start, hstart, ⟨above, rest, hs, hr⟩ | ⟨hout, hr⟩⟩ := resolve_endLoop ha hc hb hf
  · cases hm.symm.trans hr
    cases hn
    have hlo := hstart.start_add_two_le
    rcases List.mem_cons.mp hleft with rfl | hrest
    · exact fun exit hblock => .inl hblock.start_add_two_le
    · obtain ⟨hold, hlt⟩ := hf.lt_of_below hs hrest
      refine stays_of_mem hold fun exit hblock hcursor => ?_
      have hin := hblock.exit_lt hstart hlt (by omega)
      omega
  · cases hm.symm.trans hr
    cases hn
    have hold := ((mem_enclosing_iff _ _ hf.descending).mp hleft).1
    refine stays_of_mem hold fun exit hblock hcursor => ?_
    -- The block of the frame does not end here, for that one has no frame.
    have hne : cursor + 1 ≠ exit := by
      rintro rfl
      exact hout (hstart.start_unique hblock ▸ hold)
    omega

private theorem jump_stays (ha : p.Accepted) (hc : p.get? cursor = some c) {label : String}
    (hb : c.action = .jumpToLabel label) (hf : Frames p.kinds cursor stack) {r : Resolution}
    {left : ControlStack} {next f : Nat}
    (hm : p.resolve (.jump label) cursor stack = (.ok r, left))
    (hn : r.target cursor = some next) (hleft : f ∈ left) : p.Stays cursor stack next f := by
  obtain ⟨index, hindex, hr⟩ := resolve_jump ha hc hb hf
  cases hm.symm.trans hr
  cases hn
  obtain ⟨hold, t, ht, hle, hin⟩ := (mem_enclosing_iff _ _ hf.descending).mp hleft
  obtain ⟨exit, hin⟩ := (hf.encloses_iff ha.nest_kinds ht).mp hin
  have hlabel : p.kinds[index]? = some .label := by
    rw [kinds_eq, List.getElem?_map, hindex]
    rfl
  have hnext : index + 1 < exit := Nat.lt_of_le_of_ne hin.lt_exit
    (hin.block.succ_ne_exit hlabel (by decide))
  -- Below the frames of loops around the label are those of loops that are around it as well, or
  -- had ended before.
  rcases Nat.eq_or_lt_of_le hle with rfl | hlt
  · exact fun exit' hblock => .inl (hin.block.exit_unique hblock ▸ hnext)
  · refine stays_of_mem hold fun exit' hblock hcursor => ?_
    exact Nat.lt_trans hnext (hblock.exit_lt hin.block hlt (Nat.lt_trans (hf.before t ht) hcursor))

/-- No move by itself leaves a loop whose frame it keeps. -/
theorem resolve_stays (ha : p.Accepted) (hc : p.get? cursor = some c) {memory : Memory}
    (hf : Frames p.kinds cursor stack) {r : Resolution} {left : ControlStack} {next : Nat}
    (hm : p.resolve (c.action.motion memory) cursor stack = (.ok r, left))
    (hn : r.target cursor = some next) {f : Nat} (hleft : f ∈ left) :
    p.Stays cursor stack next f := by
  have hk := getElem?_kinds hc
  rw [Command.kind] at hk
  cases hact : c.action with
  | conditionalBranch set =>
    rw [hact] at hm hk
    simp only [Action.motion] at hm
    split at hm
    · simp only [resolve, Flow.resolve] at hm
      cases hskip : skipFalseBranch p.kinds cursor with
      | error e => rw [hskip] at hm; cases hm
      | ok target =>
        rw [hskip] at hm
        cases hm
        cases hn
        refine stays_of_mem hleft fun exit hblock hcursor => ?_
        exact hblock.skipFalseBranch_lt (hf.before f hleft) hcursor hk hskip
    · cases hm
      cases hn
      exact stays_advance hc hleft (by simp [hact, Action.kind])
  | elseBranch =>
    rw [hact] at hm hk
    simp only [Action.motion, resolve, Flow.resolve] at hm
    cases hskip : skipElseBody p.kinds cursor with
    | error e => rw [hskip] at hm; cases hm
    | ok target =>
      rw [hskip] at hm
      cases hm
      cases hn
      refine stays_of_mem hleft fun exit hblock hcursor => ?_
      exact hblock.skipElseBody_lt (hf.before f hleft) hcursor hk hskip
  | loop =>
    rw [hact] at hm
    cases hm
    cases hn
    rcases List.mem_cons.mp hleft with rfl | hold
    · exact fun exit hblock => .inl hblock.start_add_two_le
    · exact stays_advance hc hold (by simp [hact, Action.kind])
  | breakLoop =>
    rw [hact] at hm
    exact breakLoop_stays ha hc hact hf hm hn hleft
  | endLoop =>
    rw [hact] at hm
    exact endLoop_stays ha hc hact hf hm hn hleft
  | jumpToLabel label =>
    rw [hact] at hm
    exact jump_stays ha hc hact hf hm hn hleft
  | exitEventProcessing =>
    rw [hact] at hm
    cases hm
    cases hn
  | _ =>
    rw [hact] at hm
    cases hm
    cases hn
    exact stays_advance hc hleft (by simp [hact, Action.kind])

end Program

end EventScript
