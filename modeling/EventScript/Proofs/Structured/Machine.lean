import EventScript.Proofs.Structured.Semantics

/-!
# Structured programs one step at a time

`Config.next` gives the meaning of a tree in the small, with the work that is left as a list
of continuations. `exec_iff_arrives` says that its steps make up exactly the runs in the
big.
-/

namespace EventScript

/-- What is left to do after a tree. -/
inductive Cont where
  /-- Go on behind a branch. -/
  | resume (next : Tree)
  /-- Begin a loop again. -/
  | again (body next : Tree)

/-- Leave the innermost loop. -/
def Cont.unwind : List Cont → Option (Tree × List Cont)
  | [] => none
  | .resume _ :: ks => unwind ks
  | .again _ next :: ks => some (next, ks)

/-- A tree in the middle of a run. -/
structure Config where
  tree : Tree
  conts : List Cont
  game : GameState

namespace Config

/-- One step, with what can be seen of it. There is none at the end of the program, at an
exit, and at a break outside of every loop. -/
def next (owner : Owner) (c : Config) : Option (List Event × Config) :=
  match c with
  | ⟨.done, [], _⟩ => none
  | ⟨.done, .resume next :: ks, g⟩ => some ([], ⟨next, ks, g⟩)
  | ⟨.done, .again body next :: ks, g⟩ => some ([], ⟨body, .again body next :: ks, g⟩)
  | ⟨.basic l next, ks, g⟩ =>
    if l.enabled then some ([.ran l.command], ⟨next, ks, l.effect owner g⟩)
    else some ([], ⟨next, ks, g⟩)
  | ⟨.ifThen set yes next, ks, g⟩ =>
    match g.evaluate owner set with
    | (true, g) => some ([.decided set true], ⟨yes, .resume next :: ks, g⟩)
    | (false, g) => some ([.decided set false], ⟨next, ks, g⟩)
  | ⟨.ifElse set yes no next, ks, g⟩ =>
    match g.evaluate owner set with
    | (outcome, g) =>
      some ([.decided set outcome], ⟨if outcome then yes else no, .resume next :: ks, g⟩)
  | ⟨.loop body next, ks, g⟩ => some ([], ⟨body, .again body next :: ks, g⟩)
  | ⟨.breakLoop _, ks, g⟩ => (Cont.unwind ks).map fun r => ([], ⟨r.1, r.2, g⟩)
  | ⟨.exit _, _, _⟩ => none

variable {owner : Owner} {ks : List Cont} {g g₁ : GameState}

/-- Behind a body of a branch the run goes on behind the branch. -/
theorem next_resume (t : Tree) :
    next owner ⟨.done, .resume t :: ks, g⟩ = some ([], ⟨t, ks, g⟩) := rfl

/-- Behind its body a loop begins again. -/
theorem next_again (body t : Tree) :
    next owner ⟨.done, .again body t :: ks, g⟩ = some ([], ⟨body, .again body t :: ks, g⟩) := rfl

/-- A loop is entered. -/
theorem next_loop (body t : Tree) :
    next owner ⟨.loop body t, ks, g⟩ = some ([], ⟨body, .again body t :: ks, g⟩) := rfl

/-- An enabled basic command runs. -/
theorem next_ran {l : Leaf} (he : l.enabled = true) (t : Tree) :
    next owner ⟨.basic l t, ks, g⟩ = some ([.ran l.command], ⟨t, ks, l.effect owner g⟩) :=
  if_pos he

/-- A disabled basic command does nothing. -/
theorem next_skipped {l : Leaf} (hd : l.enabled = false) (t : Tree) :
    next owner ⟨.basic l t, ks, g⟩ = some ([], ⟨t, ks, g⟩) := by
  rw [next, if_neg (by rw [hd]; decide)]

/-- A true condition leads to the body. -/
theorem next_ifThen {set : ConditionSet} (hc : g.evaluate owner set = (true, g₁))
    (yes t : Tree) : next owner ⟨.ifThen set yes t, ks, g⟩ =
      some ([.decided set true], ⟨yes, .resume t :: ks, g₁⟩) := by
  simp only [next, hc]

/-- A false condition leads behind the branch. -/
theorem next_ifThenPassed {set : ConditionSet} (hc : g.evaluate owner set = (false, g₁))
    (yes t : Tree) : next owner ⟨.ifThen set yes t, ks, g⟩ =
      some ([.decided set false], ⟨t, ks, g₁⟩) := by
  simp only [next, hc]

/-- A condition chooses one of two bodies. -/
theorem next_ifElse {set : ConditionSet} {outcome : Bool}
    (hc : g.evaluate owner set = (outcome, g₁)) (yes no t : Tree) :
    next owner ⟨.ifElse set yes no t, ks, g⟩ =
      some ([.decided set outcome], ⟨if outcome then yes else no, .resume t :: ks, g₁⟩) := by
  simp only [next, hc]

/-- A break leads behind the innermost loop. -/
theorem next_breakLoop {t t' : Tree} {ks' : List Cont} (hu : Cont.unwind ks = some (t', ks')) :
    next owner ⟨.breakLoop t, ks, g⟩ = some ([], ⟨t', ks', g⟩) := by
  rw [next, hu]
  rfl

/-- Steps one after the other, with what can be seen of them. -/
inductive Leads (owner : Owner) : Config → List Event → Config → Prop
  | refl {c : Config} : Leads owner c [] c
  | step {c c₁ c₂ : Config} {ev tr : List Event} (hn : c.next owner = some (ev, c₁))
    (h : Leads owner c₁ tr c₂) : Leads owner c (ev ++ tr) c₂

/-- Runs one after the other. -/
theorem Leads.trans {c₁ c₂ c₃ : Config} {tr tr' : List Event} (h : Leads owner c₁ tr c₂)
    (h' : Leads owner c₂ tr' c₃) : Leads owner c₁ (tr ++ tr') c₃ := by
  induction h with
  | refl => exact h'
  | step hn _ ih =>
    rw [List.append_assoc]
    exact .step hn (ih h')

/-- A step at the end. -/
theorem Leads.snoc {c₁ c₂ c₃ : Config} {tr ev : List Event} (h : Leads owner c₁ tr c₂)
    (hn : c₂.next owner = some (ev, c₃)) : Leads owner c₁ (tr ++ ev) c₃ := by
  have hlast := h.trans (.step hn .refl)
  rwa [List.append_nil] at hlast

/-! ### Every run is made of steps -/

/-- Steps from a configuration bring a tree to its ending, where `ks` is what is left to do
after the tree. -/
def Arrives (owner : Owner) (ks : List Cont) (c : Config) (tr : List Event) (g : GameState) :
    Ending → Prop
  | .normal => Leads owner c tr ⟨.done, ks, g⟩
  | .broken => ∃ next ks', Leads owner c tr ⟨.breakLoop next, ks', g⟩ ∧
      Cont.unwind ks' = Cont.unwind ks
  | .exited => ∃ next ks', Leads owner c tr ⟨.exit next, ks', g⟩
  | .cut => ∃ t ks', Leads owner c tr ⟨t, ks', g⟩

/-- Steps before the ones that arrive. -/
theorem Arrives.after {ks : List Cont} {c c₁ : Config} {tr tr' : List Event} {g : GameState}
    {e : Ending} (hl : Leads owner c tr c₁) (h : Arrives owner ks c₁ tr' g e) :
    Arrives owner ks c (tr ++ tr') g e := by
  match e, h with
  | .normal, h => exact hl.trans h
  | .broken, ⟨next, ks', h, hu⟩ => exact ⟨next, ks', hl.trans h, hu⟩
  | .exited, ⟨next, ks', h⟩ => exact ⟨next, ks', hl.trans h⟩
  | .cut, ⟨t, ks', h⟩ => exact ⟨t, ks', hl.trans h⟩

/-- A step before the ones that arrive. -/
theorem Arrives.step {ks : List Cont} {c c₁ : Config} {ev tr : List Event} {g : GameState}
    {e : Ending} (hn : c.next owner = some (ev, c₁)) (h : Arrives owner ks c₁ tr g e) :
    Arrives owner ks c (ev ++ tr) g e := by
  have hone : Leads owner c ev c₁ := Leads.refl.snoc hn
  exact .after hone h

/-- A body of a branch that stops early stops what is around the branch. -/
theorem Arrives.resume {next : Tree} {ks : List Cont} {c : Config} {tr : List Event}
    {g : GameState} {e : Ending} (h : Arrives owner (.resume next :: ks) c tr g e)
    (he : e ≠ .normal) : Arrives owner ks c tr g e := by
  match e, h with
  | .normal, _ => exact absurd rfl he
  | .broken, h => exact h
  | .exited, h => exact h
  | .cut, h => exact h

/-- What a loop arrives at, its body arrives at once the loop is entered. -/
theorem Arrives.entered {body next : Tree} {ks : List Cont} {tr : List Event}
    {g g' : GameState} {e : Ending} (h : Arrives owner ks ⟨.loop body next, ks, g⟩ tr g' e) :
    Arrives owner ks ⟨body, .again body next :: ks, g⟩ tr g' e := by
  have enter {c : Config} (hl : Leads owner ⟨.loop body next, ks, g⟩ tr c)
      (hc : ∀ g, c ≠ ⟨.loop body next, ks, g⟩) :
      Leads owner ⟨body, .again body next :: ks, g⟩ tr c := by
    cases hl with
    | refl => exact absurd rfl (hc g)
    | step hn h =>
      cases hn
      exact h
  match e, h with
  | .normal, h => exact enter h (by simp)
  | .broken, ⟨next, ks', h, hu⟩ => exact ⟨next, ks', enter h (by simp), hu⟩
  | .exited, ⟨next, ks', h⟩ => exact ⟨next, ks', enter h (by simp)⟩
  | .cut, ⟨t, ks', h⟩ =>
    cases h with
    | refl => exact ⟨body, _, .refl⟩
    | step hn h =>
      cases hn
      exact ⟨t, ks', h⟩

/-- Every run of a tree is made of steps, whatever is left to do after it. -/
theorem arrives_of_exec {t : Tree} {g g' : GameState} {tr : List Event} {e : Ending}
    (h : Exec owner t g tr g' e) (ks : List Cont) : Arrives owner ks ⟨t, ks, g⟩ tr g' e := by
  induction h generalizing ks with
  | cut => exact ⟨_, _, .refl⟩
  | done => exact .refl
  | skipped hd _ ih => exact .step (next_skipped hd _) (ih ks)
  | ran he _ ih => exact .step (next_ran he _) (ih ks)
  | @ifThen _ _ next _ _ _ _ _ _ _ hc _ _ ih ih' =>
    have hyes := Leads.step (next_ifThen hc _ _) (ih (.resume next :: ks))
    exact .after hyes (.step (next_resume next) (ih' ks))
  | @ifThenStopped _ _ next _ _ _ _ _ hc _ he ih =>
    have hyes := ih (.resume next :: ks)
    exact .step (next_ifThen hc _ _) (hyes.resume he)
  | ifThenPassed hc _ ih => exact .step (next_ifThenPassed hc _ _) (ih ks)
  | @ifElse _ _ _ next _ _ _ _ _ _ _ _ hc _ _ ih ih' =>
    have hbody := Leads.step (next_ifElse hc _ _ _) (ih (.resume next :: ks))
    exact .after hbody (.step (next_resume next) (ih' ks))
  | @ifElseStopped _ _ _ next _ _ _ _ _ _ hc _ he ih =>
    have hbody := ih (.resume next :: ks)
    exact .step (next_ifElse hc _ _ _) (hbody.resume he)
  | @repeated body next _ _ _ _ _ _ _ _ ih ih' =>
    -- At its end the body begins again, as if the loop were entered anew.
    have hbody := Leads.step (next_loop body next) (ih (.again body next :: ks))
    exact .after hbody (.step (next_again body next) (ih' ks).entered)
  | @left body next _ _ _ _ _ _ _ _ ih ih' =>
    obtain ⟨t, ks', hbody, hu⟩ := ih (.again body next :: ks)
    have hbroken := Leads.step (next_loop body next) hbody
    exact .after hbroken (.step (next_breakLoop hu) (ih' ks))
  | @loopStopped body next _ _ _ _ _ he ih =>
    have hbody := ih (.again body next :: ks)
    rcases he with rfl | rfl
    · exact .step (next_loop body next) hbody
    · exact .step (next_loop body next) hbody
  | broken => exact ⟨_, ks, .refl, rfl⟩
  | exited => exact ⟨_, ks, .refl⟩

/-! ### Steps make up a run -/

/-- The runs of a tree and of what is left to do after it. -/
inductive Finish (owner : Owner) :
    Tree → List Cont → GameState → List Event → GameState → Ending → Prop
  | stopped {t : Tree} {ks : List Cont} {g g' : GameState} {tr : List Event} {e : Ending}
    (h : Exec owner t g tr g' e)
    (he : e = .cut ∨ e = .exited ∨ e = .broken ∧ Cont.unwind ks = none) :
    Finish owner t ks g tr g' e
  | last {t : Tree} {g g' : GameState} {tr : List Event} (h : Exec owner t g tr g' .normal) :
    Finish owner t [] g tr g' .normal
  | resumed {t next : Tree} {ks : List Cont} {g g₁ g' : GameState} {tr tr' : List Event}
    {e : Ending} (h : Exec owner t g tr g₁ .normal) (h' : Finish owner next ks g₁ tr' g' e) :
    Finish owner t (.resume next :: ks) g (tr ++ tr') g' e
  | repeated {t body next : Tree} {ks : List Cont} {g g₁ g' : GameState} {tr tr' : List Event}
    {e : Ending} (h : Exec owner t g tr g₁ .normal)
    (h' : Finish owner body (.again body next :: ks) g₁ tr' g' e) :
    Finish owner t (.again body next :: ks) g (tr ++ tr') g' e
  | left {t next : Tree} {ks ks' : List Cont} {g g₁ g' : GameState} {tr tr' : List Event}
    {e : Ending} (h : Exec owner t g tr g₁ .broken) (hu : Cont.unwind ks = some (next, ks'))
    (h' : Finish owner next ks' g₁ tr' g' e) : Finish owner t ks g (tr ++ tr') g' e

/-- A tree all of whose runs are ends of runs of another. -/
theorem Finish.prepend {t t' : Tree} {ks : List Cont} {g g₁ g' : GameState}
    {ev tr : List Event} {e : Ending}
    (hp : ∀ {tr : List Event} {g' : GameState} {e : Ending},
      Exec owner t' g₁ tr g' e → Exec owner t g (ev ++ tr) g' e)
    (h : Finish owner t' ks g₁ tr g' e) : Finish owner t ks g (ev ++ tr) g' e := by
  cases h with
  | stopped h he => exact .stopped (hp h) he
  | last h => exact .last (hp h)
  | resumed h h' =>
    rw [← List.append_assoc]
    exact .resumed (hp h) h'
  | repeated h h' =>
    rw [← List.append_assoc]
    exact .repeated (hp h) h'
  | left h hu h' =>
    rw [← List.append_assoc]
    exact .left (hp h) hu h'

/-- The runs of a body and of what is left of its loop are runs of the loop. -/
theorem Finish.loop {body next : Tree} {ks : List Cont} {g g' : GameState}
    {tr : List Event} {e : Ending} (h : Finish owner body (.again body next :: ks) g tr g' e) :
    Finish owner (.loop body next) ks g tr g' e := by
  generalize hk : Cont.again body next :: ks = ks₀ at h
  generalize ht : body = t at h
  induction h with
  | stopped h he =>
    subst hk ht
    rcases he with rfl | rfl | ⟨-, hu⟩
    · exact .stopped (.loopStopped h (.inl rfl)) (.inl rfl)
    · exact .stopped (.loopStopped h (.inr rfl)) (.inr (.inl rfl))
    · cases hu
  | last | resumed => cases hk
  | repeated h _ ih =>
    cases hk
    subst ht
    exact (ih rfl rfl).prepend (.repeated h)
  | left h hu h' =>
    subst hk ht
    cases hu
    exact h'.prepend (.left h)

private theorem Finish.branch {body t next : Tree} {ks : List Cont} {g g₁ g' : GameState}
    {ev tr : List Event} {e : Ending}
    (hfinished : ∀ {tr tr' : List Event} {g₂ g' : GameState} {e : Ending},
      Exec owner body g₁ tr g₂ .normal → Exec owner next g₂ tr' g' e →
        Exec owner t g (ev ++ tr ++ tr') g' e)
    (hstopped : ∀ {tr : List Event} {g' : GameState} {e : Ending},
      Exec owner body g₁ tr g' e → e ≠ .normal → Exec owner t g (ev ++ tr) g' e)
    (h : Finish owner body (.resume next :: ks) g₁ tr g' e) :
    Finish owner t ks g (ev ++ tr) g' e := by
  cases h with
  | stopped h he =>
    have hn : e ≠ .normal := by rcases he with rfl | rfl | ⟨rfl, -⟩ <;> decide
    exact .stopped (hstopped h hn) he
  | resumed h h' =>
    rw [← List.append_assoc]
    exact h'.prepend (hfinished h)
  | left h hu h' =>
    rw [← List.append_assoc]
    exact .left (hstopped h (by decide)) hu h'

/-- A step before a run. -/
theorem Finish.step {c c₁ : Config} {ev tr : List Event} {g' : GameState} {e : Ending}
    (hn : c.next owner = some (ev, c₁)) (h : Finish owner c₁.tree c₁.conts c₁.game tr g' e) :
    Finish owner c.tree c.conts c.game (ev ++ tr) g' e := by
  obtain ⟨t, ks, g⟩ := c
  cases t with
  | done =>
    match ks, hn with
    | .resume next :: ks, hn =>
      cases hn
      exact .resumed .done h
    | .again body next :: ks, hn =>
      cases hn
      exact .repeated .done h
  | basic l next =>
    cases hl : l.enabled with
    | true =>
      rw [next_ran hl] at hn
      cases hn
      exact h.prepend (.ran hl)
    | false =>
      rw [next_skipped hl] at hn
      cases hn
      exact h.prepend (.skipped hl)
  | ifThen set yes next =>
    rcases hc : g.evaluate owner set with ⟨outcome, g₁⟩
    cases outcome with
    | true =>
      rw [next_ifThen hc] at hn
      cases hn
      exact h.branch (.ifThen hc) (.ifThenStopped hc)
    | false =>
      rw [next_ifThenPassed hc] at hn
      cases hn
      exact h.prepend (.ifThenPassed hc)
  | ifElse set yes no next =>
    rcases hc : g.evaluate owner set with ⟨outcome, g₁⟩
    rw [next_ifElse hc] at hn
    cases hn
    exact h.branch (.ifElse hc) (.ifElseStopped hc)
  | loop body next =>
    cases hn
    exact h.loop
  | breakLoop next =>
    obtain ⟨⟨t', ks'⟩, hu, hr⟩ := Option.map_eq_some_iff.mp hn
    cases hr
    exact .left .broken hu h
  | exit next => cases hn

/-- Steps before a run. -/
theorem Finish.steps {c c₁ : Config} {tr tr' : List Event} {g' : GameState} {e : Ending}
    (hl : Leads owner c tr c₁) (h : Finish owner c₁.tree c₁.conts c₁.game tr' g' e) :
    Finish owner c.tree c.conts c.game (tr ++ tr') g' e := by
  induction hl with
  | refl => exact h
  | step hn _ ih =>
    rw [List.append_assoc]
    exact .step hn (ih h)

/-- A run after which nothing is left to do is a run of the tree alone. -/
theorem Finish.exec {t : Tree} {g g' : GameState} {tr : List Event} {e : Ending}
    (h : Finish owner t [] g tr g' e) : Exec owner t g tr g' e := by
  cases h with
  | stopped h _ => exact h
  | last h => exact h
  | left _ hu => cases hu

/-- The meaning of a tree in the big is its meaning in the small. -/
theorem exec_iff_arrives {t : Tree} {g g' : GameState} {tr : List Event} {e : Ending} :
    Exec owner t g tr g' e ↔ Arrives owner [] ⟨t, [], g⟩ tr g' e := by
  refine ⟨fun h => arrives_of_exec h [], fun h => ?_⟩
  have run {c : Config} (hl : Leads owner ⟨t, [], g⟩ tr c)
      (h : Finish owner c.tree c.conts c.game [] g' e) : Exec owner t g tr g' e := by
    have hf := Finish.steps hl h
    rw [List.append_nil] at hf
    exact hf.exec
  match e, h with
  | .normal, hl => exact run hl (.last .done)
  | .broken, ⟨next, ks', hl, hu⟩ => exact run hl (.stopped .broken (.inr (.inr ⟨rfl, hu⟩)))
  | .exited, ⟨next, ks', hl⟩ => exact run hl (.stopped .exited (.inr (.inl rfl)))
  | .cut, ⟨t', ks', hl⟩ => exact run hl (.stopped .cut (.inl rfl))

end Config

end EventScript
