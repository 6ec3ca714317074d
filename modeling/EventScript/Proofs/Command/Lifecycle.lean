import EventScript.Proofs.Command.Calls
import Mathlib.Data.List.Induction

/-!
# The life of a command

A command is called in any order, and in between the host does what it likes. Over all the calls
between two resets the action is started at most once, opens at most one message or prompt, and
gives up at most once, which is what it opened. `Command.Lived` is what every call keeps of this.
-/

namespace EventScript

namespace Command

/-- A call of a command in some world. -/
structure Entry (η : Type) where
  command : Command
  request : Call
  world : World η

section

variable {η : Type}

/-- What became of the call. -/
def Entry.deed (e : Entry η) : Deed := e.command.deed e.request

/-- What became of all of the calls. -/
def deeds (es : List (Entry η)) : List Deed := es.map Entry.deed

/-- One call more. -/
theorem count_deeds_append (es : List (Entry η)) (e : Entry η) (deed : Deed) :
    (deeds (es ++ [e])).count deed = (deeds es).count deed + if e.deed = deed then 1 else 0 := by
  rw [deeds, List.map_append, List.count_append, List.map_singleton, List.count_singleton]
  simp [deeds]

variable [Host η]

namespace Entry

/-- The answer, and what was left. -/
def called (e : Entry η) : Called η := e.command.call e.request e.world

/-- The calls of the host in it, according to a diary. -/
def hostCalls (e : Entry η) : List HostCall :=
  (e.command.call e.request e.world.noted).world.host.calls

/-- What was opened in it. -/
def opened (e : Entry η) : List Holding := e.hostCalls.filterMap HostCall.opened?

/-- What was closed or withdrawn in it. -/
def givenUp (e : Entry η) : List Holding := e.hostCalls.filterMap HostCall.givenUp?

/-- The token of the suspension that was answered. -/
def token? (e : Entry η) : Option Token :=
  match e.called.answer with
  | .ran (.ok (.suspended token)) => some token
  | _ => none

end Entry

/-- What was opened in all of the calls. -/
def openedIn (es : List (Entry η)) : List Holding := es.flatMap Entry.opened

/-- One call more opens what it opens besides. -/
theorem openedIn_append (es : List (Entry η)) (e : Entry η) :
    openedIn (es ++ [e]) = openedIn es ++ e.opened := by
  simp [openedIn]

/-- The token of the last suspension. -/
def lastToken (es : List (Entry η)) : Option Token := (es.filterMap Entry.token?).getLast?

/-- The token of one call more takes the place of the last one, if there is one. -/
theorem lastToken_append (es : List (Entry η)) (e : Entry η) :
    lastToken (es ++ [e]) = e.token?.or (lastToken es) := by
  rw [lastToken, filterMap_concat]
  cases e.token? <;> simp [lastToken]

/-- Calls of a command, each in a world of its own, and the command after them. Whoever resumes it
after a suspension passes the token of the last one. -/
inductive Runs (c : Command) : List (Entry η) → Command → Prop
  | refl : Runs c [] c
  | call {es : List (Entry η)} {d : Command} (request : Call) (w : World η)
    (htoken : ∀ token, request = .resume token → ∀ last, lastToken es = some last → token = last) :
    Runs c es d → Runs c (es ++ [⟨d, request, w⟩]) (d.call request w).command

/-- What every call keeps. An idle command has not begun. While it waits it holds what was opened,
with the token of the last suspension, and nothing has been given up yet. -/
structure Lived (c : Command) (es : List (Entry η)) (d : Command) : Prop where
  reset : d.reset = c.reset
  started : (deeds es).count .started + (if d.phase = .idle then 1 else 0) ≤ 1
  released : (deeds es).count .released + (if d.phase.isTerminal then 0 else 1) ≤ 1
  fresh : d.phase = .idle → openedIn es = []
  once : (openedIn es).length ≤ 1
  waits : d.phase = .executing → ∃ token, lastToken es = some token ∧
    openedIn es = (d.action.held token).toList ∧ d.action.Remembers d.memory token
  givenUp : ∀ e ∈ es, e.givenUp = if e.deed = .released then openedIn es else []
  ended : ∀ e ∈ es, e.command.phase.isTerminal → d = e.command

namespace Lived

variable {c d : Command} {es : List (Entry η)}

/-- Before the first call. -/
theorem refl (h : c.phase = .idle) : c.Lived ([] : List (Entry η)) c := by
  refine ⟨rfl, by simp [deeds, h], by simp [deeds, h, Phase.isTerminal], fun _ => rfl,
    Nat.zero_le 1, ?_, by simp, by simp⟩
  intro hexecuting
  rw [h] at hexecuting
  cases hexecuting

/-- As long as the command has not ended, nothing has been given up. -/
theorem nothing_released (h : c.Lived es d) (hphase : d.phase.isTerminal = false) :
    ∀ e ∈ es, e.deed ≠ .released ∧ e.givenUp = [] := by
  intro e he
  have hcount := h.released
  rw [hphase] at hcount
  have hnone : (deeds es).count .released = 0 := by simpa using hcount
  have hdeed : e.deed ≠ .released := fun hreleased =>
    List.count_eq_zero.mp hnone (hreleased ▸ List.mem_map_of_mem he)
  exact ⟨hdeed, by rw [h.givenUp e he, if_neg hdeed]⟩

/-- So the next call is the first in which something can be given up. -/
theorem givenUp_append (h : c.Lived es d) (hphase : d.phase.isTerminal = false) {e : Entry η}
    {opened : List Holding} (he : e.givenUp = if e.deed = .released then opened else []) :
    ∀ e' ∈ es ++ [e], e'.givenUp = if e'.deed = .released then opened else [] := by
  intro e' he'
  rcases List.mem_append.mp he' with he' | he'
  · obtain ⟨hdeed, hnone⟩ := h.nothing_released hphase e' he'
    rw [hnone, if_neg hdeed]
  · rw [List.mem_singleton.mp he', he]

/-- It is not the call of a command that has ended. -/
theorem ended_append (h : c.Lived es d) (hphase : d.phase.isTerminal = false) {e : Entry η}
    (hcommand : e.command = d) (d' : Command) :
    ∀ e' ∈ es ++ [e], e'.command.phase.isTerminal → d' = e'.command := by
  intro e' he' hterminal
  rcases List.mem_append.mp he' with he' | he'
  · rw [← h.ended e' he' hterminal, hphase] at hterminal
    cases hterminal
  · rw [List.mem_singleton.mp he', hcommand, hphase] at hterminal
    cases hterminal

/-- A tick of the action: it may open the one message or prompt, and goes on waiting for it. -/
theorem ticked (h : c.Lived es d) {e : Entry η} (hcommand : e.command = d)
    {p : Performed (Diary η)} (hholds : p.Holds d.action (openedIn es))
    (hcalled : e.called = .ofRan (d.settle p.plain)) (hcalls : e.hostCalls = p.world.host.calls)
    (hphase : d.phase.isTerminal = false) (hdeed : e.deed ≠ .released)
    (hstarted : (deeds es).count .started + (if e.deed = .started then 1 else 0) ≤ 1) :
    c.Lived (es ++ [e]) e.called.command := by
  have hopened : e.opened = p.opened := by rw [Entry.opened, hcalls, Performed.opened]
  have hafter : e.called.command.phase = settledPhase p.result := by rw [hcalled]; rfl
  have hidle : e.called.command.phase ≠ .idle := by
    rw [hafter]
    unfold settledPhase
    split <;> simp
  refine ⟨?_, ?_, ?_, fun hfresh => absurd hfresh hidle, ?_, ?_, ?_,
    h.ended_append hphase hcommand _⟩
  · rw [hcalled, ← h.reset]
    rfl
  · rw [count_deeds_append, if_neg hidle]
    exact hstarted
  · rw [count_deeds_append, if_neg hdeed]
    have hcount := h.released
    rw [hphase] at hcount
    split <;> simp at hcount ⊢ <;> omega
  · rw [openedIn_append, hopened]
    exact hholds.once
  · intro hexecuting
    rw [hafter] at hexecuting
    obtain ⟨token, htoken⟩ : ∃ token, p.result = .ok (.suspended token) := by
      unfold settledPhase at hexecuting
      split at hexecuting
      · next token hr => exact ⟨token, hr⟩
      · cases hexecuting
    obtain ⟨hheld, hremembers⟩ := hholds.waits token htoken
    have hlast : e.token? = some token := by
      rw [Entry.token?, hcalled, Called.ofRan, settle, Performed.plain]
      simp only [htoken]
    refine ⟨token, by rw [lastToken_append, hlast]; rfl, ?_, ?_⟩
    · rw [openedIn_append, hopened, hheld, hcalled]
      rfl
    · rw [hcalled]
      exact hremembers
  · refine h.givenUp_append hphase ?_
    rw [if_neg hdeed, Entry.givenUp, hcalls]
    exact hholds.keeps

private theorem stopped (h : c.Lived es d) {w : World η} (hphase : d.phase.isTerminal = false)
    (hafter : (d.call .abort w).command.phase = .aborted)
    (hopened : Entry.opened ⟨d, .abort, w⟩ = [])
    (hgivenUp : Entry.givenUp ⟨d, .abort, w⟩ =
      if d.deed .abort = .released then openedIn es else []) :
    c.Lived (es ++ [⟨d, .abort, w⟩]) (d.call .abort w).command := by
  let e : Entry η := ⟨d, .abort, w⟩
  have hdeed : e.deed ≠ .started := by
    unfold Entry.deed deed
    dsimp only [e]
    split <;> decide
  have hkept : openedIn (es ++ [e]) = openedIn es := by
    rw [openedIn_append, hopened, List.append_nil]
  have hstarted := h.started
  have hreleased := h.released
  rw [hphase] at hreleased
  refine ⟨?_, ?_, ?_, ?_, by rw [hkept]; exact h.once, ?_, ?_, h.ended_append hphase rfl _⟩
  · rw [reset_call, h.reset]
  · rw [count_deeds_append, if_neg hdeed, hafter]
    exact Nat.le_trans (Nat.le_add_right _ _) hstarted
  · rw [count_deeds_append, hafter]
    -- An aborted command gives up nothing more, so the one that was left may be used up.
    have hused : (if e.deed = .released then 1 else 0) ≤ 1 := by split <;> decide
    exact Nat.le_trans (Nat.add_le_add_left hused _) hreleased
  · rw [hafter]
    rintro ⟨⟩
  · rw [hafter]
    rintro ⟨⟩
  · refine h.givenUp_append hphase ?_
    rw [hkept]
    exact hgivenUp

/-- The action gives up what was opened. -/
theorem gaveUp (h : c.Lived es d) (w : World η) (hphase : d.phase = .executing) :
    c.Lived (es ++ [⟨d, .abort, w⟩]) (d.call .abort w).command := by
  obtain ⟨token, -, hheld, hremembers⟩ := h.waits hphase
  obtain ⟨hnone, hall⟩ := d.action.release_calls d.memory w
  have hdeed : d.deed .abort = .released := by rw [deed, hphase]
  refine h.stopped (by rw [hphase]; rfl) (by rw [call_abort_executing hphase]) ?_ ?_
  · rw [Entry.opened, Entry.hostCalls, call_abort_executing hphase, hnone]
  · rw [if_pos hdeed, Entry.givenUp, Entry.hostCalls, call_abort_executing hphase, hall,
      hremembers.held_handle, hheld]

/-- An idle command ends before it has begun. -/
theorem withdrew (h : c.Lived es d) (w : World η) (hphase : d.phase = .idle) :
    c.Lived (es ++ [⟨d, .abort, w⟩]) (d.call .abort w).command := by
  have hdeed : d.deed .abort = .withdrawn := by rw [deed, hphase]
  refine h.stopped (by rw [hphase]; rfl) (by rw [call_abort_idle hphase]) ?_ ?_
  · rw [Entry.opened, Entry.hostCalls, call_abort_idle hphase]
    rfl
  · rw [hdeed, Entry.givenUp, Entry.hostCalls, call_abort_idle hphase]
    rfl

/-- A call that is refused adds nothing. -/
theorem refused (h : c.Lived es d) (request : Call) (w : World η)
    (hrefused : d.deed request = .refused) :
    c.Lived (es ++ [⟨d, request, w⟩]) (d.call request w).command := by
  let e : Entry η := ⟨d, request, w⟩
  have hdeed : e.deed = .refused := hrefused
  have hcalls : e.hostCalls = [] := by rw [Entry.hostCalls, call_of_refused hrefused]; rfl
  have htoken : e.token? = none := by
    rw [Entry.token?, Entry.called, call_of_refused hrefused]
    cases request <;> rfl
  have hkept : openedIn (es ++ [e]) = openedIn es := by
    rw [openedIn_append, Entry.opened, hcalls, List.filterMap_nil, List.append_nil]
  rw [call_of_refused hrefused]
  refine ⟨h.reset, ?_, ?_, ?_, ?_, ?_, ?_, ?_⟩
  · rw [count_deeds_append, hdeed]
    exact h.started
  · rw [count_deeds_append, hdeed]
    exact h.released
  · rw [hkept]
    exact h.fresh
  · rw [hkept]
    exact h.once
  · rw [hkept, lastToken_append, htoken]
    exact h.waits
  · intro e' he'
    rw [hkept]
    rcases List.mem_append.mp he' with he' | he'
    · exact h.givenUp e' he'
    · rw [List.mem_singleton.mp he', hdeed, Entry.givenUp, hcalls]
      rfl
  · intro e' he' hterminal
    rcases List.mem_append.mp he' with he' | he'
    · exact h.ended e' he' hterminal
    · rw [List.mem_singleton.mp he']

/-- Every call keeps it. -/
theorem step (h : c.Lived es d) (request : Call) (w : World η)
    (htoken : ∀ token, request = .resume token → ∀ last, lastToken es = some last → token = last) :
    c.Lived (es ++ [⟨d, request, w⟩]) (d.call request w).command := by
  cases request with
  | execute owner =>
    by_cases hphase : d.phase = .idle
    · have hdeed : d.deed (.execute owner) = .started := if_pos hphase
      have hholds := d.action.start_holds owner d.memory w
      rw [← h.fresh hphase] at hholds
      refine h.ticked rfl hholds ?_ ?_ (by rw [hphase]; rfl) ?_ ?_
      · rw [Action.plain_start]
        exact call_execute hphase owner w
      · rw [Entry.hostCalls, call_execute hphase]
        rfl
      · rw [Entry.deed, hdeed]
        decide
      · have hstarted := h.started
        rw [hphase] at hstarted
        rw [Entry.deed, hdeed]
        exact hstarted
    · exact h.refused _ w (if_neg hphase)
  | resume token =>
    by_cases hphase : d.phase = .executing
    · have hdeed : d.deed (.resume token) = .resumed := if_pos hphase
      obtain ⟨last, hlast, hopened, -⟩ := h.waits hphase
      obtain rfl := htoken token rfl last hlast
      have hholds := d.action.resume_holds token d.memory w
      rw [← hopened] at hholds
      refine h.ticked rfl hholds ?_ ?_ (by rw [hphase]; rfl) ?_ ?_
      · rw [Action.plain_resume]
        exact call_resume hphase token w
      · rw [Entry.hostCalls, call_resume hphase]
        rfl
      · rw [Entry.deed, hdeed]
        decide
      · have hstarted := h.started
        rw [hphase] at hstarted
        rw [Entry.deed, hdeed]
        exact hstarted
    · exact h.refused _ w (if_neg hphase)
  | abort =>
    cases hphase : d.phase with
    | idle => exact h.withdrew w hphase
    | executing => exact h.gaveUp w hphase
    | complete | aborted => exact h.refused .abort w (by rw [deed, hphase])

end Lived

namespace Runs

variable {c d : Command} {es : List (Entry η)}

/-- All the calls of an idle command keep it. -/
theorem lived (hidle : c.phase = .idle) (h : c.Runs es d) : c.Lived es d := by
  induction h with
  | refl => exact .refl hidle
  | call request w htoken _ ih => exact ih.step request w htoken

private theorem front {front : List (Entry η)} {e : Entry η} (h : c.Runs (front ++ [e]) d) :
    c.Runs front e.command := by
  generalize hes : front ++ [e] = es at h
  cases h with
  | refl => simp at hes
  | call request w htoken h =>
    obtain ⟨rfl, hlast⟩ := List.append_inj' hes rfl
    obtain rfl := List.singleton_inj.mp hlast
    exact h

/-- The calls before any call lead to its command. -/
theorem before {front rest : List (Entry η)} {e : Entry η} (h : c.Runs (front ++ e :: rest) d) :
    c.Runs front e.command := by
  induction rest using List.reverseRecOn generalizing d with
  | nil => exact h.front
  | append_singleton rest last ih =>
    rw [← List.cons_append, ← List.append_assoc] at h
    exact ih h.front

end Runs

/-- The life of a command between two resets, however its calls are ordered and whatever the host
and the game do in between. Every call comes to what its deed says, with a diary or without. The
action is started at most once, and gives up at most once, which comes after a suspension. At most
one message or prompt is opened, and just that is closed or withdrawn when the action gives up, and
nothing at any other time. Once the command is complete or aborted it stays as it is, and every call
is refused. A call that is refused leaves the command and the world as they were and does not call
the host. Reset, the command is the clone that it began as. -/
theorem life_between_resets {c d : Command} {es : List (Entry η)} (hidle : c.phase = .idle)
    (h : c.Runs es d) :
    (∀ e ∈ es, e.command.Does e.world e.request e.deed e.called ∧
      (e.command.call e.request e.world.noted).plain = e.called) ∧
    (deeds es).count .started ≤ 1 ∧ (deeds es).count .released ≤ 1 ∧
    (∀ front e rest, es = front ++ e :: rest → e.deed = .released → (lastToken front).isSome) ∧
    (openedIn es).length ≤ 1 ∧
    (∀ e ∈ es, e.givenUp = if e.deed = .released then openedIn es else []) ∧
    (∀ e ∈ es, e.command.phase.isTerminal → d = e.command) ∧
    (∀ (request : Call) (w : World η), let e : Entry η := ⟨d, request, w⟩
      (d.phase.isTerminal ∨
        ∃ name phase, e.called.answer = .ran (.error (.notRunnable name phase))) →
      e.called = ⟨d.refusal request, d, w⟩ ∧ e.hostCalls = []) ∧
    d.reset = c.clone ∧ d.clone = c.clone := by
  have hlived := h.lived hidle
  refine ⟨fun e _ => ⟨e.command.does_call e.request e.world, plain_call ..⟩, ?_, ?_, ?_,
    hlived.once, hlived.givenUp, hlived.ended, ?_, hlived.reset, hlived.reset⟩
  · exact Nat.le_trans (Nat.le_add_right _ _) hlived.started
  · exact Nat.le_trans (Nat.le_add_right _ _) hlived.released
  · rintro front e rest rfl hreleased
    have hexecuting : e.command.phase = .executing := by
      have hdoes := e.command.does_call e.request e.world
      rw [show e.command.deed e.request = .released from hreleased] at hdoes
      generalize e.request = request at hdoes
      generalize e.command.call request e.world = done at hdoes
      cases hdoes with
      | released hphase => exact hphase
    obtain ⟨token, htoken, -⟩ := (h.before.lived hidle).waits hexecuting
    rw [htoken]
    rfl
  · intro request w e hor
    have hrefused : d.deed request = .refused := by
      rcases hor with hterminal | ⟨name, phase, hanswer⟩
      · exact refused_of_terminal hterminal request
      · exact refused_of_notRunnable hanswer
    refine ⟨call_of_refused hrefused w, ?_⟩
    rw [Entry.hostCalls, call_of_refused hrefused]
    rfl

/-- A message that is still open when the command is resumed and then stopped: it is shown once and
closed once, and the command cannot be executed again. -/
theorem life_between_resets_message :
    let c : Command := .ofAction (.showMessage (.waiting "Who is there?"))
    let first : Entry Stage := ⟨c, .execute .global, ⟨{}, { presenter := .recording {} }⟩⟩
    let second : Entry Stage := ⟨first.called.command, .resume 1, first.called.world⟩
    let third : Entry Stage := ⟨second.called.command, .abort, second.called.world⟩
    let fourth : Entry Stage := ⟨third.called.command, .execute .global, third.called.world⟩
    let es := [first, second, third, fourth]
    let d := fourth.called.command
    c.Runs es d ∧ deeds es = [.started, .resumed, .released, .refused] ∧
      openedIn es = [.message 1] ∧ third.givenUp = [.message 1] ∧
      (lastToken [first, second]).isSome ∧ d = third.called.command ∧
      (d.call .abort fourth.world).answer = .stopped false ∧ d.reset = c := by
  intro c first second third fourth es d
  have hruns : c.Runs es d :=
    (((Runs.refl.call (.execute .global) _ (by rintro token ⟨⟩)).call (.resume 1) _
      (by rintro token ⟨⟩ last ⟨⟩; rfl)).call .abort _ (by rintro token ⟨⟩)).call
      (.execute .global) _ (by rintro token ⟨⟩)
  have hdeeds : deeds es = [.started, .resumed, .released, .refused] := rfl
  have hopened : openedIn es = [.message 1] := rfl
  obtain ⟨-, -, -, hsuspended, -, hgivenUp, hended, hrefused, hreset, -⟩ :=
    life_between_resets rfl hruns
  have hthird : third ∈ es := by simp [es]
  have hfourth : fourth ∈ es := by simp [es]
  refine ⟨hruns, hdeeds, hopened, ?_, hsuspended [first, second] third [fourth] rfl rfl,
    hended fourth hfourth rfl, ?_, hreset⟩
  · rw [hgivenUp third hthird, hopened]
    rfl
  · exact congrArg Called.answer (hrefused .abort fourth.world (.inl rfl)).1

end

end Command

end EventScript
