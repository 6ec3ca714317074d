import EventScript.Host.Stage
import EventScript.Proofs.Desk.Basic

/-!
# Chronicles of a desk

What a run shows of the sessions of its interpreter is written down as a chronicle: the starts
that were accepted, the ends, and the completions that were announced, session by session. The
story of a session has one of few forms, and the last story tells the status of the interpreter.
-/

namespace EventScript

namespace Desk

/-- A turning point in the life of a session. -/
inductive Milestone where
  /-- A start was accepted; its caller wants to hear of the completion or not. -/
  | started (notify : Bool)
  | completed (c : Completion)
  | stopped
  deriving DecidableEq, Repr

/-- What one reply shows of a session. -/
structure Sight where
  milestone : Option Milestone
  announced : Option Completion
  deriving DecidableEq, Repr

/-- What has been seen of sessions. -/
structure Chronicle where
  /-- What was seen before the first accepted start. -/
  foreword : List Sight := []
  /-- What was seen from each accepted start on, before the next one: the last session first,
  and of each the oldest sight first. -/
  stories : List (List Sight) := []
  deriving DecidableEq, Repr

/-- Write a sight down: an accepted start begins a story, and all else continues the last one. -/
def Chronicle.add (c : Chronicle) (s : Sight) : Chronicle :=
  match s.milestone, c.stories with
  | some (.started _), stories => { c with stories := [s] :: stories }
  | _, [] => { c with foreword := c.foreword ++ [s] }
  | _, story :: earlier => { c with stories := (story ++ [s]) :: earlier }

variable {η : Type}

/-- The turning point that a reply shows. -/
def Entry.milestone? (e : Entry η) : Option Milestone :=
  match e.call, e.reply.result with
  | .start _, .started (.ok _) => some (.started true)
  | .startProgram _ notify, .started (.ok _) => some (.started notify)
  | _, .updated (.completed c) => some (.completed c)
  | _, .stopped true => some .stopped
  | _, _ => none

/-- What a reply shows of a session, if it shows anything. -/
def Entry.sight? (e : Entry η) : Option Sight :=
  match e.milestone?, e.reply.announced with
  | none, none => none
  | milestone, announced => some ⟨milestone, announced⟩

/-- Write down what an entry shows. -/
def Chronicle.enter (c : Chronicle) (e : Entry η) : Chronicle := e.sight?.elim c c.add

/-- What a run shows of sessions. -/
def chronicle (run : List (Entry η)) : Chronicle := run.foldl Chronicle.enter {}

/-- The story of a session, and the status that it leaves the interpreter in: the session is under
way; or it has completed, which was announced in the same reply if anybody wants to hear of it; or
it was stopped, and nothing was announced. -/
inductive Told : List Sight → Status → Prop
  | running (notify : Bool) : Told [⟨some (.started notify), none⟩] .running
  | paused (notify : Bool) : Told [⟨some (.started notify), none⟩] .paused
  | completed (notify : Bool) (c : Completion) :
    Told [⟨some (.started notify), none⟩,
      ⟨some (.completed c), if notify then some c else none⟩] .completed
  | stopped (notify : Bool) :
    Told [⟨some (.started notify), none⟩, ⟨some .stopped, none⟩] .idle

/-- The status that the last of some stories leaves the interpreter in; without any it is idle. -/
def LastTold : List (List Sight) → Status → Prop
  | [], status => status = .idle
  | story :: _, status => Told story status

/-- The session of a story has ended. -/
def Ended (story : List Sight) : Prop := Told story .completed ∨ Told story .idle

/-- The stories agree with what the interpreter has: the last one is under way just where it has
a session, and then tells who hears of its completion. -/
inductive Recorded (i : Interpreter) : List (List Sight) → Prop
  | blank (hs : i.session = none) (hc : i.completed = false) : Recorded i []
  | active {s : Session} {earlier : List (List Sight)} (hs : i.session = some s)
    (he : ∀ story ∈ earlier, Ended story) :
    Recorded i ([⟨some (.started s.notify), none⟩] :: earlier)
  | ended {story : List Sight} {earlier : List (List Sight)} (hs : i.session = none)
    (ht : Told story (if i.completed then .completed else .idle))
    (he : ∀ story ∈ earlier, Ended story) : Recorded i (story :: earlier)

namespace Chronicle

variable {c : Chronicle} {e : Entry η}

/-- An entry that shows nothing changes nothing. -/
theorem enter_of_silent (hm : e.milestone? = none) (ha : e.reply.announced = none) :
    c.enter e = c := by
  rw [enter, Entry.sight?, hm, ha]
  rfl

/-- An accepted start begins a story. -/
theorem enter_of_started {notify : Bool} (hm : e.milestone? = some (.started notify))
    (ha : e.reply.announced = none) :
    c.enter e = { c with stories := [⟨some (.started notify), none⟩] :: c.stories } := by
  rw [enter, Entry.sight?, hm, ha]
  rfl

/-- An end goes to the last story. -/
theorem enter_of_ended {m : Milestone} (hm : e.milestone? = some m)
    (hends : ∀ notify, m ≠ .started notify) {story : List Sight} {earlier : List (List Sight)}
    (hs : c.stories = story :: earlier) :
    c.enter e =
      { c with stories := (story ++ [⟨some m, e.reply.announced⟩]) :: earlier } := by
  rw [enter, Entry.sight?, hm]
  cases m with
  | started notify => exact absurd rfl (hends notify)
  | completed | stopped => simp [add, hs]

end Chronicle

namespace Recorded

variable {i : Interpreter} {stories : List (List Sight)}

/-- Without a session every story has ended. -/
theorem all_ended (h : Recorded i stories) (hs : i.session = none) :
    ∀ story ∈ stories, Ended story := by
  cases h with
  | blank => simp
  | active hs' => rw [hs] at hs'; cases hs'
  | ended _ ht he =>
    intro story hstory
    rcases List.mem_cons.mp hstory with rfl | hstory
    · cases hc : i.completed <;> rw [hc] at ht
      · exact .inr ht
      · exact .inl ht
    · exact he story hstory

/-- The stories depend on the interpreter only through who hears of its session, and through the
mark of the last completion. -/
theorem congr (h : Recorded i stories) {j : Interpreter} (hc : j.completed = i.completed)
    (hs : j.session.map Session.notify = i.session.map Session.notify) :
    Recorded j stories := by
  cases h with
  | blank hnone hcompleted =>
    rw [hnone] at hs
    exact .blank (Option.map_eq_none_iff.mp hs) (hc.trans hcompleted)
  | active hsome he =>
    rw [hsome] at hs
    obtain ⟨s', hs', hn⟩ := Option.map_eq_some_iff.mp hs
    rw [← hn]
    exact .active hs' he
  | ended hnone ht he =>
    rw [hnone] at hs
    exact .ended (Option.map_eq_none_iff.mp hs) (by rw [hc]; exact ht) he

end Recorded

/-- A chronicle that agrees with what the interpreter has. -/
structure Chronicle.Fits (c : Chronicle) (i : Interpreter) : Prop where
  foreword : c.foreword = []
  stories : Recorded i c.stories

section

variable {η : Type} {c : Chronicle} {i : Interpreter} {e : Entry η}

/-- An entry that shows nothing goes with what changes neither the hearer nor the mark. -/
theorem Chronicle.Fits.silent (h : c.Fits i) (hm : e.milestone? = none)
    (ha : e.reply.announced = none) {j : Interpreter} (hc : j.completed = i.completed)
    (hs : j.session.map Session.notify = i.session.map Session.notify) : (c.enter e).Fits j := by
  rw [enter_of_silent hm ha]
  exact ⟨h.foreword, h.stories.congr hc hs⟩

/-- An accepted start goes with a new session. -/
theorem Chronicle.Fits.begin (h : c.Fits i) (hs : i.session = none) (p : Program)
    {notify : Bool} (hm : e.milestone? = some (.started notify))
    (ha : e.reply.announced = none) : (c.enter e).Fits (i.begin p notify) := by
  rw [enter_of_started hm ha]
  exact ⟨h.foreword, .active (s := .start p notify) rfl (h.stories.all_ended hs)⟩

/-- An end goes with the end of the session. -/
theorem Chronicle.Fits.ends (h : c.Fits i) {s : Session} (hs : i.session = some s) {m : Milestone}
    (hm : e.milestone? = some m) (hends : ∀ notify, m ≠ .started notify) {j : Interpreter}
    (hj : j.session = none)
    (ht : Told [⟨some (.started s.notify), none⟩, ⟨some m, e.reply.announced⟩]
      (if j.completed then .completed else .idle)) : (c.enter e).Fits j := by
  obtain ⟨hforeword, hstories⟩ := h
  cases c with | mk foreword stories
  cases hstories with
  | blank hs' | ended hs' => rw [hs] at hs'; cases hs'
  | active hs' he =>
    rw [hs] at hs'
    cases hs'
    rw [enter_of_ended hm hends rfl]
    exact ⟨hforeword, .ended hj ht he⟩

end

/-! ### Every reply is written down -/

section

variable {η : Type} [Host η] {c : Chronicle} {d : Desk η}

/-- An update ends the story where it reports a completion. -/
theorem Chronicle.Fits.update (h : c.Fits d.interpreter) {r : Reply TickReport η}
    (hr : d.interpreter.Updates d.services r) :
    (c.enter ⟨.update, r.map .updated⟩).Fits r.interpreter := by
  cases hr with
  | inactive | paused => exact h.silent rfl rfl rfl rfl
  | @limited s s' _ _ hs _ _ _ _ ha =>
    have hn := congrArg (fun cut => cut.1.notify) ha
    rw [Session.abortInFlight_eq] at hn
    refine h.ends hs rfl (by simp) rfl ?_
    rw [hn]
    exact .completed s'.notify _
  | advanced hs _ _ hstep =>
    refine h.silent ?_ rfl rfl ?_
    · cases hstep <;> rfl
    · rw [hs]
      exact congrArg some hstep.notify
  | @ended s s' _ _ hs _ _ hstep =>
    refine h.ends hs rfl (by simp) rfl ?_
    rw [← hstep.notify]
    exact .completed s'.notify _

/-- The chronicle keeps up with every reply. -/
theorem Chronicle.Fits.reply (h : c.Fits d.interpreter) {call : Call η} {r : Reply Answer η}
    (hr : d.Replies call r) : (c.enter ⟨call, r⟩).Fits r.interpreter := by
  cases hr with
  | running | runningProgram | malformed | idle | outside => exact h.silent rfl rfl rfl rfl
  | accepted hs => exact h.begin hs _ rfl rfl
  | acceptedProgram p _ hs => exact h.begin hs p rfl rfl
  | updated hu => exact h.update hu
  | @stopped s _ _ hs => exact h.ends hs rfl (by simp) rfl (.stopped s.notify)
  | setPaused => exact h.silent rfl rfl rfl (Option.map_map ..)

/-- So it does with every run. -/
theorem Chronicle.Fits.run (h : c.Fits d.interpreter) (calls : List (Call η)) :
    ((d.run calls).foldl Chronicle.enter c).Fits (d.after calls).interpreter := by
  induction calls generalizing c d with
  | nil => exact h
  | cons call rest ih => exact ih (h.reply (d.replies_reply call))

/-- The last story tells the status. -/
theorem Recorded.lastTold {i : Interpreter} {stories : List (List Sight)}
    (h : Recorded i stories) : LastTold stories i.status := by
  cases h with
  | blank hs hc => simp [LastTold, Interpreter.status, hs, hc]
  | @active s _ hs =>
    simp only [LastTold, Interpreter.status, hs]
    cases s.paused
    · exact .running s.notify
    · exact .paused s.notify
  | ended hs ht => simpa [LastTold, Interpreter.status, hs] using ht

/-- The earlier stories have ended. -/
theorem Recorded.ended_of_mem_tail {i : Interpreter} {stories : List (List Sight)}
    (h : Recorded i stories) : ∀ story ∈ stories.tail, Ended story := by
  cases h with
  | blank => simp
  | active _ he => exact he
  | ended _ _ he => exact he

/-- A start was refused: the interpreter is what it was, and so are the game and the host, which
has got some diagnostics at most. -/
structure Refused (d : Desk η) (e : InterpreterError) (log : List Diagnostic)
    (r : Reply Answer η) : Prop where
  result : r.result = .started (.error e)
  announced : r.announced = none
  interpreter : r.interpreter = d.interpreter
  world : r.services.world = d.services.world.reportAll log

/-- While there is a session, every start is refused. -/
theorem refused_of_running (h : d.interpreter.isRunning = true) (ds : List Descriptor)
    (p : Program) (notify : Bool) : d.Refused .alreadyRunning [] (d.reply (.start ds)) ∧
      d.Refused .alreadyRunning [] (d.reply (.startProgram p notify)) := by
  obtain ⟨s, hs⟩ := Option.isSome_iff_exists.mp h
  rw [reply, reply, Interpreter.start, Interpreter.startProgram, hs]
  exact ⟨⟨rfl, rfl, rfl, rfl⟩, ⟨rfl, rfl, rfl, rfl⟩⟩

/-- A start with a malformed program is refused. -/
theorem refused_of_malformed (h : d.interpreter.isRunning = false) {ds : List Descriptor}
    {e : ProgramError}
    (he : (d.services.factory.build ds d.interpreter.config.mode).result = .error e) :
    d.Refused (.malformedProgram e)
      (d.services.factory.build ds d.interpreter.config.mode).diagnostics
      (d.reply (.start ds)) := by
  have hs : d.interpreter.session = none := by simpa [Interpreter.isRunning] using h
  rw [reply, Interpreter.start, hs]
  dsimp only
  rw [he]
  exact ⟨rfl, rfl, rfl, rfl⟩

/-- Whatever calls an interpreter gets, and whatever others do in between: nothing is seen of a
session before the first accepted start, and every accepted session but the last has ended, by one
completion, which the same reply announces if its caller wants to hear of it, or by a stop without
any announcement. The last story is that of a session under way, and then the interpreter is
running or paused, or of one that completed or was stopped, and then it is completed or idle; and
idle it is where no start was accepted. A start is refused while there is a session, and one with
a malformed program is refused at any time, and neither touches the interpreter, the game or the
host. -/
theorem stories_told (config : InterpreterConfig) (owner : Owner) (services : Services η)
    (calls : List (Call η)) :
    let first : Desk η := ⟨{ config, owner }, services⟩
    let last := first.after calls
    let seen := chronicle (first.run calls)
    seen.foreword = [] ∧ (∀ story ∈ seen.stories.tail, Ended story) ∧
      LastTold seen.stories last.interpreter.status ∧
      (last.interpreter.isRunning = true → ∀ ds p notify,
        last.Refused .alreadyRunning [] (last.reply (.start ds)) ∧
          last.Refused .alreadyRunning [] (last.reply (.startProgram p notify))) ∧
      (last.interpreter.isRunning = false → ∀ ds e,
        (last.services.factory.build ds last.interpreter.config.mode).result = .error e →
        last.Refused (.malformedProgram e)
          (last.services.factory.build ds last.interpreter.config.mode).diagnostics
          (last.reply (.start ds))) := by
  intro first last seen
  have hblank : Chronicle.Fits {} first.interpreter := ⟨rfl, .blank rfl rfl⟩
  have hfits : seen.Fits last.interpreter := hblank.run calls
  refine ⟨hfits.foreword, hfits.stories.ended_of_mem_tail, hfits.stories.lastTold, ?_, ?_⟩
  · exact fun h ds p notify => refused_of_running h ds p notify
  · exact fun h ds e he => refused_of_malformed h he

/-- A session completes and is heard of, another is stopped, and the third one is paused when one
more start is refused. -/
theorem stories_told_three :
    let first : Desk Stage := ⟨{ config := {}, owner := ⟨7⟩ }, ⟨{}, ⟨{}, {}⟩⟩⟩
    let start : Call Stage := .startProgram ⟨[.ofAction (.wait 3)], {}⟩ false
    let calls := [.start [], .update, start, .update, .stop, start, .setPaused true]
    let last := first.after calls
    let done : Completion := ⟨⟨7⟩, .endOfProgram, 1, 0⟩
    chronicle (first.run calls) = ⟨[], [[⟨some (.started false), none⟩],
        [⟨some (.started false), none⟩, ⟨some .stopped, none⟩],
        [⟨some (.started true), none⟩, ⟨some (.completed done), some done⟩]]⟩ ∧
      last.interpreter.status = .paused ∧
      last.Refused .alreadyRunning [] (last.reply (.start [])) := by
  intro first start calls last done
  obtain ⟨-, -, -, hrunning, -⟩ :=
    stories_told {} ⟨7⟩ (⟨{}, ⟨{}, {}⟩⟩ : Services Stage) calls
  refine ⟨by decide +kernel, by decide +kernel, ?_⟩
  exact (hrunning (by decide +kernel) [] ⟨[], {}⟩ false).1

end

end Desk

end EventScript
