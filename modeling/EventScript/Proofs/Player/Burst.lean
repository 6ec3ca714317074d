import EventScript.Host.Stage
import EventScript.Proofs.Player.Tally

/-!
# Bursts of ends

Scripts may end all in one tick, so that their ends are published at once: a script without
commands ends in its first tick, and every script does under a limit of no ticks. A script that
starts with a disabled command is there after it. A player launches any number of these.
-/

namespace EventScript

namespace Interpreter

/-- Whatever it meets, the interpreter completes its session in a tick, for a reason. -/
def Ends (η : Type) [Host η] (reason : CompletionReason) (i : Interpreter) : Prop :=
  ∀ services : Services η, ∃ completion,
    (i.update services).result = .completed completion ∧ completion.reason = reason

/-- Whatever it meets, the interpreter goes on after a tick. -/
def Lasts (η : Type) [Host η] (i : Interpreter) : Prop :=
  ∀ (services : Services η) completion, (i.update services).result ≠ .completed completion

variable (η : Type) [Host η] {config : InterpreterConfig}

/-- A limit of no ticks faults every session. -/
theorem ends_of_limit (h : config.maxTicks = some 0) (owner : Owner) (program : Program) :
    Ends η .faulted (begin { config, owner } program true) := by
  intro services
  unfold update begin overLimit
  dsimp only
  rw [h]
  exact ⟨_, rfl, rfl⟩

/-- A program without commands is at its end. -/
theorem ends_of_blank (h : config.maxTicks = none) (owner : Owner) (labels : Labels) :
    Ends η .endOfProgram (begin { config, owner } ⟨[], labels⟩ true) := by
  intro services
  unfold update begin overLimit
  dsimp only
  rw [h]
  exact ⟨_, rfl, rfl⟩

/-- A disabled command is stepped over. -/
theorem lasts_of_disabled (h : config.maxTicks = none) (owner : Owner) {program : Program}
    {c : Command} (hc : program.get? 0 = some c) (hdisabled : c.enabled = false) :
    Lasts η (begin { config, owner } program true) := by
  intro services completion
  unfold update begin overLimit
  dsimp only
  rw [h]
  unfold Session.step Session.start
  dsimp only
  rw [hc]
  simp [hdisabled]

end Interpreter

namespace Scheduler

variable {η : Type} [Host η] {s s' : Scheduler η} {reason : CompletionReason}

/-- Sessions that end leave together. -/
theorem Advances.all_end {l left : List (SessionId × Interpreter)} {ts : List (Turn η)}
    {done : List SessionCompleted} (h : Advances s l ts done left s')
    (hends : ∀ e ∈ l, e.2.Ends η reason) :
    left = [] ∧ ∀ d ∈ done, d.completion.reason = reason := by
  induction h with
  | nil => exact ⟨rfl, fun d hd => by cases hd⟩
  | goesOn id hs hr _ _ =>
    obtain ⟨completion, hc, -⟩ := hends _ List.mem_cons_self _
    exact absurd hc (hr completion)
  | completes id hs hr _ ih =>
    obtain ⟨hleft, hdone⟩ := ih fun e he => hends e (List.mem_cons_of_mem _ he)
    refine ⟨hleft, ?_⟩
    intro d hd
    rcases List.mem_cons.mp hd with rfl | hd
    · obtain ⟨completion, hc, hreason⟩ := hends _ List.mem_cons_self _
      obtain rfl := TickReport.completed.inj (hr.symm.trans hc)
      exact hreason
    · exact hdone d hd

/-- A tick in which every session ends. -/
theorem tick_all_end (hends : ∀ e ∈ s.sessions, e.2.Ends η reason) :
    s.tick.2.active = 0 ∧ ∀ d ∈ s.tick.1, d.completion.reason = reason := by
  obtain ⟨hleft, hdone⟩ :=
    (advances_advance { s with ticks := s.ticks + 1 } s.sessions).all_end hends
  exact ⟨List.length_eq_zero_iff.mpr hleft, hdone⟩

/-- So do all sessions but the first, where that goes on. -/
theorem Advances.one_lasts {id : SessionId} {i : Interpreter}
    {rest left : List (SessionId × Interpreter)} {ts : List (Turn η)}
    {done : List SessionCompleted} (h : Advances s ((id, i) :: rest) ts done left s')
    (hlasts : i.Lasts η) (hends : ∀ e ∈ rest, e.2.Ends η reason) : left.length = 1 := by
  cases h with
  | goesOn _ _ _ hrest => rw [(hrest.all_end hends).1]; rfl
  | completes _ _ hr _ => exact absurd hr (hlasts _ _)

/-- A tick in which every session but the first ends. -/
theorem tick_one_lasts {id : SessionId} {i : Interpreter}
    {rest : List (SessionId × Interpreter)} (hs : s.sessions = (id, i) :: rest)
    (hlasts : i.Lasts η) (hends : ∀ e ∈ rest, e.2.Ends η reason) : s.tick.2.active = 1 := by
  have hadvance := advances_advance { s with ticks := s.ticks + 1 } s.sessions
  rw [hs] at hadvance
  have hlength := hadvance.one_lasts hlasts hends
  rwa [← hs] at hlength

end Scheduler

namespace Player

variable {η : Type} [Host η]

/-- A script starts where the number of sessions has no limit and its program is accepted. -/
theorem launch_ok {p : Player η} {text : String} {script : Script} {ds : List Descriptor}
    {program : Program} (hroom : p.scheduler.config.maxSessions = none)
    (htext : Script.ofText? text = some script)
    (hds : script.toDescriptors p.scheduler.services.factory.registry = (.ok ds, []))
    (hmade : (p.scheduler.made ds).result = .ok program) (fallback : Owner) (path : String) :
    ∃ p' id, p.launch fallback path (some text) = .ok p' ∧
      p'.scheduler.config = p.scheduler.config ∧ p'.scheduler.sessions =
        p.scheduler.sessions ++ [(id, p.scheduler.opened (script.ownerOr fallback) program)] := by
  have hfull : p.scheduler.fullAt = none := by rw [Scheduler.fullAt, hroom]; rfl
  have hspawned : (p.scheduler.spawn (script.ownerOr fallback) ds).1 = .ok ⟨p.scheduler.nextId⟩ ∧
      (p.scheduler.spawn (script.ownerOr fallback) ds).2.config = p.scheduler.config ∧
      (p.scheduler.spawn (script.ownerOr fallback) ds).2.sessions = p.scheduler.sessions ++
        [(⟨p.scheduler.nextId⟩, p.scheduler.opened (script.ownerOr fallback) program)] := by
    rcases p.scheduler.spawn_cases (script.ownerOr fallback) ds with
      ⟨limit, hs⟩ | ⟨e, he, -⟩ | ⟨program', -, hp, hs⟩
    · unfold Scheduler.spawn at hs
      rw [hfull] at hs
      dsimp only at hs
      split at hs <;> cases hs
    · rw [hmade] at he
      cases he
    · obtain rfl := Except.ok.inj (hmade.symm.trans hp)
      rw [hs]
      exact ⟨rfl, rfl, rfl⟩
  obtain ⟨hid, hconfig, hsessions⟩ := hspawned
  unfold launch
  dsimp only
  rw [htext]
  dsimp only
  rw [hds]
  dsimp only
  change ∃ p' id, p.enroll path (script.ownerOr fallback) ds = .ok p' ∧ _
  unfold enroll
  generalize p.scheduler.spawn (script.ownerOr fallback) ds = spawned at hid hconfig hsessions ⊢
  obtain ⟨result, s⟩ := spawned
  obtain rfl : result = .ok _ := hid
  exact ⟨_, _, rfl, hconfig, hsessions⟩

/-- The text of a script without commands. -/
def blank : String := "\x7b\"commands\": []\x7d"

/-- The blank script has no entries. -/
theorem ofText?_blank : Script.ofText? blank = some { entries := [] } := by
  unfold Script.ofText? Document.parse? blank
  dsimp only [String.reduceToList]
  rfl

/-- The text of a script of one command, which is disabled. -/
def skipping : String :=
  "\x7b\"commands\": [\x7b\"type\": \"comment\", \"enabled\": false\x7d]\x7d"

/-- The skipping script has one entry, a disabled comment. -/
theorem ofText?_skipping : Script.ofText? skipping =
    some { entries := [{ typeTag := "comment", enabled := false }] } := by
  unfold Script.ofText? Document.parse? skipping
  dsimp only [String.reduceToList]
  rfl

/-- Scripts: the first is there after a tick, and any other is blank. -/
def scripts (path : String) : Option String := some (if path = "first" then skipping else blank)

/-- The first file holds the skipping script. -/
theorem scripts_first : scripts "first" = some skipping := by rw [scripts, if_pos rfl]

/-- Every other file holds the blank one. -/
theorem scripts_other : scripts "other" = some blank := by rw [scripts, if_neg (by decide)]

/-- The first script is launched before the others. -/
theorem launchAll_cons {p p₁ : Player η} {read : String → Option String} {number : Nat}
    {path text : String} (hread : read path = some text)
    (hlaunch : p.launch ⟨UInt32.ofNat (min number 0xFFFF_FFFF)⟩ path (some text) = .ok p₁)
    (rest : List String) :
    p.launchAll read number (path :: rest) = p₁.launchAll read (number + 1) rest := by
  rw [launchAll, hread, hlaunch]

/-- A blank script starts as a session that is at its end. -/
theorem launch_blank {p : Player η} (hroom : p.scheduler.config.maxSessions = none)
    (fallback : Owner) (path : String) :
    ∃ p' e, p.launch fallback path (some blank) = .ok p' ∧
      p'.scheduler.config = p.scheduler.config ∧
      p'.scheduler.sessions = p.scheduler.sessions ++ [e] ∧ e.2 =
        Interpreter.begin { config := p.scheduler.config.interpreter, owner := fallback }
          ⟨[], .empty⟩ true := by
  have hmade : (p.scheduler.made []).result = .ok ⟨[], .empty⟩ := rfl
  obtain ⟨p', id, hlaunch, hconfig, hsessions⟩ :=
    launch_ok hroom ofText?_blank rfl hmade fallback path
  exact ⟨p', _, hlaunch, hconfig, hsessions, rfl⟩

/-- Any number of blank scripts start. -/
theorem launchAll_blank {p : Player η} (hroom : p.scheduler.config.maxSessions = none)
    (number n : Nat) :
    ∃ p' rest, p.launchAll scripts number (List.replicate n "other") = .ok p' ∧
      p'.scheduler.sessions = p.scheduler.sessions ++ rest ∧
      ∀ e ∈ rest, ∃ owner, e.2 =
        Interpreter.begin { config := p.scheduler.config.interpreter, owner }
          ⟨[], .empty⟩ true := by
  induction n generalizing p number with
  | zero => exact ⟨p, [], rfl, (List.append_nil _).symm, fun e he => by cases he⟩
  | succ n ih =>
    let fallback : Owner := ⟨UInt32.ofNat (min number 0xFFFF_FFFF)⟩
    obtain ⟨p₁, first, hlaunch, hconfig, hsessions, hfirst⟩ :=
      launch_blank hroom fallback "other"
    obtain ⟨p', rest, hrest, hsessions', hblank⟩ := ih (hconfig ▸ hroom) (number + 1)
    rw [hconfig] at hblank
    refine ⟨p', first :: rest, ?_, ?_, ?_⟩
    · rw [List.replicate_succ, launchAll_cons scripts_other hlaunch, hrest]
    · rw [hsessions', hsessions, List.append_assoc]
      rfl
    · intro e he
      rcases List.mem_cons.mp he with rfl | he
      · exact ⟨fallback, hfirst⟩
      · exact hblank e he

/-- A first script that is there after a tick starts. -/
theorem launch_skipping (capacity : Nat) (world : World η) (fallback : Owner) (path : String) :
    ∃ p' id i, (new { eventBufferSize := capacity } world).launch fallback path
        (some skipping) = .ok p' ∧
      p'.scheduler.config = { eventBufferSize := capacity } ∧
      p'.scheduler.sessions = [(id, i)] ∧ i.Lasts η := by
  obtain ⟨p', id, hlaunch, hconfig, hsessions⟩ :=
    launch_ok (p := new { eventBufferSize := capacity } world) rfl ofText?_skipping rfl rfl
      fallback path
  exact ⟨p', id, _, hlaunch, hconfig, hsessions, Interpreter.lasts_of_disabled η rfl _ rfl rfl⟩

/-- A burst with one session that is there after it. -/
theorem launchAll_burst (capacity : Nat) (world : World η) (n : Nat) :
    ∃ p id i rest, (new { eventBufferSize := capacity } world).launchAll scripts 1
        ("first" :: List.replicate n "other") = .ok p ∧
      p.scheduler.sessions = (id, i) :: rest ∧ i.Lasts η ∧
      ∀ e ∈ rest, e.2.Ends η .endOfProgram := by
  obtain ⟨p₁, id, i, hlaunch, hconfig, hsessions, hlasts⟩ :=
    launch_skipping capacity world ⟨UInt32.ofNat (min 1 0xFFFF_FFFF)⟩ "first"
  have hroom : p₁.scheduler.config.maxSessions = none := by rw [hconfig]
  obtain ⟨p, rest, hrest, hsessions', hblank⟩ := launchAll_blank hroom (1 + 1) n
  rw [hsessions] at hsessions'
  refine ⟨p, id, i, rest, ?_, hsessions', hlasts, ?_⟩
  · rw [launchAll_cons scripts_first hlaunch, hrest]
  · intro e he
    obtain ⟨owner, hfresh⟩ := hblank e he
    rw [hfresh, hconfig]
    exact Interpreter.ends_of_blank η rfl owner _

end Player

end EventScript
