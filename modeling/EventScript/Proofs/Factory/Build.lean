import EventScript.Proofs.Factory.Commands
import EventScript.Proofs.Program.Thinning
import Mathlib.Data.List.Forall2

/-!
# What is built in which mode

A mode filters descriptors before commands are made of them, and unknown tags give none. So the
commands of a mode are those of the unfiltered list whose kinds the mode admits, and what the
modes make of one list can be compared: the commands that belong on timelines only are all of a
kind that the check of a program merely counts.
-/

namespace EventScript

namespace Registry

/-- A command is the one that a descriptor stands for: an idle one of the registered kind, with
the parameters of the blob, or with defaults where the kind has no such blob. -/
inductive StandsFor (r : Registry) (d : Descriptor) : Command → Prop
  | decoded {k : Kind} {a : Action} (hk : r.lookup d.tag = some k) (hkind : a.kind = k)
    (ha : Action.decode k d.parameters = .ok a) :
    StandsFor r d { name := k.displayName, enabled := d.enabled, phase := .idle, action := a,
                    memory := .clear }
  | fallback {k : Kind} {defect : BlobDefect} (hk : r.lookup d.tag = some k)
    (hd : Action.decode k d.parameters = .error defect) :
    StandsFor r d { name := k.displayName, enabled := d.enabled, phase := .idle,
                    action := .default k, memory := .clear }

/-- The commands that the descriptors admitted by a mode stand for, in order. -/
def commands (r : Registry) (mode : Mode) (ds : List Descriptor) : List Command :=
  (r.admitted mode ds).filterMap r.command?

variable {r : Registry} {d : Descriptor} {c : Command}

/-- A command made of a descriptor stands for it. -/
theorem standsFor_of_command? (h : r.command? d = some c) : r.StandsFor d c := by
  obtain ⟨k, hk, rfl⟩ := Option.map_eq_some_iff.mp h
  cases hd : Action.decode k d.parameters with
  | ok a => exact .decoded hk (Action.decode_eq_ok.mp hd).1 hd
  | error defect => exact .fallback hk hd

/-- It is of the kind that the tag is registered for. -/
theorem lookup_of_standsFor (h : r.StandsFor d c) : r.lookup d.tag = some c.kind := by
  cases h with
  | decoded hk hkind _ => rw [hk, ← hkind]; rfl
  | fallback hk _ => rw [hk]; exact congrArg some (Action.kind_default _).symm

/-- A descriptor stands for a command just where its tag is registered. -/
theorem isSome_command? (r : Registry) (d : Descriptor) :
    (r.command? d).isSome = (r.lookup d.tag).isSome := Option.isSome_map

/-- The commands of a mode are one for each descriptor that the mode admits and whose tag is
registered. -/
theorem commands_standFor (r : Registry) (mode : Mode) (ds : List Descriptor) :
    List.Forall₂ r.StandsFor
      (ds.filter fun d => mode.admits (r.isCutsceneOnly d.tag) && (r.lookup d.tag).isSome)
      (r.commands mode ds) := by
  induction ds with
  | nil => exact .nil
  | cons d rest ih =>
    rw [commands, admitted] at ih ⊢
    simp only [List.filter_cons, ← r.isSome_command?] at ih ⊢
    cases mode.admits (r.isCutsceneOnly d.tag) with
    | false => exact ih
    | true =>
      simp only [Bool.true_and, if_true, List.filterMap_cons]
      cases hc : r.command? d with
      | none => exact ih
      | some c => exact .cons (standsFor_of_command? hc) ih

/-- The commands of a mode are those of the whole list whose kinds it admits. -/
theorem commands_eq_filter (r : Registry) (mode : Mode) (ds : List Descriptor) :
    r.commands mode ds =
      (r.commands .auto ds).filter fun c => mode.admits c.kind.isCutsceneOnly := by
  rw [commands, commands, admitted_auto]
  induction ds with
  | nil => rfl
  | cons d rest ih =>
    rw [admitted] at ih ⊢
    simp only [List.filter_cons, List.filterMap_cons]
    cases hc : r.command? d with
    | none =>
      split
      · rw [List.filterMap_cons_none hc, ih]
      · exact ih
    | some c =>
      have hk := lookup_of_standsFor (standsFor_of_command? hc)
      rw [isCutsceneOnly, hk, List.filter_cons]
      dsimp only
      split
      · rw [List.filterMap_cons_some hc, ih]
      · exact ih

end Registry

namespace Program

/-- The commands of a rejected list are rejected for the reason that their actions are. -/
theorem ofCommands_eq_error {commands : List Command} {e : ProgramError} :
    ofCommands commands = .error e ↔ validate (commands.map Command.action) = .error e := by
  unfold ofCommands
  cases validate (commands.map Command.action) <;> simp [Except.map]

/-- A program has the commands of an accepted list, with the labels found for it. -/
theorem ofCommands_eq_ok {commands : List Command} {p : Program} :
    ofCommands commands = .ok p ↔
      p.commands = commands ∧ validate (commands.map Command.action) = .ok p.labels := by
  obtain ⟨commands', labels⟩ := p
  unfold ofCommands
  cases validate (commands.map Command.action) <;> simp [Except.map, eq_comm]

/-- There is a program of every accepted list. -/
theorem exists_ofCommands_iff {commands : List Command} :
    (∃ p, ofCommands commands = .ok p) ↔
      ∃ labels, validate (commands.map Command.action) = .ok labels := by
  unfold ofCommands
  cases validate (commands.map Command.action) <;> simp [Except.map]

/-- What belongs on timelines only is merely counted. -/
theorem plain_of_isCutsceneOnly {a : Action} (h : a.kind.isCutsceneOnly = true) : a.Plain := by
  cases a with
  | fadeScreen | shakeScreen => exact fun _ => rfl
  | _ => cases h

/-- Leaving the commands out that belong on timelines only changes no verdict but for the
positions. -/
theorem validate_without_cutscene (commands : List Command) :
    let f := fun i => i - (commands.take i).countP fun c => c.kind.isCutsceneOnly
    Moved f (Outline.LabelsMoved f) (validate (commands.map Command.action))
      (validate ((commands.filter fun c => !c.kind.isCutsceneOnly).map Command.action)) := by
  intro f
  have hf : thinned (fun a => a.kind.isCutsceneOnly) (commands.map Command.action) = f := by
    funext i
    rw [thinned, ← List.map_take, List.countP_map]
    rfl
  have hmoved := validate_filter (fun a => a.kind.isCutsceneOnly)
    (fun _ => plain_of_isCutsceneOnly) (commands.map Command.action)
  rw [hf, List.filter_map] at hmoved
  exact hmoved

end Program

namespace Factory

open Program

/-- A factory builds what its descriptors stand for, whatever is in its pool. One idle command
for each descriptor that the mode admits and whose tag is registered goes to the check, in
order, and the build fails just where the check does, with its error. On a timeline it never
fails. Without the commands that belong on timelines only it fails just where it fails with
them, and for the same reason; the positions differ by the commands left out before them. -/
theorem build_as_specified (r : Registry) (ds : List Descriptor) (pool pool' : Pool) :
    (∀ mode : Mode,
      List.Forall₂ r.StandsFor
        (ds.filter fun d => mode.admits (r.isCutsceneOnly d.tag) && (r.lookup d.tag).isSome)
        (r.commands mode ds) ∧
      (createAll ⟨r, pool⟩ (r.admitted mode ds)).result = r.commands mode ds ∧
      (∀ e, (build ⟨r, pool⟩ ds mode).result = .error e ↔
        validate ((r.commands mode ds).map Command.action) = .error e) ∧
      ∀ p, (build ⟨r, pool⟩ ds mode).result = .ok p ↔
        p.commands = r.commands mode ds ∧
          validate ((r.commands mode ds).map Command.action) = .ok p.labels) ∧
    (∃ p, (build ⟨r, pool⟩ ds .timeline).result = .ok p) ∧
    ((∃ p, (build ⟨r, pool⟩ ds .command).result = .ok p) ↔
      ∃ p, (build ⟨r, pool'⟩ ds .auto).result = .ok p) ∧
    ∀ e', (build ⟨r, pool⟩ ds .command).result = .error e' ↔
      ∃ e, (build ⟨r, pool'⟩ ds .auto).result = .error e ∧
        e' = e.relocate fun i =>
          i - ((r.commands .auto ds).take i).countP fun c => c.kind.isCutsceneOnly := by
  have hbuild (pool : Pool) (mode : Mode) :
      (build ⟨r, pool⟩ ds mode).result = ofCommands (r.commands mode ds) :=
    build_result ⟨r, pool⟩ ds mode
  -- The commands of a map event are those of the whole list that are not for timelines only.
  have hmoved := validate_without_cutscene (r.commands .auto ds)
  have hcommand := r.commands_eq_filter .command ds
  refine ⟨?_, ?_, ?_, ?_⟩
  · intro mode
    refine ⟨r.commands_standFor mode ds, createAll_result ⟨r, pool⟩ _, ?_, ?_⟩
    · intro e
      rw [hbuild, ofCommands_eq_error]
    · intro p
      rw [hbuild, ofCommands_eq_ok]
  · rw [hbuild, exists_ofCommands_iff, (validate_without_cutscene _).ok_iff,
      r.commands_eq_filter .timeline ds, List.filter_filter]
    simp only [Mode.admits, Bool.not_and_self, List.filter_false, List.map_nil]
    exact ⟨_, rfl⟩
  · rw [hbuild, hbuild, exists_ofCommands_iff, exists_ofCommands_iff, hcommand]
    exact hmoved.ok_iff.symm
  · intro e'
    simp only [hbuild, ofCommands_eq_error, hcommand]
    exact hmoved.error_iff e'

-- The fade is a command of the whole list and none of a map event.
example :
    let ds : List Descriptor := [{ tag := "fade_screen" }, { tag := "end_if" }]
    (build {} ds .auto).result = .error (.unmatchedMarker 1 .endIf) ∧
      (build {} ds .command).result = .error (.unmatchedMarker 0 .endIf) := ⟨rfl, rfl⟩

end Factory

end EventScript
