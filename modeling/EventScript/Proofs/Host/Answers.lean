import EventScript.Proofs.Host.Calls
import Mathlib.Algebra.Ring.Nat
import Mathlib.Data.List.Induction
import Mathlib.Data.List.Nodup

/-!
# Answers of a recording host

Prompts of several sessions compete for one queue of answers. `Recording.Consistent` compares the
counter, the pending prompts and the queue of the host with the calls that led to it, and every
call keeps it. So no handle is handed out twice, every queued answer is given to one prompt or
still in the queue, in order, and it is given to a prompt that was waiting for it.
-/

namespace EventScript

namespace Recording

/-- What the calls tell about the host that they lead to. -/
structure Consistent (es : List Entry) (r : Recording) : Prop where
  issued : issued es = List.range' 1 r.lastHandle
  pending : ∀ handle, handle ∈ r.pendingChoices ↔ Outstanding es handle
  settled : ∀ x ∈ answered es, x.1 ≤ r.lastHandle ∧ x.1 ∉ r.pendingChoices
  answers : (answered es).map Prod.snd ++ r.answers = queued es

namespace Consistent

variable {es : List Entry} {e : Entry}

/-- Before the first call. -/
theorem new (autoClose : Bool) : Consistent [] { autoClose } where
  issued := rfl
  pending _ := by simp [Outstanding]
  settled _ h := by cases h
  answers := rfl

/-- A prompt that waits has been handed out. -/
theorem le_lastHandle {r : Recording} (h : Consistent es r) {handle : Handle}
    (hp : handle ∈ r.pendingChoices) : handle ≤ r.lastHandle := by
  have hissued := ((h.pending handle).mp hp).mem_issued
  rw [h.issued, List.mem_range'_1] at hissued
  exact Nat.lt_one_add_iff.mp hissued.2

private theorem issued_step (h : Consistent es e.host) :
    Recording.issued (es ++ [e]) = List.range' 1 e.left.lastHandle := by
  rw [issued_concat, h.issued]
  rcases e.lastHandle_left with ⟨hopened, hleft⟩ | ⟨holding, hopened, hhandle, hleft⟩
  · rw [hopened, hleft]
    exact List.append_nil _
  · rw [hopened, hleft, List.range'_1_concat, Option.map_some, hhandle, Nat.add_comm 1]
    rfl

private theorem settled_step (h : Consistent es e.host) :
    ∀ x ∈ answered (es ++ [e]),
      x.1 ≤ e.left.lastHandle ∧ x.1 ∉ e.left.pendingChoices := by
  intro x hx
  rw [answered_concat] at hx
  rw [e.mem_pendingChoices_left]
  -- A prompt that got an answer never waits again: the counter is past its handle.
  rcases List.mem_append.mp hx with hx | hx
  · obtain ⟨hle, hgone⟩ := h.settled x hx
    refine ⟨Nat.le_trans hle e.lastHandle_le_left, ?_⟩
    rintro (hopened | ⟨hpending, -⟩)
    · exact Nat.not_lt.mpr hle (Entry.lastHandle_lt_of_opened hopened)
    · exact hgone hpending
  · obtain ⟨hpending, hended⟩ := Entry.pending_of_answered (Option.mem_toList.mp hx)
    have hle := h.le_lastHandle hpending
    refine ⟨Nat.le_trans hle e.lastHandle_le_left, ?_⟩
    rintro (hopened | ⟨-, hne⟩)
    · exact Nat.not_lt.mpr hle (Entry.lastHandle_lt_of_opened hopened)
    · exact hne hended

/-- Every call keeps it. -/
theorem step (h : Consistent es e.host) : Consistent (es ++ [e]) e.left where
  issued := h.issued_step
  pending handle := by rw [e.mem_pendingChoices_left, outstanding_concat, h.pending]
  settled := h.settled_step
  answers := by
    rw [answered_concat, queued_concat, List.map_append, List.append_assoc, ← h.answers,
      List.append_assoc, ← e.answers_left]
    cases e.answered? <;> rfl

/-- All the calls of a new host keep it. -/
theorem of_run (autoClose : Bool) (calls : List Call) :
    Consistent (Recording.run { autoClose } calls) (Recording.after { autoClose } calls) := by
  induction calls using List.reverseRecOn with
  | nil => exact .new autoClose
  | append_singleton calls c ih =>
    rw [run_concat, after_concat]
    exact ih.step

/-- Fewer handles than there are numbers of 64 bits are told apart by 64 bits. -/
theorem issued_nodup {r : Recording} (h : Consistent es r)
    (hfew : (Recording.issued es).length < 2 ^ 64) :
    ((Recording.issued es).map UInt64.ofNat).Nodup := by
  rw [h.issued, List.length_range'] at hfew
  rw [h.issued]
  refine List.Nodup.map_on ?_ List.nodup_range'
  have hfits : ∀ x ∈ List.range' 1 r.lastHandle, x < UInt64.size := fun x hx =>
    Nat.lt_of_le_of_lt (Nat.lt_one_add_iff.mp (List.mem_range'_1.mp hx).2) hfew
  intro x hx y hy hxy
  have hval := congrArg UInt64.toNat hxy
  rwa [UInt64.toNat_ofNat_of_lt' (hfits x hx), UInt64.toNat_ofNat_of_lt' (hfits y hy)] at hval

end Consistent

/-- Whatever is asked of a new host, in any order and with any handles: as long as fewer than 2^64
handles are issued, no two messages or prompts share one, even in 64 bits. The answers given, in
order, and the answers still queued are those that were queued. Each is given to a prompt that was
opened before and got no answer before, and that was not withdrawn since it was opened. A prompt
that gets none is not outstanding, or no answer is queued, and then nothing changes. -/
theorem answers_conserved {autoClose : Bool} {calls : List Call}
    (hfew : (issued (Recording.run { autoClose } calls)).length < 2 ^ 64) :
    let r : Recording := { autoClose }
    let es := r.run calls
    ((issued es).map UInt64.ofNat).Nodup ∧
    (answered es).map Prod.snd ++ (r.after calls).answers = queued es ∧
    ∀ front e rest, es = front ++ e :: rest →
      (∀ handle answer, e.answered? = some (handle, answer) →
        Outstanding front handle ∧ handle ∉ (answered front).map Prod.fst) ∧
      (e.response = .answer none →
        e.left = e.host ∧ ∃ handle, e.request = .choiceAnswer handle ∧
          (¬ Outstanding front handle ∨ e.host.answers = [])) := by
  intro r es
  have hconsistent := Consistent.of_run autoClose calls
  refine ⟨hconsistent.issued_nodup hfew, hconsistent.answers, ?_⟩
  intro front e rest hsplit
  obtain ⟨earlier, rfl, hhost⟩ := run_before hsplit
  have hfound : Consistent (r.run earlier) e.host := hhost ▸ .of_run autoClose earlier
  constructor
  · intro handle answer hanswered
    obtain ⟨hpending, -⟩ := Entry.pending_of_answered hanswered
    refine ⟨(hfound.pending handle).mp hpending, ?_⟩
    intro hbefore
    obtain ⟨x, hx, rfl⟩ := List.mem_map.mp hbefore
    exact (hfound.settled x hx).2 hpending
  · intro hnone
    obtain ⟨hleft, handle, hrequest, hwhy⟩ := Entry.left_of_unanswered hnone
    exact ⟨hleft, handle, hrequest, hwhy.imp_left fun hgone hout =>
      hgone ((hfound.pending handle).mpr hout)⟩

/-- Two prompts compete. The second one asks first and gets the answer. The first one gets none,
which changes nothing, and is withdrawn, so the next answer stays in the queue. -/
theorem answers_conserved_compete :
    let ask : Call := .showChoices ⟨.global, ["Yes", "No"], false⟩
    let calls : List Call := [ask, .showMessage ⟨.global, none, "Well?"⟩, ask,
      .queueChoice (.selected 1), .choiceAnswer 3, .choiceAnswer 1, .cancelChoices 1,
      .queueChoice .cancelled, .choiceAnswer 1]
    let es := Recording.run {} calls
    let polled : Entry := ⟨Recording.after {} (calls.take 5), .choiceAnswer 1⟩
    (issued es).length < 2 ^ 64 ∧ ((issued es).map UInt64.ofNat).Nodup ∧
      issued es = [1, 2, 3] ∧ answered es = [(3, .selected 1)] ∧
      (Recording.after {} calls).answers = [.cancelled] ∧
      Outstanding (es.take 4) 3 ∧ polled.left = polled.host := by
  intro ask calls es polled
  have hfew : (issued es).length < 2 ^ 64 := by decide
  obtain ⟨hnodup, hconserved, hentries⟩ := @answers_conserved false calls hfew
  have hconserved : .selected 1 :: (Recording.after {} calls).answers = [.selected 1, .cancelled] :=
    hconserved
  obtain ⟨hgiven, -⟩ := hentries (es.take 4) ⟨Recording.after {} (calls.take 4), .choiceAnswer 3⟩
    (es.drop 5) rfl
  obtain ⟨-, hnone⟩ := hentries (es.take 5) polled (es.drop 6) rfl
  refine ⟨hfew, hnodup, rfl, rfl, ?_, (hgiven 3 (.selected 1) rfl).1, (hnone rfl).1⟩
  exact (List.cons.inj hconserved).2

/-- To withdraw a handle before the host hands it out is of no use: the prompt that gets it later
is answered although its handle was withdrawn before. -/
theorem answered_after_early_cancel :
    let calls : List Call := [.cancelChoices 1, .queueChoice (.selected 0),
      .showChoices ⟨.global, ["Yes"], false⟩, .choiceAnswer 1]
    let es := Recording.run {} calls
    (issued es).length < 2 ^ 64 ∧
      ¬ ∀ front e rest, es = front ++ e :: rest → ∀ handle answer,
        e.answered? = some (handle, answer) →
          .prompt handle ∈ opened front ∧ handle ∉ (answered front).map Prod.fst ∧
            handle ∉ cancelled front := by
  intro calls es
  refine ⟨by decide, fun hclaim => ?_⟩
  obtain ⟨-, -, hnever⟩ := hclaim (es.take 3) ⟨Recording.after {} (calls.take 3), .choiceAnswer 1⟩
    [] rfl 1 (.selected 0) rfl
  have hcancelled : cancelled (es.take 3) = [1] := rfl
  rw [hcancelled] at hnever
  exact hnever List.mem_cons_self

end Recording

end EventScript
