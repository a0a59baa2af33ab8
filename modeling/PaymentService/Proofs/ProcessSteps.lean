import PaymentService.ProcessPayment
import PaymentService.Proofs.Rows

/-!
# What a step of a call does

Every step of `processMachine` is one of the cases of `ProcessTrans`, so what the steps keep is
proved once for each case. Rows only get later versions (`Later`): a final row stays as it is, and
a pending one keeps everything but its status and `processed_at`.
-/

namespace PaymentService

open Python Labelled

namespace ProcessPc

/-- Where a call that raised or was killed stood. -/
def stoppedAt : ProcessPc → Option ProcessPc
  | raised at_ _ | killed at_ => some at_
  | _ => none

end ProcessPc

namespace ProcessState

variable (s : ProcessState) (k : ℕ)

@[simp] theorem setCall_payments (c : ProcessCall) : (s.setCall k c).payments = s.payments := rfl
@[simp] theorem setCall_writes (c : ProcessCall) : (s.setCall k c).writes = s.writes := rfl
@[simp] theorem setCall_charges (c : ProcessCall) : (s.setCall k c).charges = s.charges := rfl
@[simp] theorem setCall_answers (c : ProcessCall) : (s.setCall k c).answers = s.answers := rfl
@[simp] theorem setCall_sent (c : ProcessCall) : (s.setCall k c).sent = s.sent := rfl
@[simp] theorem setCall_accepted (c : ProcessCall) : (s.setCall k c).accepted = s.accepted := rfl
@[simp] theorem setCall_calls (c : ProcessCall) :
    (s.setCall k c).calls = Function.update s.calls k (some c) := rfl

@[simp] theorem endSession_payments : (s.endSession k).payments = s.payments := rfl
@[simp] theorem endSession_writes :
    (s.endSession k).writes = s.writes.filter (·.call ≠ k) := rfl
@[simp] theorem endSession_charges : (s.endSession k).charges = s.charges := rfl
@[simp] theorem endSession_answers : (s.endSession k).answers = s.answers := rfl
@[simp] theorem endSession_sent : (s.endSession k).sent = s.sent := rfl
@[simp] theorem endSession_accepted : (s.endSession k).accepted = s.accepted := rfl
@[simp] theorem endSession_calls : (s.endSession k).calls = s.calls := rfl

@[simp] theorem write_payments (row) : (s.write k row).payments = s.payments := by
  unfold write; split <;> rfl
@[simp] theorem write_charges (row) : (s.write k row).charges = s.charges := by
  unfold write; split <;> rfl
@[simp] theorem write_answers (row) : (s.write k row).answers = s.answers := by
  unfold write; split <;> rfl
@[simp] theorem write_sent (row) : (s.write k row).sent = s.sent := by
  unfold write; split <;> rfl
@[simp] theorem write_accepted (row) : (s.write k row).accepted = s.accepted := by
  unfold write; split <;> rfl
@[simp] theorem write_calls (row) : (s.write k row).calls = s.calls := by
  unfold write; split <;> rfl

end ProcessState

/-- The steps of `processMachine`, one case for each thing that can happen. -/
inductive ProcessTrans (s : ProcessState) : ProcessLabel → ProcessState → Prop
  | begin {k : ℕ} {id : UUID} (h : s.calls k = none) :
    ProcessTrans s (.call k (.begin id)) (s.setCall k ⟨id, .get⟩)
  | get {k : ℕ} {id : UUID} (h : s.calls k = some ⟨id, .get⟩) :
    ProcessTrans s (.call k .next)
      (s.setCall k ⟨id, afterGet id (PaymentRepository.get s.payments id)⟩)
  | charge {k : ℕ} {id : UUID} {p : Payment} (h : s.calls k = some ⟨id, .charge p⟩) :
    ProcessTrans s (.call k .next)
      ({ s with charges := s.charges ++ [Charge.mk k p.id] }.setCall k ⟨id, .charging p⟩)
  | answer {k : ℕ} {id : UUID} {p : Payment} {b : Bool} {now : ℤ}
    (h : s.calls k = some ⟨id, .charging p⟩) :
    ProcessTrans s (.call k (.answer b now))
      ({ s with answers := s.answers ++ [Answer.mk k p.id b now] }.setCall k
        ⟨id, afterCharge p b now⟩)
  | update {k : ℕ} {id : UUID} {p : Payment} (h : s.calls k = some ⟨id, .updateStatus p⟩)
    (hfree : s.isLocked p.id = false) :
    ProcessTrans s (.call k .next)
      ((s.write k (PaymentRepository.updateStatus s.payments p)).setCall k
        ⟨id, afterUpdateStatus p (PaymentRepository.updateStatus s.payments p)⟩)
  | commit {k : ℕ} {id : UUID} {p : Payment} {applied : Bool}
    (h : s.calls k = some ⟨id, .commit p applied⟩) :
    ProcessTrans s (.call k .next)
      (({ s with payments := s.committed k }.endSession k).setCall k ⟨id, afterCommit p applied⟩)
  | getAgain {k : ℕ} {id : UUID} {p : Payment} (h : s.calls k = some ⟨id, .getAgain p⟩) :
    ProcessTrans s (.call k .next)
      (s.setCall k ⟨id, afterGetAgain p (PaymentRepository.get s.payments p.id)⟩)
  | send {k : ℕ} {id : UUID} {p : Payment} (h : s.calls k = some ⟨id, .send p⟩) :
    ProcessTrans s (.call k .next)
      ({ s with sent := s.sent ++ [notificationOf p] }.setCall k ⟨id, .sending p⟩)
  | accept {k : ℕ} {id : UUID} {p : Payment} (h : s.calls k = some ⟨id, .sending p⟩) :
    ProcessTrans s (.call k .next)
      ({ s with accepted := s.accepted ++ [notificationOf p] }.setCall k ⟨id, .returned⟩)
  | stop {k : ℕ} {id : UUID} {pc stopped : ProcessPc} {act : ProcessAct}
    (h : s.calls k = some ⟨id, pc⟩) (hrunning : pc.stoppedAt = none)
    (hact : act = .kill ∨ ∃ e, act = .fail e) (hstopped : stopped.stoppedAt = some pc) :
    ProcessTrans s (.call k act) ((s.endSession k).setCall k ⟨id, stopped⟩)
  | insert {row : PaymentRow} (h : ∀ r ∈ s.payments, r.id ≠ row.id) :
    ProcessTrans s (.insert row) { s with payments := s.payments ++ [row] }

section

variable {s s' : ProcessState} {k : ℕ}

theorem processNext_trans {id : UUID} {pc : ProcessPc} (hc : s.calls k = some ⟨id, pc⟩)
    (h : processNext s k ⟨id, pc⟩ = some s') : ProcessTrans s (.call k .next) s' := by
  unfold processNext at h
  cases pc with
  | get => cases h; exact .get hc
  | charge p => cases h; exact .charge hc
  | charging p => cases h
  | updateStatus p =>
    simp only at h
    split_ifs at h with hlocked
    cases h
    exact .update hc (by simpa using hlocked)
  | commit p applied => cases h; exact .commit hc
  | getAgain p => cases h; exact .getAgain hc
  | send p => cases h; exact .send hc
  | sending p => cases h; exact .accept hc
  | returned | raised _ _ | killed _ => cases h

theorem processFail_trans {id : UUID} {pc : ProcessPc} {e : PyError}
    (hc : s.calls k = some ⟨id, pc⟩) (h : processFail s k ⟨id, pc⟩ e = some s') :
    ProcessTrans s (.call k (.fail e)) s' := by
  unfold processFail at h
  cases pc with
  | charge _ | send _ | returned | raised _ _ | killed _ => cases h
  | _ => cases h; exact .stop hc rfl (.inr ⟨e, rfl⟩) rfl

theorem processKill_trans {id : UUID} {pc : ProcessPc} (hc : s.calls k = some ⟨id, pc⟩)
    (h : processKill s k ⟨id, pc⟩ = some s') : ProcessTrans s (.call k .kill) s' := by
  unfold processKill at h
  cases pc with
  | returned | raised _ _ | killed _ => cases h
  | _ => cases h; exact .stop hc rfl (.inl rfl) rfl

theorem processStep_trans {act : ProcessAct} (h : processStep s k act = some s') :
    ProcessTrans s (.call k act) s' := by
  cases act with
  | begin id =>
    simp only [processStep] at h
    split at h
    · rename_i hc
      cases h
      exact .begin hc
    · cases h
  | next =>
    obtain ⟨c, hc, h⟩ := Option.bind_eq_some_iff.1 h
    exact processNext_trans hc h
  | answer b now =>
    obtain ⟨⟨id, pc⟩, hc, h⟩ := Option.bind_eq_some_iff.1 h
    unfold processAnswer at h
    cases pc with
    | charging p => cases h; exact .answer hc
    | _ => cases h
  | fail e =>
    obtain ⟨c, hc, h⟩ := Option.bind_eq_some_iff.1 h
    exact processFail_trans hc h
  | kill =>
    obtain ⟨c, hc, h⟩ := Option.bind_eq_some_iff.1 h
    exact processKill_trans hc h

/-- A step of a call is none of another. -/
theorem processStep_calls {act : ProcessAct} (h : processStep s k act = some s') {j : ℕ}
    (hj : j ≠ k) : s'.calls j = s.calls j := by
  cases processStep_trans h with
  | update hc =>
    rw [ProcessState.setCall_calls, ProcessState.write_calls, Function.update_of_ne hj]
  | _ => exact Function.update_of_ne hj _ _

theorem begin_calls {id : UUID} (h : processStep s k (.begin id) = some s') :
    s'.calls k = some ⟨id, .get⟩ := by
  cases processStep_trans h with
  | begin _ => exact Function.update_self _ _ _
  | stop _ _ hact _ => rcases hact with hact | ⟨_, hact⟩ <;> cases hact

theorem processMachine_trans {a : ProcessLabel} (h : processMachine.step s a = some s') :
    ProcessTrans s a s' := by
  cases a with
  | call k act => exact processStep_trans h
  | insert row =>
    simp only [processMachine] at h
    split_ifs at h with hid
    cases h
    exact .insert (by simpa using hid)

end

/-! ## Later versions of rows -/

/-- Every row of the first table is in the second, in this or a later version. -/
def Later (rows rows' : List PaymentRow) : Prop :=
  ∀ r ∈ rows, ∃ r' ∈ rows', r'.asPending = r.asPending ∧ (r.status ≠ .pending → r' = r)

namespace Later

variable {rows rows' : List PaymentRow}

theorem refl (rows : List PaymentRow) : Later rows rows :=
  fun r hr => ⟨r, hr, rfl, fun _ => rfl⟩

theorem append (rows new : List PaymentRow) : Later rows (rows ++ new) :=
  fun r hr => ⟨r, List.mem_append_left _ hr, rfl, fun _ => rfl⟩

theorem final (h : Later rows rows') {r : PaymentRow} (hr : r ∈ rows)
    (hfinal : r.status ≠ .pending) : r ∈ rows' := by
  obtain ⟨r', hr', -, hf⟩ := h r hr
  exact hf hfinal ▸ hr'

end Later

end PaymentService
