import PaymentService.Proofs.ProcessSteps

/-!
# The invariant of processing

A call holds what it read from its row: before its update the payment of the row's pending
version, then that payment marked with what the gateway answered to this very call, and at the end
the payment of the final row. An uncommitted version is the pending row it replaces, with the
status and time of its call, and no row has two.
-/

namespace PaymentService

open Python Labelled

/-- The status an answer of the gateway stands for. -/
def statusOf (succeeded : Bool) : PaymentStatus := if succeeded then .succeeded else .failed

theorem statusOf_ne_pending (b : Bool) : statusOf b ≠ .pending := by cases b <;> decide

theorem mark_eq_transitionTo (p : Payment) (b : Bool) (now : ℤ) :
    (if b then p.markSucceeded none now else p.markFailed none now) =
      p.transitionTo (statusOf b) none now := by
  cases b <;> rfl

/-- The gateway answered a call, and the payment was marked so. -/
def MarkedBy (s : ProcessState) (k : ℕ) (p₀ p : Payment) : Prop :=
  ∃ b now, Answer.mk k p.id b now ∈ s.answers ∧ p₀.transitionTo (statusOf b) none now = .ok p

/-- The row is the one the gateway's answer to a call asks for. -/
def AnsweredAs (s : ProcessState) (k : ℕ) (row : PaymentRow) : Prop :=
  ∃ b now, Answer.mk k row.id b now ∈ s.answers ∧ row.status = statusOf b ∧
    row.processedAt = some now

/-- What a call that stands somewhere holds. -/
def PcOk (s : ProcessState) (k : ℕ) (id : UUID) : ProcessPc → Prop
  | .charge p | .charging p =>
    p.id = id ∧ ∃ r ∈ s.payments, LoadsAs r.asPending p
  | .updateStatus p =>
    p.id = id ∧ ∃ r ∈ s.payments, ∃ p₀, LoadsAs r.asPending p₀ ∧ MarkedBy s k p₀ p
  | .commit p true => p.id = id ∧ ∃ row, PendingWrite.mk k row ∈ s.writes ∧ LoadsAs row p
  | .commit p false | .getAgain p =>
    p.id = id ∧ ∃ r ∈ s.payments, r.id = id ∧ r.status ≠ .pending
  | .send p => p.id = id ∧ ∃ r ∈ s.payments, LoadsAs r p ∧ r.status ≠ .pending
  | .sending p => p.id = id ∧ notificationOf p ∈ s.sent
  | .get | .returned | .raised _ _ | .killed _ => True

structure WriteOk (s : ProcessState) (w : PendingWrite) : Prop where
  call : ∃ p, s.calls w.call = some ⟨w.row.id, .commit p true⟩
  replaces : w.row.asPending ∈ s.payments
  answered : AnsweredAs s w.call w.row

/-- A notification tells of a final row. -/
def Notifies (s : ProcessState) (n : Notification) : Prop :=
  ∃ r ∈ s.payments, r.status ≠ .pending ∧ ∃ p, LoadsAs r p ∧ n = notificationOf p

structure ProcessInv (s : ProcessState) : Prop where
  ids : (s.payments.map PaymentRow.id).Nodup
  locks : (s.writes.map fun w => w.row.id).Nodup
  writes : ∀ w ∈ s.writes, WriteOk s w
  calls : ∀ k c, s.calls k = some c → PcOk s k c.paymentId c.pc
  sent : ∀ n ∈ s.sent, Notifies s n
  accepted : ∀ n ∈ s.accepted, n ∈ s.sent

/-! ## What later states keep -/

section

variable {s s' : ProcessState} {k : ℕ}

theorem PcOk.mono {id : UUID} {pc : ProcessPc} (hrows : Later s.payments s'.payments)
    (hanswers : ∀ a ∈ s.answers, a ∈ s'.answers)
    (hwrites : ∀ row, PendingWrite.mk k row ∈ s.writes → PendingWrite.mk k row ∈ s'.writes)
    (hsent : ∀ n ∈ s.sent, n ∈ s'.sent) (h : PcOk s k id pc) : PcOk s' k id pc := by
  match pc, h with
  | .charge p, ⟨hid, r, hr, hp⟩ | .charging p, ⟨hid, r, hr, hp⟩ =>
    obtain ⟨r', hr', he, -⟩ := hrows r hr
    exact ⟨hid, r', hr', he ▸ hp⟩
  | .updateStatus p, ⟨hid, r, hr, p₀, hp, b, now, ha, hm⟩ =>
    obtain ⟨r', hr', he, -⟩ := hrows r hr
    exact ⟨hid, r', hr', p₀, he ▸ hp, b, now, hanswers _ ha, hm⟩
  | .commit p true, ⟨hid, row, hw, hp⟩ => exact ⟨hid, row, hwrites row hw, hp⟩
  | .commit p false, ⟨hid, r, hr, hrid, hf⟩ | .getAgain p, ⟨hid, r, hr, hrid, hf⟩ =>
    exact ⟨hid, r, hrows.final hr hf, hrid, hf⟩
  | .send p, ⟨hid, r, hr, hp, hf⟩ => exact ⟨hid, r, hrows.final hr hf, hp, hf⟩
  | .sending p, ⟨hid, hn⟩ => exact ⟨hid, hsent _ hn⟩
  | .get, _ | .returned, _ | .raised _ _, _ | .killed _, _ => trivial

theorem Notifies.mono {n : Notification} (hrows : Later s.payments s'.payments)
    (h : Notifies s n) : Notifies s' n := by
  obtain ⟨r, hr, hf, hn⟩ := h
  exact ⟨r, hrows.final hr hf, hf, hn⟩

theorem WriteOk.mono {w : PendingWrite} (hcall : s'.calls w.call = s.calls w.call)
    (hrow : w.row.asPending ∈ s'.payments) (hanswers : ∀ a ∈ s.answers, a ∈ s'.answers)
    (h : WriteOk s w) : WriteOk s' w := by
  obtain ⟨b, now, ha, hst⟩ := h.answered
  exact ⟨hcall ▸ h.call, hrow, b, now, hanswers _ ha, hst⟩

/-- Calls after a step of one of them. -/
theorem calls_of_update (hinv : ProcessInv s) {c : ProcessCall}
    (hrows : Later s.payments s'.payments) (hanswers : ∀ a ∈ s.answers, a ∈ s'.answers)
    (hwrites : ∀ w ∈ s.writes, w.call ≠ k → w ∈ s'.writes) (hsent : ∀ n ∈ s.sent, n ∈ s'.sent)
    (hcalls : s'.calls = Function.update s.calls k (some c)) (hc : PcOk s' k c.paymentId c.pc) :
    ∀ j d, s'.calls j = some d → PcOk s' j d.paymentId d.pc := by
  intro j d hd
  rw [hcalls] at hd
  by_cases hj : j = k
  · subst hj
    rw [Function.update_self, Option.some.injEq] at hd
    exact hd ▸ hc
  · rw [Function.update_of_ne hj] at hd
    exact (hinv.calls j d hd).mono hrows hanswers (fun row hw => hwrites _ hw hj) hsent

/-- A step of a call that stands at no commit and writes nothing. -/
theorem inv_of_call (hinv : ProcessInv s) {c : ProcessCall} (hpay : s'.payments = s.payments)
    (hanswers : ∀ a ∈ s.answers, a ∈ s'.answers) (hwrites : s'.writes = s.writes)
    (hcalls : s'.calls = Function.update s.calls k (some c))
    (hfrom : ∀ id p, s.calls k ≠ some ⟨id, .commit p true⟩)
    (hkept : ∀ n ∈ s.sent, n ∈ s'.sent) (hsent : ∀ n ∈ s'.sent, n ∈ s.sent ∨ Notifies s n)
    (haccepted : ∀ n ∈ s'.accepted, n ∈ s'.sent) (hc : PcOk s' k c.paymentId c.pc) :
    ProcessInv s' where
  ids := hpay ▸ hinv.ids
  locks := hwrites ▸ hinv.locks
  writes w hw := by
    rw [hwrites] at hw
    have hok := hinv.writes w hw
    obtain ⟨p, hcall⟩ := hok.call
    have hne : w.call ≠ k := fun h => hfrom _ p (h ▸ hcall)
    exact hok.mono (by rw [hcalls, Function.update_of_ne hne]) (hpay ▸ hok.replaces) hanswers
  calls := calls_of_update hinv (hpay ▸ Later.refl _) hanswers (fun w hw _ => hwrites ▸ hw) hkept
    hcalls hc
  sent n hn := by
    have hn : Notifies s n := (hsent n hn).elim (hinv.sent n) fun h => h
    exact hn.mono (hpay ▸ Later.refl _)
  accepted := haccepted

/-- Such a step that sends nothing either. -/
theorem inv_of_move (hinv : ProcessInv s) {c : ProcessCall} (hpay : s'.payments = s.payments)
    (hanswers : ∀ a ∈ s.answers, a ∈ s'.answers) (hwrites : s'.writes = s.writes)
    (hsent : s'.sent = s.sent) (haccepted : s'.accepted = s.accepted)
    (hcalls : s'.calls = Function.update s.calls k (some c))
    (hfrom : ∀ id p, s.calls k ≠ some ⟨id, .commit p true⟩)
    (hc : PcOk s' k c.paymentId c.pc) : ProcessInv s' :=
  inv_of_call hinv hpay hanswers hwrites hcalls hfrom (fun _ h => hsent ▸ h)
    (fun _ h => .inl (hsent ▸ h))
    (fun n h => by rw [haccepted] at h; exact hsent ▸ hinv.accepted n h) hc

end

/-! ## Where a call goes next -/

section

variable {s : ProcessState} {k : ℕ} {id : UUID}

theorem pcOk_afterGet :
    PcOk s k id (afterGet id (PaymentRepository.get s.payments id)) := by
  rcases hg : PaymentRepository.get s.payments id with e | found
  · trivial
  · rcases get_eq_ok hg with ⟨rfl, -⟩ | ⟨r, hr, p, hrid, hp, rfl⟩
    · trivial
    · have hpid : p.id = id := hp.id.trans hrid
      simp only [afterGet, Payment.isProcessed, PaymentStatus.isFinal, ne_eq, decide_not,
        Bool.not_eq_true', decide_eq_false_iff_not, hp.status]
      split_ifs with hpending
      · refine ⟨hpid, r, hr, ?_⟩
        rwa [asPending_of_pending hpending]
      · exact ⟨hpid, r, hr, hp, hpending⟩

theorem pcOk_afterCharge {p : Payment} {b : Bool} {now : ℤ}
    (h : PcOk s k id (.charging p)) (ha : Answer.mk k p.id b now ∈ s.answers) :
    PcOk s k id (afterCharge p b now) := by
  obtain ⟨hid, r, hr, hp⟩ := h
  rw [afterCharge, mark_eq_transitionTo]
  rcases hq : p.transitionTo (statusOf b) none now with e | q
  · trivial
  · have hqid : q.id = p.id := by rw [(Payment.transitionTo_now hq).2]
    exact ⟨hqid.trans hid, r, hr, p, hp, b, now, hqid ▸ ha, hq⟩

theorem pcOk_afterGetAgain {p : Payment} (hinv : ProcessInv s)
    (h : PcOk s k id (.getAgain p)) :
    PcOk s k id (afterGetAgain p (PaymentRepository.get s.payments p.id)) := by
  obtain ⟨hid, r, hr, hrid, hf⟩ := h
  rcases hg : PaymentRepository.get s.payments p.id with e | found
  · trivial
  · rcases get_eq_ok hg with ⟨rfl, hnone⟩ | ⟨r', hr', q, hrid', hq, rfl⟩
    · exact absurd (hrid.trans hid.symm) (hnone r hr)
    · obtain rfl := eq_of_id hinv.ids hr hr' (by rw [hrid, hrid', hid])
      exact ⟨hq.id.trans hrid, r, hr, hq, hf⟩

/-- What an UPDATE finds for a marked payment: the pending row, or a row that is final. -/
theorem updateStatus_ok (hinv : ProcessInv s) {p : Payment} {found : Option PaymentRow}
    (h : PcOk s k id (.updateStatus p))
    (hu : PaymentRepository.updateStatus s.payments p = .ok found) :
    (found = none ∧ ∃ r ∈ s.payments, r.id = id ∧ r.status ≠ .pending) ∨
      ∃ row, found = some row ∧ row.id = id ∧ row.asPending ∈ s.payments ∧ LoadsAs row p ∧
        AnsweredAs s k row := by
  obtain ⟨hid, r, hr, p₀, hp, b, now, ha, hm⟩ := h
  have hp₀ := (Payment.transitionTo_now hm).2
  have hrid : r.id = p.id := by
    rw [hp₀]
    exact hp.id.symm
  unfold PaymentRepository.updateStatus at hu
  split at hu
  · rename_i hfind
    refine .inl ⟨(Except.ok.inj hu).symm, r, hr, hrid.trans hid, fun hpending => ?_⟩
    have := List.find?_eq_none.1 hfind r hr
    simp [hrid, hpending] at this
  · rename_i r' hfind
    have hmem := List.mem_of_find?_eq_some hfind
    have hmatch := List.find?_some hfind
    simp only [Bool.decide_and, Bool.and_eq_true, decide_eq_true_eq] at hmatch
    obtain rfl := eq_of_id hinv.ids hr hmem (hrid.trans hmatch.1.symm)
    rcases hset : r.setStatus p.status (p.processedAt.map DateTime.instant) with e | row
    · simp [hset, Except.map] at hu
    · simp only [hset, Except.map, Except.ok.injEq] at hu
      obtain ⟨hrow, hst, hat⟩ := setStatus_ok hset
      have hstatus : row.status = statusOf b := by rw [hst, hp₀]
      have hprocessed : row.processedAt = some now := by
        rw [hat, hp₀]
        simp
      have hrowid : row.id = r.id := by rw [← asPending_id row, hrow, asPending_id]
      refine .inr ⟨row, hu.symm, hrowid.trans (hrid.trans hid), ?_, ?_, b, now, ?_, hstatus,
        hprocessed⟩
      · rw [hrow, asPending_of_pending hmatch.2]
        exact hr
      · exact LoadsAs.marked (hrow ▸ hp) hm hstatus hprocessed
      · rwa [hrowid, hrid]

end

/-! ## The commit -/

section

variable {s : ProcessState} {k : ℕ}

/-- The version of a row after the commit of a call. -/
theorem committed_cases (hinv : ProcessInv s) {r : PaymentRow} (hr : r ∈ s.payments) :
    (∃ w ∈ s.writes, w.call = k ∧ w.row.asPending = r ∧ w.row ∈ s.committed k) ∨
      (r ∈ s.committed k ∧ ∀ w ∈ s.writes, w.call = k → w.row.id ≠ r.id) := by
  rcases hf : s.writes.find? fun w => w.call = k ∧ w.row.id = r.id with _ | w
  · refine .inr ⟨List.mem_map.2 ⟨r, hr, by rw [hf]; rfl⟩, fun w hw hk hid => ?_⟩
    have := List.find?_eq_none.1 hf w hw
    simp [hk, hid] at this
  · have hmem := List.mem_of_find?_eq_some hf
    have hmatch := List.find?_some hf
    simp only [Bool.decide_and, Bool.and_eq_true, decide_eq_true_eq] at hmatch
    have hrow := (hinv.writes w hmem).replaces
    have hid : w.row.asPending.id = r.id := hmatch.2
    exact .inl ⟨w, hmem, hmatch.1, eq_of_id hinv.ids hrow hr hid,
      List.mem_map.2 ⟨r, hr, by rw [hf]; rfl⟩⟩

theorem later_committed (hinv : ProcessInv s) : Later s.payments (s.committed k) := by
  intro r hr
  rcases committed_cases (k := k) hinv hr with ⟨w, -, -, rfl, hw⟩ | ⟨hr', -⟩
  · exact ⟨w.row, hw, rfl, fun h => absurd rfl h⟩
  · exact ⟨r, hr', rfl, fun _ => rfl⟩

theorem ids_committed :
    (s.committed k).map PaymentRow.id = s.payments.map PaymentRow.id := by
  rw [ProcessState.committed, List.map_map]
  refine List.map_congr_left fun r hr => ?_
  rw [Function.comp_apply]
  rcases hf : s.writes.find? fun w => w.call = k ∧ w.row.id = r.id with _ | w
  · rw [hf]
    rfl
  · have hmatch := List.find?_some hf
    simp only [Bool.decide_and, Bool.and_eq_true, decide_eq_true_eq] at hmatch
    rw [hf]
    exact hmatch.2

/-- The version a call wrote is in the table after its commit. -/
theorem written_committed (hinv : ProcessInv s) {row : PaymentRow}
    (hw : PendingWrite.mk k row ∈ s.writes) : row ∈ s.committed k := by
  have hrow := (hinv.writes _ hw).replaces
  rcases committed_cases (k := k) hinv hrow with ⟨w, hmem, -, he, hcommitted⟩ | ⟨-, hnone⟩
  · have hid : w.row.id = row.id := by rw [← asPending_id, he, asPending_id]
    have : w = ⟨k, row⟩ := List.inj_on_of_nodup_map hinv.locks hmem hw hid
    rwa [this] at hcommitted
  · exact absurd rfl (hnone _ hw rfl)

end

/-! ## Every step keeps the invariant -/

section

variable {s : ProcessState} {k : ℕ} {id : UUID} {p : Payment}

theorem ProcessInv.update (hinv : ProcessInv s) (hc : s.calls k = some ⟨id, .updateStatus p⟩)
    (hfree : s.isLocked p.id = false) :
    ProcessInv ((s.write k (PaymentRepository.updateStatus s.payments p)).setCall k
      ⟨id, afterUpdateStatus p (PaymentRepository.updateStatus s.payments p)⟩) := by
  have hpc := hinv.calls k _ hc
  have hfrom : ∀ id p, s.calls k ≠ some ⟨id, .commit p true⟩ := by simp [hc]
  rcases hu : PaymentRepository.updateStatus s.payments p with e | found
  · exact inv_of_move hinv rfl (fun _ h => h) rfl rfl rfl rfl hfrom trivial
  rcases updateStatus_ok hinv hpc hu with ⟨rfl, hfinal⟩ | ⟨row, rfl, hrid, hpending, hp, hans⟩
  · exact inv_of_move hinv rfl (fun _ h => h) rfl rfl rfl rfl hfrom ⟨hpc.1, hfinal⟩
  · have hwrites : ((s.write k (.ok (some row))).setCall k
        ⟨id, afterUpdateStatus p (.ok (some row))⟩).writes = s.writes ++ [⟨k, row⟩] := rfl
    refine ⟨hinv.ids, ?_, ?_, ?_, hinv.sent, hinv.accepted⟩
    · rw [hwrites, List.map_append, List.nodup_append]
      refine ⟨hinv.locks, by simp, fun a ha b hb hab => ?_⟩
      obtain ⟨w, hw, rfl⟩ := List.mem_map.1 ha
      simp only [List.map_cons, List.map_nil, List.mem_singleton] at hb
      have hlocked : s.isLocked p.id = true :=
        List.any_eq_true.2 ⟨w, hw, by simp [hab, hb, hrid, hpc.1]⟩
      rw [hlocked] at hfree
      cases hfree
    · intro w hw
      rw [hwrites, List.mem_append, List.mem_singleton] at hw
      rcases hw with hw | rfl
      · have hok := hinv.writes w hw
        obtain ⟨q, hcall⟩ := hok.call
        have hne : w.call ≠ k := fun h => hfrom _ q (h ▸ hcall)
        exact WriteOk.mono (s := s) (Function.update_of_ne hne _ _) hok.replaces (fun _ h => h) hok
      · exact ⟨⟨p, hrid ▸ Function.update_self _ _ _⟩, hpending, hans⟩
    · refine calls_of_update hinv (Later.refl _) (fun _ h => h) (fun w hw _ => ?_) (fun _ h => h)
        rfl ⟨hpc.1, row, ?_, hp⟩
      · exact List.mem_append_left _ hw
      · exact List.mem_append_right _ List.mem_cons_self

theorem ProcessInv.commit (hinv : ProcessInv s) {applied : Bool}
    (hc : s.calls k = some ⟨id, .commit p applied⟩) :
    ProcessInv (({ s with payments := s.committed k }.endSession k).setCall k
      ⟨id, afterCommit p applied⟩) := by
  have hpc := hinv.calls k _ hc
  have hlater := later_committed (k := k) hinv
  refine ⟨?_, ?_, ?_, ?_, fun n hn => (hinv.sent n hn).mono hlater, hinv.accepted⟩
  · rw [ProcessState.setCall_payments, ProcessState.endSession_payments, ids_committed]
    exact hinv.ids
  · exact hinv.locks.sublist (List.filter_sublist.map _)
  · intro w hw
    obtain ⟨hw, hne⟩ := List.mem_filter.1 hw
    have hne : w.call ≠ k := by simpa using hne
    have hok := hinv.writes w hw
    refine WriteOk.mono (s := s) (Function.update_of_ne hne _ _) ?_ (fun _ h => h) hok
    rcases committed_cases (k := k) hinv hok.replaces with ⟨w', hw', hk, he, -⟩ | ⟨hr, -⟩
    · have hid : w'.row.id = w.row.id := by rw [← asPending_id, he, asPending_id]
      obtain rfl := List.inj_on_of_nodup_map hinv.locks hw' hw hid
      exact absurd hk hne
    · exact hr
  · refine calls_of_update hinv hlater (fun _ h => h) (fun w hw hne => ?_) (fun _ h => h) rfl ?_
    · exact List.mem_filter.2 ⟨hw, by simpa using hne⟩
    · cases applied with
      | true =>
        obtain ⟨hid, row, hw, hp⟩ := hpc
        obtain ⟨b, now, -, hst, -⟩ := (hinv.writes _ hw).answered
        exact ⟨hid, row, written_committed hinv hw, hp, hst ▸ statusOf_ne_pending b⟩
      | false =>
        obtain ⟨hid, r, hr, hrid, hf⟩ := hpc
        exact ⟨hid, r, hlater.final hr hf, hrid, hf⟩

theorem ProcessInv.stop (hinv : ProcessInv s) {pc stopped : ProcessPc}
    (hstopped : stopped.stoppedAt = some pc) :
    ProcessInv ((s.endSession k).setCall k ⟨id, stopped⟩) := by
  refine ⟨hinv.ids, hinv.locks.sublist (List.filter_sublist.map _), fun w hw => ?_, ?_, hinv.sent,
    hinv.accepted⟩
  · obtain ⟨hw, hne⟩ := List.mem_filter.1 hw
    have hok := hinv.writes w hw
    have hne : w.call ≠ k := by simpa using hne
    exact WriteOk.mono (s := s) (Function.update_of_ne hne _ _) hok.replaces (fun _ h => h) hok
  · refine calls_of_update hinv (Later.refl _) (fun _ h => h) (fun w hw hne => ?_) (fun _ h => h)
      rfl ?_
    · exact List.mem_filter.2 ⟨hw, by simpa using hne⟩
    · cases stopped with
      | raised _ _ | killed _ => trivial
      | _ => cases hstopped

theorem ProcessInv.send (hinv : ProcessInv s) (hc : s.calls k = some ⟨id, .send p⟩) :
    ProcessInv ({ s with sent := s.sent ++ [notificationOf p] }.setCall k ⟨id, .sending p⟩) := by
  obtain ⟨hid, r, hr, hp, hf⟩ := hinv.calls k _ hc
  refine inv_of_call hinv rfl (fun _ h => h) rfl rfl (by simp [hc])
    (fun _ h => List.mem_append_left _ h) (fun n hn => ?_)
    (fun n hn => List.mem_append_left _ (hinv.accepted n hn)) ⟨hid, ?_⟩
  · rcases List.mem_append.1 hn with hn | hn
    · exact .inl hn
    · exact .inr ⟨r, hr, hf, p, hp, List.mem_singleton.1 hn⟩
  · exact List.mem_append_right _ List.mem_cons_self

theorem ProcessInv.accept (hinv : ProcessInv s) (hc : s.calls k = some ⟨id, .sending p⟩) :
    ProcessInv ({ s with accepted := s.accepted ++ [notificationOf p] }.setCall k
      ⟨id, .returned⟩) := by
  obtain ⟨-, hsent⟩ := hinv.calls k _ hc
  refine inv_of_call hinv rfl (fun _ h => h) rfl rfl (by simp [hc]) (fun _ h => h)
    (fun _ h => .inl h) (fun n hn => ?_) trivial
  rcases List.mem_append.1 hn with hn | hn
  · exact hinv.accepted n hn
  · exact List.mem_singleton.1 hn ▸ hsent

theorem ProcessInv.insert (hinv : ProcessInv s) {row : PaymentRow}
    (hfresh : ∀ r ∈ s.payments, r.id ≠ row.id) :
    ProcessInv { s with payments := s.payments ++ [row] } := by
  have hlater := Later.append s.payments [row]
  refine ⟨?_, hinv.locks, fun w hw => ?_, fun j d hd => ?_, fun n hn => ?_, hinv.accepted⟩
  · rw [List.map_append, List.nodup_append]
    refine ⟨hinv.ids, by simp, fun a ha b hb hab => ?_⟩
    obtain ⟨r, hr, rfl⟩ := List.mem_map.1 ha
    simp only [List.map_cons, List.map_nil, List.mem_singleton] at hb
    exact hfresh r hr (hab.trans hb)
  · have hok := hinv.writes w hw
    exact WriteOk.mono (s := s) rfl (List.mem_append_left _ hok.replaces) (fun _ h => h) hok
  · exact PcOk.mono (s := s) hlater (fun _ h => h) (fun _ h => h) (fun _ h => h)
      (hinv.calls j d hd)
  · exact Notifies.mono (s := s) hlater (hinv.sent n hn)

end

theorem processInv_step {s s' : ProcessState} {a : ProcessLabel} (hinv : ProcessInv s)
    (h : processMachine.step s a = some s') : ProcessInv s' := by
  cases processMachine_trans h with
  | begin hc =>
    exact inv_of_move hinv rfl (fun _ h => h) rfl rfl rfl rfl (by simp [hc]) trivial
  | get hc =>
    exact inv_of_move hinv rfl (fun _ h => h) rfl rfl rfl rfl (by simp [hc]) pcOk_afterGet
  | charge hc =>
    exact inv_of_move hinv rfl (fun _ h => h) rfl rfl rfl rfl (by simp [hc]) (hinv.calls _ _ hc)
  | answer hc =>
    refine inv_of_move hinv rfl (fun _ h => List.mem_append_left _ h) rfl rfl rfl rfl (by simp [hc])
      (pcOk_afterCharge (hinv.calls _ _ hc) ?_)
    exact List.mem_append_right _ List.mem_cons_self
  | update hc hfree => exact hinv.update hc hfree
  | commit hc => exact hinv.commit hc
  | getAgain hc =>
    exact inv_of_move hinv rfl (fun _ h => h) rfl rfl rfl rfl (by simp [hc])
      ((pcOk_afterGetAgain hinv (hinv.calls _ _ hc)).mono (Later.refl _) (fun _ h => h)
        (fun _ h => h) fun _ h => h)
  | send hc => exact hinv.send hc
  | accept hc => exact hinv.accept hc
  | stop hc hrunning hact hstopped => exact hinv.stop hstopped
  | insert hfresh => exact hinv.insert hfresh

theorem processInv_init {payments : List PaymentRow}
    (hids : (payments.map PaymentRow.id).Nodup) : ProcessInv (.init payments) := by
  refine ⟨hids, List.nodup_nil, ?_, ?_, ?_, ?_⟩ <;> simp [ProcessState.init]

theorem processInv_run {payments : List PaymentRow} (hids : (payments.map PaymentRow.id).Nodup)
    {s : ProcessState} (h : processMachine.Reachable (.init payments) s) : ProcessInv s :=
  h.inv (fun _ _ _ => processInv_step) (processInv_init hids)

end PaymentService
