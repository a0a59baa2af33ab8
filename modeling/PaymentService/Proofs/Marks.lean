import PaymentService.PaymentObject
import PaymentService.Proofs.Rows

/-!
# A payment is marked once

Of any calls of `mark_succeeded` and `mark_failed` on a pending payment the first with a usable time
marks it, and every other one raises and changes nothing (`runMarks_eq`, `marked_once`).
-/

namespace PaymentService

open Python

/-- A call of `mark_succeeded`, or else of `mark_failed`, and what the clock would give it. -/
structure MarkCall where
  succeeded : Bool
  processedAt : Option (Raw DateTime)
  now : ℤ

namespace MarkCall

def apply (c : MarkCall) (o : PaymentObject) : Except PyError Unit × PaymentObject :=
  if c.succeeded then o.markSucceeded c.processedAt c.now else o.markFailed c.processedAt c.now

/-- The argument is `None` or an aware datetime. -/
def isUsable (c : MarkCall) : Bool :=
  match c.processedAt with
  | none => true
  | some (.value t) => t.isAware
  | some (.other _) => false

def status (c : MarkCall) : PaymentStatus := if c.succeeded then .succeeded else .failed

def time (c : MarkCall) : DateTime :=
  match c.processedAt with
  | some (.value t) => t
  | _ => .utc c.now

/-- The object a usable call makes of a pending one. -/
def marked (c : MarkCall) (o : PaymentObject) : PaymentObject :=
  { o with status := c.status, processedAt := some c.time }

end MarkCall

/-- The object after the calls, whether they returned or raised. -/
def runMarks (o : PaymentObject) (calls : List MarkCall) : PaymentObject :=
  calls.foldl (fun o c => (c.apply o).2) o

/-- What the `n`-th of the calls returned or raised. -/
def answerAt (o : PaymentObject) (calls : List MarkCall) (n : Fin calls.length) :
    Except PyError Unit :=
  ((calls.get n).apply (runMarks o (calls.take n))).1

/-! ## One call -/

theorem apply_eq (c : MarkCall) (o : PaymentObject) :
    c.apply o = o.transitionTo c.status c.processedAt c.now := by
  unfold MarkCall.apply MarkCall.status
  split_ifs <;> rfl

theorem status_ne_pending (c : MarkCall) : c.status ≠ .pending := by
  unfold MarkCall.status
  split_ifs <;> decide

theorem time_isAware {c : MarkCall} (h : c.isUsable) : c.time.isAware := by
  unfold MarkCall.isUsable at h
  unfold MarkCall.time
  split at h
  · rename_i hnone
    rw [hnone]
    exact DateTime.isAware_utc c.now
  · rename_i t hsome
    rw [hsome]
    exact h
  · cases h

theorem apply_final {o : PaymentObject} (c : MarkCall) (h : o.status ≠ .pending) :
    ∃ text, c.apply o = (.error (.invalidStatusTransitionError text), o) := by
  rw [apply_eq, PaymentObject.transitionTo, if_pos h]
  exact ⟨_, rfl⟩

theorem apply_unusable {o : PaymentObject} {c : MarkCall} (h : o.status = .pending)
    (hc : ¬ c.isUsable) : ∃ text, c.apply o = (.error (.domainError text), o) := by
  rw [apply_eq, PaymentObject.transitionTo, if_neg (not_not.2 h)]
  unfold MarkCall.isUsable at hc
  split at hc
  · exact absurd rfl hc
  · rename_i t hsome
    simp only [hsome, PaymentObject.checkProcessedAt, ensureAware, dif_neg hc, Except.map]
    exact ⟨_, rfl⟩
  · rename_i name hsome
    simp only [hsome, PaymentObject.checkProcessedAt, ensureAware, Except.map]
    exact ⟨_, rfl⟩

theorem apply_usable {o : PaymentObject} {c : MarkCall} (h : o.status = .pending)
    (hc : c.isUsable) : c.apply o = (.ok (), c.marked o) := by
  rw [apply_eq, PaymentObject.transitionTo, if_neg (not_not.2 h)]
  unfold MarkCall.isUsable at hc
  split at hc
  · rename_i hnone
    simp only [hnone, PaymentObject.checkProcessedAt, MarkCall.marked, MarkCall.time,
      Option.getD_none]
  · rename_i t hsome
    simp only [hsome, PaymentObject.checkProcessedAt, ensureAware_value hc, Except.map,
      MarkCall.marked, MarkCall.time, Option.getD_some]
  · cases hc

/-! ## Runs -/

theorem runMarks_append (o : PaymentObject) (calls calls' : List MarkCall) :
    runMarks o (calls ++ calls') = runMarks (runMarks o calls) calls' := List.foldl_append

theorem runMarks_final {o : PaymentObject} (h : o.status ≠ .pending) :
    ∀ calls : List MarkCall, runMarks o calls = o
  | [] => rfl
  | c :: calls => by
    obtain ⟨text, hc⟩ := apply_final c h
    rw [runMarks, List.foldl_cons, hc]
    exact runMarks_final h calls

/-- What calls make of a pending payment: the first usable one marks it. -/
theorem runMarks_eq {o : PaymentObject} (h : o.status = .pending) : ∀ calls : List MarkCall,
    runMarks o calls = ((calls.find? MarkCall.isUsable).map (·.marked o)).getD o
  | [] => rfl
  | c :: calls => by
    by_cases hc : c.isUsable
    · rw [List.find?_cons_of_pos hc, runMarks, List.foldl_cons, apply_usable h hc]
      exact runMarks_final (status_ne_pending c) calls
    · obtain ⟨text, hraised⟩ := apply_unusable h hc
      rw [List.find?_cons_of_neg hc, runMarks, List.foldl_cons, hraised]
      exact runMarks_eq h calls

theorem runMarks_pending_iff {o : PaymentObject} (calls : List MarkCall) :
    (runMarks o calls).status = .pending ↔ o.status = .pending ∧ ∀ c ∈ calls, ¬ c.isUsable := by
  by_cases h : o.status = .pending
  · rw [runMarks_eq h]
    rcases hf : calls.find? MarkCall.isUsable with _ | c
    · exact iff_of_true h ⟨h, List.find?_eq_none.1 hf⟩
    · refine iff_of_false (status_ne_pending c) fun hnone => ?_
      exact hnone.2 c (List.mem_of_find?_eq_some hf) (List.find?_some hf)
  · rw [runMarks_final h]
    exact iff_of_false h fun hp => h hp.1

theorem runMarks_take_succ (o : PaymentObject) (calls : List MarkCall) (n : Fin calls.length) :
    runMarks o (calls.take (n + 1)) = ((calls.get n).apply (runMarks o (calls.take n))).2 := by
  rw [List.take_succ_eq_append_getElem n.2, runMarks_append]
  rfl

theorem not_usable_take {calls : List MarkCall} {n : Fin calls.length} :
    (∀ c ∈ calls.take n, ¬ c.isUsable) ↔ ∀ m < n, ¬ (calls.get m).isUsable := by
  constructor
  · intro h m hm
    exact h _ (List.mem_take_iff_getElem.2 ⟨m, by omega, rfl⟩)
  · intro h c hc
    obtain ⟨m, hm, rfl⟩ := List.mem_take_iff_getElem.1 hc
    exact h ⟨m, by omega⟩ (by rw [Fin.lt_def]; exact (lt_min_iff.1 hm).1)

/-! ## Whole sequences -/

/-- Pending exactly without a `processed_at`, and that aware if there is one. -/
structure Linked (o : PaymentObject) : Prop where
  pending_iff : o.status = .pending ↔ o.processedAt = none
  aware : ∀ t ∈ o.processedAt, t.isAware

theorem linked_marked {c : MarkCall} (h : c.isUsable) (o : PaymentObject) :
    Linked (c.marked o) where
  pending_iff := iff_of_false (status_ne_pending c) (Option.some_ne_none _)
  aware := by
    rintro t ⟨⟩
    exact time_isAware h

/-- A payment that was created or loaded. -/
inductive Obtained : Payment → Prop
  | created {amount currency description key url metadata paymentId createdAt uuid4 now p}
      (h : Payment.create amount currency description key url metadata paymentId createdAt uuid4
        now = .ok p) : Obtained p
  | loaded {r : PaymentRow} {p} (h : r.toPayment = .ok p) : Obtained p

theorem create_pending {amount currency description key url metadata paymentId createdAt uuid4 now}
    {p : Payment} (h : Payment.create amount currency description key url metadata paymentId
      createdAt uuid4 now = .ok p) :
    p.status = .pending ∧ p.processedAt = none ∧ p.amount = amount := by
  unfold Payment.create Payment.new at h
  rcases description with description | name
  · rcases hm : metadata.getD (.value []) with d | name <;> rw [hm] at h
    · simp only at h
      split at h
      · cases h
      · cases h
        exact ⟨rfl, rfl, rfl⟩
    · cases h
  · cases h

theorem linked_obtained {p : Payment} (h : Obtained p) : Linked p.toObject := by
  refine ⟨?_, p.processedAt_aware⟩
  show p.status = .pending ↔ p.processedAt = none
  cases h with
  | created h =>
    obtain ⟨hstatus, hprocessed, -⟩ := create_pending h
    exact iff_of_true hstatus hprocessed
  | @loaded r _ h =>
    have hl := toPayment_iff.1 h
    rw [hl.status, hl.processedAt, r.processedAt_matches_status, Option.map_eq_none_iff]

/-- The calls of a sequence, each with what it left and what it answered. -/
structure MarkedOnce (o : PaymentObject) (calls : List MarkCall) : Prop where
  linked : ∀ n, Linked (runMarks o (calls.take n))
  frame : ∀ n, { runMarks o (calls.take n) with
    status := o.status, processedAt := o.processedAt } = o
  ok_iff : ∀ n, answerAt o calls n = .ok () ↔
    o.status = .pending ∧ (calls.get n).isUsable ∧ ∀ m < n, ¬ (calls.get m).isUsable
  unique : ∀ m n, answerAt o calls m = .ok () → answerAt o calls n = .ok () → m = n
  last : ∀ n, answerAt o calls n = .ok () → runMarks o calls = runMarks o (calls.take (n + 1))
  raised : ∀ n e, answerAt o calls n = .error e →
    runMarks o (calls.take (n + 1)) = runMarks o (calls.take n) ∧
      if (runMarks o (calls.take n)).status = .pending then ∃ text, e = .domainError text
      else ∃ text, e = .invalidStatusTransitionError text

theorem runMarks_linked {o : PaymentObject} (h : Linked o) (calls : List MarkCall) :
    Linked (runMarks o calls) := by
  by_cases hp : o.status = .pending
  · rw [runMarks_eq hp]
    rcases hf : calls.find? MarkCall.isUsable with _ | c
    · exact h
    · exact linked_marked (List.find?_some hf) o
  · rw [runMarks_final hp]
    exact h

theorem runMarks_frame (o : PaymentObject) (calls : List MarkCall) :
    { runMarks o calls with status := o.status, processedAt := o.processedAt } = o := by
  by_cases hp : o.status = .pending
  · rw [runMarks_eq hp]
    rcases calls.find? MarkCall.isUsable with _ | c <;> rfl
  · rw [runMarks_final hp]

theorem answerAt_ok_iff (o : PaymentObject) (calls : List MarkCall) (n : Fin calls.length) :
    answerAt o calls n = .ok () ↔
      o.status = .pending ∧ (calls.get n).isUsable ∧ ∀ m < n, ¬ (calls.get m).isUsable := by
  have hbefore := runMarks_pending_iff (o := o) (calls.take n)
  rw [not_usable_take] at hbefore
  by_cases hp : (runMarks o (calls.take n)).status = .pending
  · obtain ⟨hstatus, hnone⟩ := hbefore.1 hp
    by_cases hc : (calls.get n).isUsable
    · rw [answerAt, apply_usable hp hc]
      exact iff_of_true rfl ⟨hstatus, hc, hnone⟩
    · obtain ⟨text, hraised⟩ := apply_unusable hp hc
      rw [answerAt, hraised]
      exact iff_of_false (fun h => nomatch h) fun h => hc h.2.1
  · obtain ⟨text, hraised⟩ := apply_final (calls.get n) hp
    rw [answerAt, hraised]
    exact iff_of_false (fun h => nomatch h) fun h => hp (hbefore.2 ⟨h.1, h.2.2⟩)

theorem answerAt_raised {o : PaymentObject} {calls : List MarkCall} {n : Fin calls.length}
    {e : PyError} (h : answerAt o calls n = .error e) :
    runMarks o (calls.take (n + 1)) = runMarks o (calls.take n) ∧
      if (runMarks o (calls.take n)).status = .pending then ∃ text, e = .domainError text
      else ∃ text, e = .invalidStatusTransitionError text := by
  rw [runMarks_take_succ]
  unfold answerAt at h
  by_cases hp : (runMarks o (calls.take n)).status = .pending
  · by_cases hc : (calls.get n).isUsable
    · rw [apply_usable hp hc] at h
      cases h
    · obtain ⟨text, hraised⟩ := apply_unusable hp hc
      rw [hraised] at h ⊢
      cases h
      exact ⟨rfl, by rw [if_pos hp]; exact ⟨text, rfl⟩⟩
  · obtain ⟨text, hraised⟩ := apply_final (calls.get n) hp
    rw [hraised] at h ⊢
    cases h
    exact ⟨rfl, by rw [if_neg hp]; exact ⟨text, rfl⟩⟩

theorem runMarks_last {o : PaymentObject} {calls : List MarkCall} {n : Fin calls.length}
    (h : answerAt o calls n = .ok ()) :
    runMarks o calls = runMarks o (calls.take (n + 1)) := by
  obtain ⟨-, hc, -⟩ := (answerAt_ok_iff o calls n).1 h
  have hfinal : (runMarks o (calls.take (n + 1))).status ≠ .pending := fun hp =>
    ((runMarks_pending_iff _).1 hp).2 _
      (List.mem_take_iff_getElem.2 ⟨n, by have := n.2; omega, rfl⟩) hc
  conv_lhs => rw [← List.take_append_drop (n + 1) calls, runMarks_append]
  exact runMarks_final hfinal _

/-- A payment, as it was created or loaded, and any calls on it. -/
theorem marked_once {p : Payment} (h : Obtained p) (calls : List MarkCall) :
    MarkedOnce p.toObject calls where
  linked n := runMarks_linked (linked_obtained h) (calls.take n)
  frame n := runMarks_frame p.toObject (calls.take n)
  ok_iff := answerAt_ok_iff p.toObject calls
  unique m n hm hn := by
    obtain ⟨-, hmu, hmn⟩ := (answerAt_ok_iff _ _ _).1 hm
    obtain ⟨-, hnu, hnn⟩ := (answerAt_ok_iff _ _ _).1 hn
    rcases lt_trichotomy m n with hlt | heq | hlt
    · exact absurd hmu (hnn m hlt)
    · exact heq
    · exact absurd hnu (hmn n hlt)
  last _ := runMarks_last
  raised _ _ := answerAt_raised

/-- A naive time is refused, the next call marks the payment and the one after it is refused. -/
theorem sampleRow_marked_once : ∃ p, sampleRow.toPayment = .ok p ∧
    MarkedOnce p.toObject [⟨true, some (.value ⟨0, none⟩), 1⟩, ⟨false, none, 2⟩,
      ⟨true, none, 3⟩] := by
  obtain ⟨p, hp⟩ := sampleRow_loads
  exact ⟨p, hp, marked_once (.loaded hp) _⟩

end PaymentService
