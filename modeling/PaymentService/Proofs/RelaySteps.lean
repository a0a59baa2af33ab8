import PaymentService.OutboxRelay
import Mathlib.Data.List.Nodup

/-!
# What a step of a pass does

Every step of `relayMachine` is one of the cases of `RelayTrans`. The invariant says what a pass
holds between its steps: the rows it has locked are its batch, they are in the table as it loaded
them, and each it is through with is what its publish made of it.
-/

namespace PaymentService

open Python Labelled

namespace RelayState

variable (s : RelayState) (k : ℕ)

@[simp] theorem setPass_outbox (pc : PassPc) : (s.setPass k pc).outbox = s.outbox := rfl
@[simp] theorem setPass_locks (pc : PassPc) : (s.setPass k pc).locks = s.locks := rfl
@[simp] theorem setPass_accepted (pc : PassPc) : (s.setPass k pc).accepted = s.accepted := rfl
@[simp] theorem setPass_passes (pc : PassPc) :
    (s.setPass k pc).passes = Function.update s.passes k pc := rfl

@[simp] theorem offer_outbox (m : OutboxRow) (o : PublishOutcome) :
    (s.offer k m o).outbox = s.outbox := by
  unfold offer; split <;> rfl
@[simp] theorem offer_locks (m : OutboxRow) (o : PublishOutcome) :
    (s.offer k m o).locks = s.locks := by
  unfold offer; split <;> rfl
@[simp] theorem offer_passes (m : OutboxRow) (o : PublishOutcome) :
    (s.offer k m o).passes = s.passes := by
  unfold offer; split <;> rfl

theorem offer_accepted (m : OutboxRow) (o : PublishOutcome) :
    (s.offer k m o).accepted = s.accepted ++
      if o.isAccepted then [⟨k, m.id, m.eventType, m.payload, o.isPublished⟩] else [] := by
  unfold offer; split <;> simp

end RelayState

/-- The steps of `relayMachine`, one case for each thing that can happen. -/
inductive RelayTrans (batchSize : ℕ → ℕ) (s : RelayState) : RelayLabel → RelayState → Prop
  | lock {k : ℕ} {order : List UUID} (h : s.passes k = .start)
    (horder : isSnapshotOrder s.outbox order = true) :
    RelayTrans batchSize s (.pass k (.lock order))
      ((s.lock k (lockUnpublished s.outbox s.isLocked order (batchSize k))).setPass k
        (.publishing [] (lockUnpublished s.outbox s.isLocked order (batchSize k)) 0))
  | publish {k : ℕ} {done todo : List OutboxRow} {m : OutboxRow} {n : ℕ} {o : PublishOutcome}
    (h : s.passes k = .publishing done (m :: todo) n) :
    RelayTrans batchSize s (.pass k (.publish o))
      ((s.offer k m o).setPass k (.publishing (done ++ [m.afterPublish o]) todo
        (n + if o.isPublished then 1 else 0)))
  | commit {k : ℕ} {done : List OutboxRow} {n : ℕ} (h : s.passes k = .publishing done [] n) :
    RelayTrans batchSize s (.pass k .commit)
      (({ s with outbox := writeRows s.outbox done }.unlock k).setPass k (.committed n))
  | abort {k : ℕ} (h : s.passes k = .start ∨ ∃ done todo n, s.passes k = .publishing done todo n) :
    RelayTrans batchSize s (.pass k .abort) ((s.unlock k).setPass k .aborted)
  | insert {row : OutboxRow} (hnew : row.publishedAt = none)
    (hfresh : ∀ r ∈ s.outbox, r.id ≠ row.id) :
    RelayTrans batchSize s (.insert row) { s with outbox := s.outbox ++ [row] }

theorem passStep_trans {batchSize : ℕ → ℕ} {s s' : RelayState} {k : ℕ} {act : PassAct}
    (h : passStep batchSize s k act = some s') : RelayTrans batchSize s (.pass k act) s' := by
  cases act with
  | lock order =>
    simp only [passStep] at h
    split at h
    · rename_i hpc
      split_ifs at h with horder
      cases h
      exact .lock hpc horder
    · cases h
  | publish o =>
    simp only [passStep] at h
    split at h
    · rename_i hpc
      cases h
      exact .publish hpc
    · cases h
  | commit =>
    simp only [passStep] at h
    split at h
    · rename_i hpc
      cases h
      exact .commit hpc
    · cases h
  | abort =>
    simp only [passStep] at h
    split at h
    · rename_i hpc
      cases h
      exact .abort (.inl hpc)
    · rename_i hpc
      cases h
      exact .abort (.inr ⟨_, _, _, hpc⟩)
    · cases h

/-- A step of a pass is none of another. -/
theorem passStep_passes {batchSize : ℕ → ℕ} {s s' : RelayState} {k : ℕ} {act : PassAct}
    (h : passStep batchSize s k act = some s') {j : ℕ} (hj : j ≠ k) :
    s'.passes j = s.passes j := by
  cases passStep_trans h with
  | publish hk =>
    rw [RelayState.setPass_passes, RelayState.offer_passes, Function.update_of_ne hj]
  | _ => exact Function.update_of_ne hj _ _

theorem relayMachine_trans {batchSize : ℕ → ℕ} {s s' : RelayState} {a : RelayLabel}
    (h : (relayMachine batchSize).step s a = some s') : RelayTrans batchSize s a s' := by
  cases a with
  | pass k act => exact passStep_trans h
  | insert row =>
    simp only [relayMachine] at h
    split_ifs at h with hrow
    cases h
    rw [not_or, not_not] at hrow
    exact .insert hrow.1 (by simpa using hrow.2)

/-! ## The batch -/

section

variable {outbox : List OutboxRow} {isLocked : UUID → Bool} {order : List UUID} {batchSize : ℕ}

theorem ids_rowsIn_sublist (outbox : List OutboxRow) :
    ∀ order : List UUID, ((rowsIn outbox order).map OutboxRow.id).Sublist order
  | [] => List.Sublist.slnil
  | id :: ids => by
    have ih := ids_rowsIn_sublist outbox ids
    unfold rowsIn at ih ⊢
    rw [List.filterMap_cons]
    split
    · exact ih.cons _
    · rename_i r hf
      have hid : r.id = id := by simpa using List.find?_some hf
      rw [List.map_cons, hid]
      exact ih.cons_cons _

theorem nodup_rowsIn (horder : isSnapshotOrder outbox order = true) :
    ((rowsIn outbox order).map OutboxRow.id).Nodup := by
  unfold isSnapshotOrder at horder
  simp only [Bool.and_eq_true, decide_eq_true_eq] at horder
  exact horder.1.sublist (ids_rowsIn_sublist outbox order)

theorem nodup_lockUnpublished (isLocked : UUID → Bool) (batchSize : ℕ)
    (horder : isSnapshotOrder outbox order = true) :
    ((lockUnpublished outbox isLocked order batchSize).map OutboxRow.id).Nodup :=
  (nodup_rowsIn horder).sublist (((List.take_sublist _ _).trans List.filter_sublist).map _)

theorem mem_lockUnpublished {m : OutboxRow}
    (h : m ∈ lockUnpublished outbox isLocked order batchSize) :
    m ∈ outbox ∧ m.publishedAt = none ∧ isLocked m.id = false := by
  obtain ⟨hm, hfree⟩ := List.mem_filter.1 (List.mem_of_mem_take h)
  obtain ⟨id, -, hf⟩ := List.mem_filterMap.1 hm
  exact ⟨List.mem_of_find?_eq_some hf, by simpa using hfree⟩

end

/-- A message to run things on, and another. -/
def sampleMessage : OutboxRow :=
  ⟨2, 1, "payment.created", [], 10, none, 0, none⟩

def otherMessage : OutboxRow := { sampleMessage with id := 3, createdAt := 11 }

example : (lockUnpublished [otherMessage, sampleMessage] (fun _ => false)
    [sampleMessage.id, otherMessage.id] 1).map OutboxRow.id = [sampleMessage.id] := by decide

/-! ## What a publish makes of a message -/

namespace OutboxRow

variable (m : OutboxRow) (o : PublishOutcome)

@[simp] theorem afterPublish_id : (m.afterPublish o).id = m.id := by cases o <;> rfl
@[simp] theorem afterPublish_eventType : (m.afterPublish o).eventType = m.eventType := by
  cases o <;> rfl
@[simp] theorem afterPublish_payload : (m.afterPublish o).payload = m.payload := by cases o <;> rfl
@[simp] theorem afterPublish_aggregateId : (m.afterPublish o).aggregateId = m.aggregateId := by
  cases o <;> rfl
@[simp] theorem afterPublish_createdAt : (m.afterPublish o).createdAt = m.createdAt := by
  cases o <;> rfl

theorem afterPublish_published {m : OutboxRow} (h : m.publishedAt = none) :
    (m.afterPublish o).publishedAt.isSome = o.isPublished := by
  cases o <;> simp [afterPublish, PublishOutcome.isPublished, h]

end OutboxRow

/-! ## Writing rows back -/

section

variable {outbox done : List OutboxRow} {r d : OutboxRow}

theorem mem_writeRows (h : d ∈ writeRows outbox done) :
    (d ∈ outbox ∧ ∀ c ∈ done, c.id ≠ d.id) ∨ (d ∈ done ∧ ∃ r ∈ outbox, r.id = d.id) := by
  obtain ⟨r, hr, he⟩ := List.mem_map.1 h
  rcases hf : done.find? fun m => m.id = r.id with _ | c
  · rw [hf, Option.getD_none] at he
    subst he
    exact .inl ⟨hr, fun c hc hid => by simpa [hid] using List.find?_eq_none.1 hf c hc⟩
  · rw [hf, Option.getD_some] at he
    subst he
    have hid : c.id = r.id := by simpa using List.find?_some hf
    exact .inr ⟨List.mem_of_find?_eq_some hf, r, hr, hid.symm⟩

/-- A row no changed row stands for stays. -/
theorem mem_writeRows_of_unchanged (hr : r ∈ outbox) (h : ∀ c ∈ done, c.id ≠ r.id) :
    r ∈ writeRows outbox done := by
  refine List.mem_map.2 ⟨r, hr, ?_⟩
  rw [List.find?_eq_none.2 fun c hc => by simpa using h c hc]
  rfl

/-- A changed row takes the place of its row. -/
theorem mem_writeRows_of_changed (hdone : (done.map OutboxRow.id).Nodup) (hr : r ∈ outbox)
    (hd : d ∈ done) (hid : d.id = r.id) : d ∈ writeRows outbox done := by
  refine List.mem_map.2 ⟨r, hr, ?_⟩
  rcases hf : done.find? fun m => m.id = r.id with _ | c
  · simpa [hid] using List.find?_eq_none.1 hf d hd
  · have hc : c.id = r.id := by simpa using List.find?_some hf
    rw [hf, Option.getD_some]
    exact List.inj_on_of_nodup_map hdone (List.mem_of_find?_eq_some hf) hd (hc.trans hid.symm)

theorem ids_writeRows (outbox done : List OutboxRow) :
    (writeRows outbox done).map OutboxRow.id = outbox.map OutboxRow.id := by
  rw [writeRows, List.map_map]
  refine List.map_congr_left fun r _ => ?_
  rw [Function.comp_apply]
  rcases hf : done.find? fun m => m.id = r.id with _ | c
  · rw [hf]
    rfl
  · rw [hf]
    simpa using List.find?_some hf

end

end PaymentService
