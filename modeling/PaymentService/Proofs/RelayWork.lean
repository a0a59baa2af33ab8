import PaymentService.Proofs.Blocking
import PaymentService.Proofs.RelayInv
import PaymentService.Lib.Amortized

/-!
# What the passes have left to do

A row that waits has still to be locked, published and written back, and what it publishes is work
for others. A pass with rows takes from that at every step, if each of its publishes returns
(`work_passStep`), and while a row is unpublished some pass can go on (`exists_passStep`): a row is
locked by a pass under way, or a new pass can take it.
-/

namespace PaymentService

open Python Labelled Amortized

/-! ## The potential -/

/-- The rows that wait for a pass: unpublished, and locked by none. -/
def RelayState.freeIds (s : RelayState) : Finset UUID :=
  (pendingIds s.outbox).filter fun id => s.isLocked id = false

/-- What a pass has left to do, where a message it publishes brings `c`; a row whose publish raised
waits again after the commit. -/
def passWork (c : ℕ) : PassPc → ℕ
  | .publishing done todo _ =>
    done.length + (done.countP fun d => d.publishedAt = none) * (c + 3) + todo.length * (c + 2)
  | .start | .committed _ | .aborted => 0

/-- What the rows that wait and some passes have left to do. -/
def RelayState.work (c : ℕ) (U : Finset ℕ) (s : RelayState) : ℕ :=
  s.freeIds.card * (c + 3) + ∑ k ∈ U, passWork c (s.passes k)

def PassPc.hasRows : PassPc → Bool
  | publishing done todo _ => !done.isEmpty || !todo.isEmpty
  | start | committed _ | aborted => false

/-- What the messages bring that the step hands to the broker. -/
def PassAct.brings (c : ℕ) : PassAct → ℕ
  | .publish _ => c
  | .lock _ | .commit | .abort => 0

/-- No publish raises, and neither does the pass. -/
def PassAct.goesWell : PassAct → Bool
  | .publish outcome => outcome.isPublished
  | .lock _ | .commit => true
  | .abort => false

section

variable {s s' : RelayState} {c k : ℕ} {U : Finset ℕ} {done todo batch : List OutboxRow}

theorem mem_freeIds {id : UUID} : id ∈ s.freeIds ↔
    (∃ r ∈ s.outbox, r.publishedAt = none ∧ r.id = id) ∧ s.isLocked id = false := by
  rw [RelayState.freeIds, Finset.mem_filter, mem_pendingIds]

theorem isLocked_eq_false {id : UUID} : s.isLocked id = false ↔ ∀ k, RowLock.mk k id ∉ s.locks := by
  simp only [RelayState.isLocked, List.any_eq_false, decide_eq_true_eq]
  refine ⟨fun h k hk => h _ hk rfl, fun h l hl hid => h l.pass ?_⟩
  rwa [← hid]

theorem freeIds_congr (houtbox : s'.outbox = s.outbox) (hlocks : s'.locks = s.locks) :
    s'.freeIds = s.freeIds := by
  ext id
  rw [mem_freeIds, mem_freeIds, houtbox, RelayState.isLocked, RelayState.isLocked, hlocks]

/-- A step of one pass, which may hand rows from the free ones to the pass or back. -/
theorem work_setPass {pc : PassPc} {n : ℕ} (hk : k ∈ U)
    (hpasses : s'.passes = Function.update s.passes k pc)
    (h : n + s'.freeIds.card * (c + 3) + passWork c pc ≤
      s.freeIds.card * (c + 3) + passWork c (s.passes k)) :
    n + s'.work c U ≤ s.work c U := by
  have hsum := sum_update (passWork c) s.passes hk pc
  rw [RelayState.work, RelayState.work, hpasses]
  omega

/-- The rows of a new batch were free, and are not. -/
theorem card_freeIds_lock (hnodup : (batch.map OutboxRow.id).Nodup)
    (hbatch : ∀ m ∈ batch, m ∈ s.outbox ∧ m.publishedAt = none ∧ s.isLocked m.id = false)
    (k : ℕ) : (s.lock k batch).freeIds.card + batch.length = s.freeIds.card := by
  set ids := (batch.map OutboxRow.id).toFinset with hids
  have hfree : (s.lock k batch).freeIds = s.freeIds \ ids := by
    ext id
    have hlocked : (s.lock k batch).isLocked id = false ↔
        s.isLocked id = false ∧ id ∉ batch.map OutboxRow.id := by
      simp [RelayState.isLocked, RelayState.lock, List.any_append]
    rw [Finset.mem_sdiff, hids, List.mem_toFinset, mem_freeIds, mem_freeIds, hlocked, and_assoc]
    rfl
  have hsub : ids ⊆ s.freeIds := by
    intro id hid
    obtain ⟨m, hm, rfl⟩ := List.mem_map.1 (List.mem_toFinset.1 hid)
    obtain ⟨hrow, hnone, hnot⟩ := hbatch m hm
    exact mem_freeIds.2 ⟨⟨m, hrow, hnone, rfl⟩, hnot⟩
  have hcard : ids.card = batch.length := by
    rw [hids, List.toFinset_card_of_nodup hnodup, List.length_map]
  rw [hfree, ← hcard, Finset.card_sdiff_add_card_eq_card hsub]

/-- After a commit the rows whose publish raised are free. -/
theorem card_freeIds_commit (hheld : Holds s k done [] n) :
    ({ s with outbox := writeRows s.outbox done }.unlock k).freeIds.card ≤
      s.freeIds.card + done.countP fun d => d.publishedAt = none := by
  set failed := (done.filter fun d => d.publishedAt = none).map OutboxRow.id with hfailed
  have hsub : ({ s with outbox := writeRows s.outbox done }.unlock k).freeIds ⊆
      s.freeIds ∪ failed.toFinset := by
    intro id hid
    obtain ⟨⟨r, hr, hnone, rfl⟩, hnot⟩ := mem_freeIds.1 hid
    rw [Finset.mem_union, List.mem_toFinset]
    rcases mem_writeRows hr with ⟨hrow, hother⟩ | ⟨hdone, -⟩
    · refine .inl (mem_freeIds.2 ⟨⟨r, hrow, hnone, rfl⟩, isLocked_eq_false.2 fun j hj => ?_⟩)
      by_cases hjk : j = k
      · rw [hjk, hheld.locks, List.append_nil] at hj
        obtain ⟨d, hd, hdid⟩ := List.mem_map.1 hj
        exact hother d hd hdid
      · exact isLocked_eq_false.1 hnot j (mem_unlock.2 ⟨hj, hjk⟩)
    · exact .inr (List.mem_map.2 ⟨r, List.mem_filter.2 ⟨hdone, by simpa using hnone⟩, rfl⟩)
  have hcard : failed.toFinset.card ≤ done.countP fun d => d.publishedAt = none := by
    refine (List.toFinset_card_le _).trans_eq ?_
    rw [hfailed, List.length_map, List.countP_eq_length_filter]
  exact (Finset.card_le_card hsub).trans ((Finset.card_union_le _ _).trans
    (Nat.add_le_add_left hcard _))

theorem work_lock (hpc : s.passes k = .start) (hk : k ∈ U)
    (hnodup : (batch.map OutboxRow.id).Nodup)
    (hbatch : ∀ m ∈ batch, m ∈ s.outbox ∧ m.publishedAt = none ∧ s.isLocked m.id = false) :
    (if (PassPc.publishing [] batch 0).hasRows then 1 else 0)
        + ((s.lock k batch).setPass k (.publishing [] batch 0)).work c U ≤ s.work c U := by
  have hcard := card_freeIds_lock hnodup hbatch k
  have hrows : (if (PassPc.publishing [] batch 0).hasRows then 1 else 0) ≤ batch.length := by
    cases batch <;> simp [PassPc.hasRows]
  refine work_setPass hk rfl ?_
  rw [hpc]
  change _ + (s.lock k batch).freeIds.card * (c + 3) + (0 + 0 * (c + 3) + batch.length * (c + 2)) ≤
    s.freeIds.card * (c + 3) + 0
  rw [← hcard, Nat.add_mul, Nat.mul_add batch.length c 3, Nat.mul_add batch.length c 2]
  omega

theorem work_publish {m : OutboxRow} {n : ℕ} {outcome : PublishOutcome} (hinv : RelayInv s)
    (hpc : s.passes k = .publishing done (m :: todo) n) (hk : k ∈ U)
    (hpublished : outcome.isPublished = true) :
    1 + c + ((s.offer k m outcome).setPass k (.publishing (done ++ [m.afterPublish outcome]) todo
      (n + if outcome.isPublished then 1 else 0))).work c U ≤ s.work c U := by
  have hnone := ((hinv.live k _ _ _ hpc).waiting m List.mem_cons_self).2
  have hsome : (m.afterPublish outcome).publishedAt ≠ none := by
    rw [← Option.isSome_iff_ne_none, OutboxRow.afterPublish_published _ hnone, hpublished]
  refine work_setPass hk (by rw [RelayState.setPass_passes, RelayState.offer_passes]) ?_
  rw [hpc, freeIds_congr (s := s) (by simp) (by simp)]
  simp only [passWork, List.length_append, List.length_cons, List.length_nil, List.countP_append,
    List.countP_cons, List.countP_nil, hsome, decide_false, Bool.false_eq_true, if_false,
    Nat.add_mul]
  omega

theorem work_commit {n : ℕ} (hinv : RelayInv s) (hpc : s.passes k = .publishing done [] n)
    (hk : k ∈ U) :
    (if (PassPc.publishing done [] n).hasRows then 1 else 0)
        + (({ s with outbox := writeRows s.outbox done }.unlock k).setPass k
          (.committed n)).work c U ≤ s.work c U := by
  have hcard := card_freeIds_commit (hinv.live k _ _ _ hpc)
  have hrows : (if (PassPc.publishing done [] n).hasRows then 1 else 0) ≤ done.length := by
    cases done <;> simp [PassPc.hasRows]
  refine work_setPass hk rfl ?_
  rw [hpc]
  change _ + ({ s with outbox := writeRows s.outbox done }.unlock k).freeIds.card * (c + 3) + 0 ≤
    s.freeIds.card * (c + 3) + (done.length
      + (done.countP fun d => d.publishedAt = none) * (c + 3) + 0 * (c + 2))
  have hmul := Nat.mul_le_mul_right (c + 3) hcard
  rw [Nat.add_mul] at hmul
  omega

/-- A pass with rows takes from what is left to do. -/
theorem work_passStep {batchSize : ℕ → ℕ} {act : PassAct} (hinv : RelayInv s) (hk : k ∈ U)
    (hwell : act.goesWell = true) (h : passStep batchSize s k act = some s') :
    (if (s.passes k).hasRows || (s'.passes k).hasRows then 1 else 0) + act.brings c + s'.work c U ≤
      s.work c U := by
  cases passStep_trans h with
  | lock hpc horder =>
    have hstep := work_lock (c := c) hpc hk (nodup_lockUnpublished s.isLocked (batchSize k) horder)
      fun _ => mem_lockUnpublished
    rw [hpc, RelayState.setPass_passes, Function.update_self]
    exact hstep
  | @publish _ done todo m n outcome hpc =>
    have hstep := work_publish (c := c) hinv hpc hk hwell
    rw [hpc]
    simpa [PassPc.hasRows, PassAct.brings] using hstep
  | commit hpc =>
    have hstep := work_commit (c := c) hinv hpc hk
    rw [hpc, RelayState.setPass_passes, Function.update_self, PassPc.hasRows,
      PassPc.hasRows, Bool.or_false]
    exact hstep
  | abort hpc => cases hwell

/-! ## Going on -/

/-- While a row is unpublished, a pass with rows can go on, or a new one takes rows. -/
theorem exists_passStep {batchSize : ℕ → ℕ} (hinv : RelayInv s) {m : OutboxRow}
    (hm : m ∈ s.outbox) (hnone : m.publishedAt = none) (hk : s.passes k = .start)
    (hbatch : 0 < batchSize k) :
    ∃ j act s', passStep batchSize s j act = some s' ∧ act.goesWell = true
      ∧ ((s.passes j).hasRows || (s'.passes j).hasRows) = true := by
  by_cases hlocked : s.isLocked m.id = true
  · obtain ⟨l, hl, hid⟩ := List.any_eq_true.1 hlocked
    obtain ⟨done, todo, n, hpc⟩ := hinv.held l hl
    have hmem := ((hinv.live _ _ _ _ hpc).locks l.id).1 hl
    rcases todo with _ | ⟨r, todo⟩
    · refine ⟨l.pass, .commit, _, by simp only [passStep, hpc]; rfl, rfl, ?_⟩
      rw [hpc]
      cases done with
      | nil => simp at hmem
      | cons d done => rfl
    · refine ⟨l.pass, .publish (.published 0), _, by simp only [passStep, hpc]; rfl, rfl, ?_⟩
      rw [hpc]
      simp [PassPc.hasRows]
  · set order := stuckFirstOrder (fun _ => false) s.outbox
    have htable : isTableOrder s.outbox order = true := isTableOrder_stuckFirst rfl hinv.ids
    have horder := isSnapshotOrder_of_table htable
    refine ⟨k, .lock order, _, by simp only [passStep, hk, horder, if_true]; rfl, rfl, ?_⟩
    have hrow : m ∈ (rowsIn s.outbox order).filter
        fun m => m.publishedAt = none ∧ s.isLocked m.id = false :=
      List.mem_filter.2 ⟨(mem_rowsIn htable hinv.ids).2 hm, by simp [hnone, hlocked]⟩
    have hne : lockUnpublished s.outbox s.isLocked order (batchSize k) ≠ [] := by
      rw [lockUnpublished, ← List.length_pos_iff, List.length_take]
      exact Nat.lt_min.2 ⟨hbatch, List.length_pos_of_mem hrow⟩
    simp [PassPc.hasRows, hne]

end

end PaymentService
