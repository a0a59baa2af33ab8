import PaymentService.Proofs.RelaySteps
import PaymentService.Lib.Batch

/-!
# Messages that are never published

A pass takes the oldest unpublished rows again and again, and a row whose publish always raises
stays among them. The others get through if and only if fewer such rows than a batch holds are as
old as each of them; behind a whole batch of them a row is never taken, whatever their number of
attempts.
-/

namespace PaymentService

open Python Labelled

/-! ## A pass alone is a run of the machine -/

section

variable {B : ℕ → ℕ} {k : ℕ}

theorem publishMessages_fst (publish : OutboxRow → PublishOutcome) :
    ∀ ms : List OutboxRow,
      (publishMessages publish ms).1 = ms.map fun m => m.afterPublish (publish m)
  | [] => rfl
  | m :: ms => by simp only [publishMessages, publishMessages_fst publish ms, List.map_cons]

/-- The publishes of a pass, one after another. -/
theorem run_publishes (publish : OutboxRow → PublishOutcome) :
    ∀ {todo done : List OutboxRow} {n : ℕ} {s : RelayState},
      s.passes k = .publishing done todo n →
      ∃ s', (relayMachine B).run s (todo.map fun m => .pass k (.publish (publish m)))
          = some s' ∧ s'.outbox = s.outbox ∧ s'.locks = s.locks ∧
        s'.passes k = .publishing (done ++ (publishMessages publish todo).1) []
          (n + (publishMessages publish todo).2)
  | [], done, n, s, h => ⟨s, rfl, rfl, rfl, by simpa [publishMessages] using h⟩
  | m :: todo, done, n, s, h => by
    have hnext : ((s.offer k m (publish m)).setPass k (.publishing
        (done ++ [m.afterPublish (publish m)]) todo
        (n + if (publish m).isPublished then 1 else 0))).passes k = _ := Function.update_self _ _ _
    obtain ⟨s', hrun, hout, hlocks, hpc⟩ := run_publishes publish hnext
    refine ⟨s', ?_, by simpa using hout, by simpa using hlocks, ?_⟩
    · rw [List.map_cons, Machine.run_cons]
      exact ⟨_, by simp only [relayMachine, passStep, h], hrun⟩
    · rw [hpc]
      simp [publishMessages, Nat.add_assoc]

/-- The steps of a pass over a batch. -/
def passAlone (k : ℕ) (publish : OutboxRow → PublishOutcome) (order : List UUID)
    (batch : List OutboxRow) : List RelayLabel :=
  .pass k (.lock order) :: (batch.map fun m => .pass k (.publish (publish m))) ++ [.pass k .commit]

/-- `publishBatch` is what the steps of a pass with the table to itself come to. -/
theorem publishBatch_run (publish : OutboxRow → PublishOutcome) {order : List UUID}
    {s : RelayState} (hk : s.passes k = .start) (hlocks : s.locks = [])
    (horder : isSnapshotOrder s.outbox order = true) :
    ∃ s', (relayMachine B).run s (passAlone k publish order
        (lockUnpublished s.outbox (fun _ => false) order (B k))) = some s' ∧
      s'.outbox = (publishBatch (B k) publish order s.outbox).1 ∧
      s'.passes k = .committed (publishBatch (B k) publish order s.outbox).2 ∧
      s'.locks = [] := by
  have hfree : s.isLocked = fun _ => false := by
    funext id
    simp [RelayState.isLocked, hlocks]
  have hlock : (relayMachine B).step s (.pass k (.lock order))
      = some ((s.lock k (lockUnpublished s.outbox (fun _ => false) order (B k))).setPass k
        (.publishing [] (lockUnpublished s.outbox (fun _ => false) order (B k)) 0)) := by
    simp only [relayMachine, passStep, hk, horder, if_true, hfree]
  unfold publishBatch
  generalize lockUnpublished s.outbox (fun _ => false) order (B k) = batch at hlock ⊢
  have hstart : ((s.lock k batch).setPass k (.publishing [] batch 0)).passes k = _ :=
    Function.update_self _ _ _
  obtain ⟨s₁, hrun, hout, hlocks₁, hpc⟩ := run_publishes (B := B) publish hstart
  rw [List.nil_append, Nat.zero_add] at hpc
  refine ⟨(({ s₁ with outbox := writeRows s₁.outbox (publishMessages publish batch).1 }.unlock
    k).setPass k (.committed (publishMessages publish batch).2)), ?_, ?_, ?_, ?_⟩
  · rw [passAlone, Machine.run_append]
    refine ⟨s₁, Machine.run_cons.2 ⟨_, hlock, hrun⟩, Machine.run_cons.2 ⟨_, ?_, rfl⟩⟩
    simp only [relayMachine, passStep, hpc]
  · exact congrArg (writeRows · (publishMessages publish batch).1) hout
  · exact Function.update_self _ _ _
  · have hall : s₁.locks = batch.map fun m => RowLock.mk k m.id := by
      rw [hlocks₁]
      simp [RelayState.lock, hlocks]
    simp [RelayState.unlock, hall]

end

/-! ## One pass over the pending rows -/

/-- The ids of the rows not yet published. -/
def pendingIds (outbox : List OutboxRow) : Finset UUID :=
  ((outbox.filter fun r => r.publishedAt = none).map OutboxRow.id).toFinset

/-- The ids of the rows a pass fetches. -/
def fetchedIds (batchSize : ℕ) (order : List UUID) (outbox : List OutboxRow) : List UUID :=
  (lockUnpublished outbox (fun _ => false) order batchSize).map OutboxRow.id

/-- The tables have rows of the same ids and times. -/
def SameRows (outbox rows : List OutboxRow) : Prop :=
  rows.map (fun r => (r.id, r.createdAt)) = outbox.map fun r => (r.id, r.createdAt)

/-- When the row of an id was created. -/
def createdAtOf (outbox : List OutboxRow) (id : UUID) : ℤ :=
  ((outbox.find? fun r => r.id = id).map OutboxRow.createdAt).getD 0

section

variable {outbox rows : List OutboxRow} {order : List UUID} {batchSize : ℕ}
  {publish : OutboxRow → PublishOutcome}

theorem mem_pendingIds {id : UUID} :
    id ∈ pendingIds outbox ↔ ∃ r ∈ outbox, r.publishedAt = none ∧ r.id = id := by
  simp [pendingIds, and_assoc]

theorem SameRows.ids (h : SameRows outbox rows) :
    rows.map OutboxRow.id = outbox.map OutboxRow.id := by
  simpa [Function.comp_def] using congrArg (List.map Prod.fst) h

theorem find?_id (hids : (outbox.map OutboxRow.id).Nodup) {r : OutboxRow} (hr : r ∈ outbox) :
    (outbox.find? fun m => m.id = r.id) = some r := by
  rcases hf : outbox.find? fun m => m.id = r.id with _ | m
  · simpa using List.find?_eq_none.1 hf r hr
  · have hid : m.id = r.id := by simpa using List.find?_some hf
    rw [hf, List.inj_on_of_nodup_map hids (List.mem_of_find?_eq_some hf) hr hid]

theorem createdAtOf_eq (hids : (outbox.map OutboxRow.id).Nodup) {r : OutboxRow}
    (hr : r ∈ outbox) : createdAtOf outbox r.id = r.createdAt := by
  rw [createdAtOf, find?_id hids hr]
  rfl

theorem SameRows.createdAtOf (h : SameRows outbox rows) (hids : (outbox.map OutboxRow.id).Nodup)
    {r : OutboxRow} (hr : r ∈ rows) : createdAtOf outbox r.id = r.createdAt := by
  have hmem : (r.id, r.createdAt) ∈ outbox.map fun r => (r.id, r.createdAt) :=
    h ▸ List.mem_map_of_mem hr
  obtain ⟨m, hm, he⟩ := List.mem_map.1 hmem
  rw [Prod.mk.injEq] at he
  rw [← he.1, createdAtOf_eq hids hm, he.2]

theorem sameRows_writeRows {done : List OutboxRow}
    (hdone : ∀ d ∈ done, ∃ r ∈ outbox, r.id = d.id ∧ r.createdAt = d.createdAt)
    (hids : (outbox.map OutboxRow.id).Nodup) : SameRows outbox (writeRows outbox done) := by
  unfold SameRows writeRows
  rw [List.map_map]
  refine List.map_congr_left fun r hr => ?_
  rw [Function.comp_apply]
  rcases hf : done.find? fun m => m.id = r.id with _ | d
  · rw [hf]
    rfl
  · have hid : d.id = r.id := by simpa using List.find?_some hf
    obtain ⟨r', hr', hrid, hcreated⟩ := hdone d (List.mem_of_find?_eq_some hf)
    rw [List.inj_on_of_nodup_map hids hr' hr (hrid.trans hid)] at hcreated
    rw [hf, Option.getD_some, hid, hcreated]

theorem publishBatch_fst : (publishBatch batchSize publish order outbox).1 = writeRows outbox
    ((lockUnpublished outbox (fun _ => false) order batchSize).map
      fun m => m.afterPublish (publish m)) := by
  simp only [publishBatch, publishMessages_fst]

theorem sameRows_publishBatch (hids : (outbox.map OutboxRow.id).Nodup) :
    SameRows outbox (publishBatch batchSize publish order outbox).1 := by
  rw [publishBatch_fst]
  refine sameRows_writeRows (fun d hd => ?_) hids
  obtain ⟨m, hm, rfl⟩ := List.mem_map.1 hd
  exact ⟨m, (mem_lockUnpublished hm).1, by simp, by simp⟩

/-- A row after a pass: as its publish left it if the pass fetched it. -/
theorem mem_publishBatch (batchSize : ℕ) (publish : OutboxRow → PublishOutcome)
    (hids : (outbox.map OutboxRow.id).Nodup) (horder : isSnapshotOrder outbox order = true)
    {r : OutboxRow} (hr : r ∈ outbox) :
    (r.id ∈ fetchedIds batchSize order outbox ∧ r.publishedAt = none ∧
        r.afterPublish (publish r) ∈ (publishBatch batchSize publish order outbox).1) ∨
      (r.id ∉ fetchedIds batchSize order outbox ∧
        r ∈ (publishBatch batchSize publish order outbox).1) := by
  rw [publishBatch_fst]
  by_cases hf : r.id ∈ fetchedIds batchSize order outbox
  · obtain ⟨m, hm, hid⟩ := List.mem_map.1 hf
    obtain ⟨hmem, hnone, -⟩ := mem_lockUnpublished hm
    obtain rfl := List.inj_on_of_nodup_map hids hmem hr hid
    have hdone : (((lockUnpublished outbox (fun _ => false) order batchSize).map
        fun m => m.afterPublish (publish m)).map OutboxRow.id).Nodup := by
      simpa [Function.comp_def] using nodup_lockUnpublished (fun _ => false) batchSize horder
    exact .inl ⟨hf, hnone, mem_writeRows_of_changed hdone hmem (List.mem_map_of_mem hm) (by simp)⟩
  · refine .inr ⟨hf, mem_writeRows_of_unchanged hr fun c hc hid => hf ?_⟩
    obtain ⟨m, hm, rfl⟩ := List.mem_map.1 hc
    rw [OutboxRow.afterPublish_id] at hid
    exact hid ▸ List.mem_map_of_mem hm

/-- The pending ids in the order of a pass. -/
def pendingOrder (order : List UUID) (outbox : List OutboxRow) : List UUID :=
  ((rowsIn outbox order).filter fun m => m.publishedAt = none).map OutboxRow.id

theorem fetchedIds_eq : fetchedIds batchSize order outbox
    = (pendingOrder order outbox).take batchSize := by
  simp [fetchedIds, pendingOrder, lockUnpublished, List.map_take]

theorem nodup_pendingOrder (horder : isSnapshotOrder outbox order = true) :
    (pendingOrder order outbox).Nodup :=
  (nodup_rowsIn horder).sublist (List.filter_sublist.map _)

theorem mem_rowsIn (htable : isTableOrder outbox order = true)
    (hids : (outbox.map OutboxRow.id).Nodup) {r : OutboxRow} :
    r ∈ rowsIn outbox order ↔ r ∈ outbox := by
  unfold rowsIn
  rw [List.mem_filterMap]
  constructor
  · rintro ⟨id, -, hf⟩
    exact List.mem_of_find?_eq_some hf
  · intro hr
    unfold isTableOrder at htable
    rw [Bool.and_eq_true, List.all_eq_true] at htable
    exact ⟨r.id, by simpa using htable.2 r hr, find?_id hids hr⟩

theorem toFinset_pendingOrder (htable : isTableOrder outbox order = true)
    (hids : (outbox.map OutboxRow.id).Nodup) :
    (pendingOrder order outbox).toFinset = pendingIds outbox := by
  ext id
  simp [pendingOrder, mem_pendingIds, mem_rowsIn htable hids, and_assoc]

/-- What a pass fetches is a batch of the oldest pending rows. -/
theorem isOldest_fetchedIds {first : List OutboxRow} (hsame : SameRows first outbox)
    (hfirst : (first.map OutboxRow.id).Nodup) (htable : isTableOrder outbox order = true) :
    Batch.IsOldest (createdAtOf first) batchSize (pendingIds outbox)
      (fetchedIds batchSize order outbox).toFinset := by
  have hids : (outbox.map OutboxRow.id).Nodup := hsame.ids ▸ hfirst
  have horder : isSnapshotOrder outbox order = true := by
    unfold isTableOrder at htable
    exact (Bool.and_eq_true_iff.1 htable).1
  rw [fetchedIds_eq, ← toFinset_pendingOrder htable hids]
  refine Batch.isOldest_take (nodup_pendingOrder horder) ?_
  unfold isSnapshotOrder at horder
  simp only [Bool.and_eq_true, decide_eq_true_eq, List.pairwise_map] at horder
  rw [pendingOrder, List.pairwise_map]
  refine List.Pairwise.sublist List.filter_sublist (horder.2.imp_of_mem fun {a b} ha hb hab => ?_)
  rw [mem_rowsIn htable hids] at ha hb
  rwa [hsame.createdAtOf hfirst ha, hsame.createdAtOf hfirst hb]

/-- Of the rows a pass fetches, those whose publish raises stay pending. -/
theorem pendingIds_publishBatch {stuck : UUID → Bool} (hids : (outbox.map OutboxRow.id).Nodup)
    (horder : isSnapshotOrder outbox order = true)
    (hstuck : ∀ m, (publish m).isPublished = !stuck m.id) :
    pendingIds (publishBatch batchSize publish order outbox).1
      = Batch.remaining (fun id => stuck id = true) (pendingIds outbox)
        (fetchedIds batchSize order outbox).toFinset := by
  have hafter : ∀ {m : OutboxRow}, m.publishedAt = none →
      ((m.afterPublish (publish m)).publishedAt = none ↔ stuck m.id = true) := by
    intro m hm
    have := OutboxRow.afterPublish_published (publish m) hm
    rw [hstuck] at this
    rw [← Option.not_isSome_iff_eq_none, this]
    simp
  have hids' : ((publishBatch batchSize publish order outbox).1.map OutboxRow.id).Nodup :=
    (sameRows_publishBatch hids).ids ▸ hids
  ext id
  simp only [Batch.remaining, Finset.mem_filter, mem_pendingIds, List.mem_toFinset]
  constructor
  · rintro ⟨r', hr', hnone, rfl⟩
    have hmem : r'.id ∈ outbox.map OutboxRow.id :=
      (sameRows_publishBatch hids).ids ▸ List.mem_map_of_mem hr'
    obtain ⟨r, hr, hid⟩ := List.mem_map.1 hmem
    rcases mem_publishBatch batchSize publish hids horder hr with
      ⟨hf, hrnone, hr₁⟩ | ⟨hf, hr₁⟩
    · obtain rfl := List.inj_on_of_nodup_map hids' hr₁ hr' (by simpa using hid)
      exact ⟨⟨r, hr, hrnone, hid⟩, fun _ => by simpa using (hafter hrnone).1 hnone⟩
    · obtain rfl := List.inj_on_of_nodup_map hids' hr₁ hr' hid
      exact ⟨⟨r, hr, hnone, rfl⟩, fun h => absurd h hf⟩
  · rintro ⟨⟨r, hr, hnone, rfl⟩, hkept⟩
    rcases mem_publishBatch batchSize publish hids horder hr with
      ⟨hf, -, hr₁⟩ | ⟨-, hr₁⟩
    · exact ⟨_, hr₁, (hafter hnone).2 (hkept hf), by simp⟩
    · exact ⟨r, hr₁, hnone, rfl⟩

end

/-! ## Pass after pass -/

/-- One relay has the table to itself: each pass sees all rows, and a publish raises exactly for
the stuck ones. -/
structure Alone (batchSize : ℕ) (stuck : UUID → Bool) (publish : ℕ → OutboxRow → PublishOutcome)
    (orders : ℕ → List UUID) (outbox : List OutboxRow) : Prop where
  publishes : ∀ i m, (publish i m).isPublished = !stuck m.id
  orders : ∀ i, isTableOrder (tableAfter batchSize publish orders outbox i) (orders i) = true

/-- How many stuck rows are at least as old as a row. -/
def stuckAhead (stuck : UUID → Bool) (outbox : List OutboxRow) (g : OutboxRow) : ℕ :=
  outbox.countP fun b => stuck b.id = true ∧ b.createdAt ≤ g.createdAt

/-- In how many of the first passes a row was fetched. -/
def timesFetched (batchSize : ℕ) (publish : ℕ → OutboxRow → PublishOutcome)
    (orders : ℕ → List UUID) (outbox : List OutboxRow) (id : UUID) (n : ℕ) : ℕ :=
  (List.range n).countP fun i =>
    id ∈ fetchedIds batchSize (orders i) (tableAfter batchSize publish orders outbox i)

section

variable {batchSize : ℕ} {stuck : UUID → Bool} {publish : ℕ → OutboxRow → PublishOutcome}
  {orders : ℕ → List UUID} {outbox : List OutboxRow}

theorem isSnapshotOrder_of_table {order : List UUID} (h : isTableOrder outbox order = true) :
    isSnapshotOrder outbox order = true := by
  unfold isTableOrder at h
  exact (Bool.and_eq_true_iff.1 h).1

theorem sameRows_tableAfter (batchSize : ℕ) (publish : ℕ → OutboxRow → PublishOutcome)
    (orders : ℕ → List UUID) (hids : (outbox.map OutboxRow.id).Nodup) :
    ∀ i, SameRows outbox (tableAfter batchSize publish orders outbox i)
  | 0 => rfl
  | i + 1 => by
    have ih := sameRows_tableAfter batchSize publish orders hids i
    exact (sameRows_publishBatch (ih.ids ▸ hids)).trans ih

/-- A stuck row stays unpublished, and counts the passes that fetched it. -/
theorem stuck_tableAfter (hids : (outbox.map OutboxRow.id).Nodup)
    (h : Alone batchSize stuck publish orders outbox) {r₀ : OutboxRow} (hr₀ : r₀ ∈ outbox)
    (hnone : r₀.publishedAt = none) (hstuck : stuck r₀.id = true) :
    ∀ n, ∃ r ∈ tableAfter batchSize publish orders outbox n, r.id = r₀.id ∧
      r.publishedAt = none ∧
      r.attempts = r₀.attempts + timesFetched batchSize publish orders outbox r₀.id n
  | 0 => ⟨r₀, hr₀, rfl, hnone, by simp [timesFetched]⟩
  | n + 1 => by
    obtain ⟨r, hr, hid, hrnone, hattempts⟩ := stuck_tableAfter hids h hr₀ hnone hstuck n
    have hids' := (sameRows_tableAfter batchSize publish orders hids n).ids ▸ hids
    have hcount : timesFetched batchSize publish orders outbox r₀.id (n + 1)
        = timesFetched batchSize publish orders outbox r₀.id n +
          if r.id ∈ fetchedIds batchSize (orders n)
            (tableAfter batchSize publish orders outbox n) then 1 else 0 := by
      simp [timesFetched, List.range_succ, hid]
    have hraises : (publish n r).isPublished = false := by
      rw [h.publishes, hid, hstuck]
      rfl
    rcases mem_publishBatch batchSize (publish n) hids' (isSnapshotOrder_of_table (h.orders n)) hr
      with ⟨hf, -, hr'⟩ | ⟨hf, hr'⟩
    · refine ⟨_, hr', by simpa using hid, ?_, ?_⟩
      · have := OutboxRow.afterPublish_published (publish n r) hrnone
        rw [hraises] at this
        simpa using this
      · rw [hcount, if_pos hf]
        cases ho : publish n r with
        | published t => simp [ho, PublishOutcome.isPublished] at hraises
        | refused e | unconfirmed e =>
          simp only [OutboxRow.afterPublish]
          omega
    · refine ⟨r, hr', hid, hrnone, ?_⟩
      rw [hcount, if_neg hf]
      omega

/-! ## When the others get through -/

theorem card_stuckAhead (hids : (outbox.map OutboxRow.id).Nodup)
    (hnew : ∀ r ∈ outbox, r.publishedAt = none) {g : OutboxRow} (hg : g ∈ outbox) :
    ((pendingIds outbox).filter fun id => stuck id = true ∧
      createdAtOf outbox id ≤ createdAtOf outbox g.id).card = stuckAhead stuck outbox g := by
  have hset : ((pendingIds outbox).filter fun id => stuck id = true ∧
      createdAtOf outbox id ≤ createdAtOf outbox g.id) = ((outbox.filter fun b =>
        stuck b.id = true ∧ b.createdAt ≤ g.createdAt).map OutboxRow.id).toFinset := by
    ext id
    simp only [Finset.mem_filter, mem_pendingIds, List.mem_toFinset, List.mem_map, List.mem_filter,
      decide_eq_true_eq, createdAtOf_eq hids hg]
    constructor
    · rintro ⟨⟨r, hr, -, rfl⟩, hs, hle⟩
      exact ⟨r, ⟨hr, hs, createdAtOf_eq hids hr ▸ hle⟩, rfl⟩
    · rintro ⟨r, ⟨hr, hs, hle⟩, rfl⟩
      exact ⟨⟨r, hr, hnew r hr, rfl⟩, hs, (createdAtOf_eq hids hr).symm ▸ hle⟩
  rw [hset, List.toFinset_card_of_nodup (hids.sublist (List.filter_sublist.map _)),
    List.length_map, stuckAhead, List.countP_eq_length_filter]

theorem published_tableAfter (hids : (outbox.map OutboxRow.id).Nodup)
    (hnew : ∀ r ∈ outbox, r.publishedAt = none)
    (h : Alone batchSize stuck publish orders outbox)
    (hroom : ∀ g ∈ outbox, stuck g.id = false → stuckAhead stuck outbox g < batchSize) :
    ∀ r ∈ tableAfter batchSize publish orders outbox outbox.length, stuck r.id = false →
      r.publishedAt ≠ none := by
  intro r hr hgood hnone
  have hsame := sameRows_tableAfter batchSize publish orders hids
  have hdrained := Batch.drained (createdAtOf outbox) batchSize (fun id => stuck id = true)
    (n := outbox.length)
    (fun i => isOldest_fetchedIds (hsame i) hids (h.orders i))
    (fun i => pendingIds_publishBatch ((hsame i).ids ▸ hids)
      (isSnapshotOrder_of_table (h.orders i)) (h.publishes i)) ?_ ?_
  · have := hdrained r.id (mem_pendingIds.2 ⟨r, hr, hnone, rfl⟩)
    rw [hgood] at this
    cases this
  · intro id hid hnot
    obtain ⟨g, hg, -, rfl⟩ := mem_pendingIds.1 hid
    rw [show tableAfter batchSize publish orders outbox 0 = outbox from rfl,
      card_stuckAhead hids hnew hg]
    exact hroom g hg (by simpa using hnot)
  · refine (Finset.card_le_card (Finset.filter_subset _ _)).trans ?_
    refine (List.toFinset_card_le _).trans ?_
    rw [List.length_map]
    exact List.length_filter_le _ _

end

/-! ## When they do not -/

/-- The first of two rows may come first, stuck rows before others of their time. -/
def stuckFirst (stuck : UUID → Bool) (a b : OutboxRow) : Bool :=
  a.createdAt < b.createdAt || (a.createdAt = b.createdAt && (stuck a.id || !stuck b.id))

/-- An order of the table with stuck rows before others of their time. -/
def stuckFirstOrder (stuck : UUID → Bool) (outbox : List OutboxRow) : List UUID :=
  (outbox.mergeSort (stuckFirst stuck)).map OutboxRow.id

/-- The publishes of the stuck rows raise, and the others return. -/
def refuseStuck (stuck : UUID → Bool) (m : OutboxRow) : PublishOutcome :=
  if stuck m.id then .refused (.other "AMQPError" "refused") else .published m.createdAt

section

variable {batchSize : ℕ} {stuck : UUID → Bool} {outbox rows : List OutboxRow}

theorem isPublished_refuseStuck (m : OutboxRow) :
    (refuseStuck stuck m).isPublished = !stuck m.id := by
  unfold refuseStuck
  rcases h : stuck m.id <;> rfl

theorem pairwise_stuckFirst :
    (outbox.mergeSort (stuckFirst stuck)).Pairwise fun a b => stuckFirst stuck a b = true := by
  refine List.pairwise_mergeSort (fun a b c hab hbc => ?_) (fun a b => ?_) outbox
  · unfold stuckFirst at hab hbc ⊢
    simp only [Bool.or_eq_true, Bool.and_eq_true, decide_eq_true_eq, Bool.not_eq_true'] at hab hbc ⊢
    rcases hab with hab | ⟨hab, hs⟩ <;> rcases hbc with hbc | ⟨hbc, ht⟩
    · exact .inl (hab.trans hbc)
    · exact .inl (hab.trans_eq hbc)
    · exact .inl (hab.trans_lt hbc)
    · refine .inr ⟨hab.trans hbc, ?_⟩
      rcases hs with hs | hs
      · exact .inl hs
      · exact .inr (ht.resolve_left (by simp [hs]))
  · unfold stuckFirst
    simp only [Bool.or_eq_true, Bool.and_eq_true, decide_eq_true_eq, Bool.not_eq_true']
    rcases lt_trichotomy a.createdAt b.createdAt with h | h | h
    · exact .inl (.inl h)
    · rcases hs : stuck a.id
      · exact .inr (.inr ⟨h.symm, .inr rfl⟩)
      · exact .inl (.inr ⟨h, .inl rfl⟩)
    · exact .inr (.inl h)

theorem mem_sorted {r : OutboxRow} : r ∈ outbox.mergeSort (stuckFirst stuck) ↔ r ∈ outbox :=
  (List.mergeSort_perm outbox _).mem_iff

theorem nodup_stuckFirstOrder (hids : (outbox.map OutboxRow.id).Nodup) :
    (stuckFirstOrder stuck outbox).Nodup :=
  (((List.mergeSort_perm outbox (stuckFirst stuck)).map OutboxRow.id).nodup_iff).2 hids

/-- A list of rows of a table is found again in a later table. -/
theorem rowsIn_sameRows (hsame : SameRows outbox rows) (hids : (outbox.map OutboxRow.id).Nodup) :
    ∀ l : List OutboxRow, (∀ r ∈ l, r ∈ outbox) →
      (rowsIn rows (l.map OutboxRow.id)).map (fun r => (r.id, r.createdAt))
        = l.map fun r => (r.id, r.createdAt)
  | [], _ => rfl
  | o :: l, h => by
    have ih := rowsIn_sameRows hsame hids l fun r hr => h r (List.mem_cons_of_mem _ hr)
    have hmem : (o.id, o.createdAt) ∈ rows.map fun r => (r.id, r.createdAt) :=
      hsame ▸ List.mem_map_of_mem (h o List.mem_cons_self)
    obtain ⟨r, hr, he⟩ := List.mem_map.1 hmem
    have hid : r.id = o.id := congrArg Prod.fst he
    have hfind := find?_id (hsame.ids ▸ hids) hr
    unfold rowsIn at ih ⊢
    rw [List.map_cons, List.filterMap_cons, ← hid, hfind, List.map_cons, ih, List.map_cons, he]

theorem isTableOrder_stuckFirst (hsame : SameRows outbox rows)
    (hids : (outbox.map OutboxRow.id).Nodup) :
    isTableOrder rows (stuckFirstOrder stuck outbox) = true := by
  have hrows := rowsIn_sameRows hsame hids (outbox.mergeSort (stuckFirst stuck))
    fun r hr => mem_sorted.1 hr
  have hcreated : (rowsIn rows (stuckFirstOrder stuck outbox)).map OutboxRow.createdAt
      = (outbox.mergeSort (stuckFirst stuck)).map OutboxRow.createdAt := by
    simpa [Function.comp_def, stuckFirstOrder] using congrArg (List.map Prod.snd) hrows
  unfold isTableOrder isSnapshotOrder
  simp only [Bool.and_eq_true, decide_eq_true_eq, List.all_eq_true]
  refine ⟨⟨nodup_stuckFirstOrder hids, ?_⟩, fun r hr => ?_⟩
  · rw [hcreated, List.pairwise_map]
    refine pairwise_stuckFirst.imp fun {a b} hab => ?_
    unfold stuckFirst at hab
    simp only [Bool.or_eq_true, Bool.and_eq_true, decide_eq_true_eq] at hab
    rcases hab with hab | hab
    · exact hab.le
    · exact hab.1.le
  · have hid : r.id ∈ outbox.map OutboxRow.id := hsame.ids ▸ List.mem_map_of_mem hr
    obtain ⟨o, ho, he⟩ := List.mem_map.1 hid
    simpa [stuckFirstOrder] using ⟨o, ho, he⟩

theorem alone_stuckFirst (batchSize : ℕ) (hids : (outbox.map OutboxRow.id).Nodup) :
    Alone batchSize stuck (fun _ => refuseStuck stuck) (fun _ => stuckFirstOrder stuck outbox)
      outbox where
  publishes _ m := isPublished_refuseStuck m
  orders i := isTableOrder_stuckFirst (sameRows_tableAfter _ _ _ hids i) hids

/-- The order of ids that `stuckFirst` is on rows. -/
def StuckFirstIds (stuck : UUID → Bool) (outbox : List OutboxRow) (a b : UUID) : Prop :=
  createdAtOf outbox a < createdAtOf outbox b ∨
    (createdAtOf outbox a = createdAtOf outbox b ∧ (stuck a = true ∨ stuck b = false))

theorem pairwise_pendingOrder (hids : (outbox.map OutboxRow.id).Nodup) :
    (pendingOrder (stuckFirstOrder stuck outbox) rows).Pairwise (StuckFirstIds stuck outbox) := by
  have hsub : (pendingOrder (stuckFirstOrder stuck outbox) rows).Sublist
      (stuckFirstOrder stuck outbox) :=
    (List.filter_sublist.map _).trans (ids_rowsIn_sublist rows _)
  refine List.Pairwise.sublist hsub ?_
  rw [stuckFirstOrder, List.pairwise_map]
  refine pairwise_stuckFirst.imp_of_mem fun {a b} ha hb hab => ?_
  unfold stuckFirst at hab
  simp only [Bool.or_eq_true, Bool.and_eq_true, decide_eq_true_eq, Bool.not_eq_true'] at hab
  unfold StuckFirstIds
  rwa [createdAtOf_eq hids (mem_sorted.1 ha), createdAtOf_eq hids (mem_sorted.1 hb)]

/-- A row with a batch of stuck rows as old as itself is never fetched when they come first. -/
theorem not_mem_fetchedIds (hids : (outbox.map OutboxRow.id).Nodup)
    (hnew : ∀ r ∈ outbox, r.publishedAt = none) {g : OutboxRow} (hg : g ∈ outbox)
    (hgood : stuck g.id = false) (hahead : batchSize ≤ stuckAhead stuck outbox g) (i : ℕ) :
    g.id ∉ fetchedIds batchSize (stuckFirstOrder stuck outbox)
      (tableAfter batchSize (fun _ => refuseStuck stuck) (fun _ => stuckFirstOrder stuck outbox)
        outbox i) := by
  have halone : Alone batchSize stuck _ _ outbox := alone_stuckFirst batchSize hids
  have htable := halone.orders i
  have hids' := (sameRows_tableAfter batchSize (fun _ => refuseStuck stuck)
    (fun _ => stuckFirstOrder stuck outbox) hids i).ids ▸ hids
  rw [fetchedIds_eq]
  rw [← card_stuckAhead hids hnew hg] at hahead
  refine Batch.not_mem_take (nodup_pendingOrder (isSnapshotOrder_of_table htable))
    (pairwise_pendingOrder hids) (fun b hb => ?_) hahead
  obtain ⟨hb, hbstuck, hle⟩ := Finset.mem_filter.1 hb
  obtain ⟨r, hr, -, rfl⟩ := mem_pendingIds.1 hb
  refine ⟨?_, fun he => ?_, fun hlt => ?_⟩
  · obtain ⟨r', hr', hid, hnone, -⟩ := stuck_tableAfter hids halone hr (hnew r hr) hbstuck i
    rw [← List.mem_toFinset, toFinset_pendingOrder htable hids']
    exact mem_pendingIds.2 ⟨r', hr', hnone, hid⟩
  · rw [he, hgood] at hbstuck
    cases hbstuck
  · rcases hlt with hlt | ⟨-, hs | hs⟩
    · omega
    · rw [hgood] at hs
      cases hs
    · rw [hbstuck] at hs
      cases hs

theorem starved_tableAfter (hids : (outbox.map OutboxRow.id).Nodup)
    (hnew : ∀ r ∈ outbox, r.publishedAt = none) {g : OutboxRow} (hg : g ∈ outbox)
    (hgood : stuck g.id = false) (hahead : batchSize ≤ stuckAhead stuck outbox g) :
    ∀ i, g ∈ tableAfter batchSize (fun _ => refuseStuck stuck)
      (fun _ => stuckFirstOrder stuck outbox) outbox i
  | 0 => hg
  | i + 1 => by
    have ih := starved_tableAfter hids hnew hg hgood hahead i
    have hids' := (sameRows_tableAfter batchSize (fun _ => refuseStuck stuck)
      (fun _ => stuckFirstOrder stuck outbox) hids i).ids ▸ hids
    have hout := not_mem_fetchedIds hids hnew hg hgood hahead i
    rcases mem_publishBatch batchSize (refuseStuck stuck) hids' (isSnapshotOrder_of_table
      ((alone_stuckFirst batchSize hids).orders i)) ih with ⟨hf, -⟩ | ⟨-, hr⟩
    · exact absurd hf hout
    · exact hr

end

/-- After as many passes of one relay as there are rows: the stuck rows are unpublished and have
counted their fetches, and the others are published, in whatever order rows of one time come, if
and only if fewer stuck rows than a batch holds are as old as each of them. -/
theorem published_after_passes_iff (batchSize : ℕ) (stuck : UUID → Bool) {outbox : List OutboxRow}
    (hids : (outbox.map OutboxRow.id).Nodup) (hnew : ∀ r ∈ outbox, r.publishedAt = none) :
    (∀ publish orders, Alone batchSize stuck publish orders outbox →
      ∀ r₀ ∈ outbox, stuck r₀.id = true →
        ∃ r ∈ tableAfter batchSize publish orders outbox outbox.length, r.id = r₀.id ∧
          r.publishedAt = none ∧ r.attempts = r₀.attempts +
            timesFetched batchSize publish orders outbox r₀.id outbox.length) ∧
    ((∀ publish orders, Alone batchSize stuck publish orders outbox →
      ∀ r ∈ tableAfter batchSize publish orders outbox outbox.length, stuck r.id = false →
        r.publishedAt ≠ none) ↔
      ∀ g ∈ outbox, stuck g.id = false → stuckAhead stuck outbox g < batchSize) := by
  refine ⟨fun publish orders h r₀ hr₀ hs => stuck_tableAfter hids h hr₀ (hnew r₀ hr₀) hs _,
    fun hall g hg hgood => ?_, fun hroom publish orders h => published_tableAfter hids hnew h hroom⟩
  by_contra hahead
  exact hall _ _ (alone_stuckFirst batchSize hids) g
    (starved_tableAfter hids hnew hg hgood (by omega) _) hgood (hnew g hg)

/-- The publish of `sampleMessage`, the older of two messages, always raises. -/
def sampleStuck (id : UUID) : Bool := id = sampleMessage.id

theorem otherMessage_starves : ¬ ∀ publish orders,
    Alone 1 sampleStuck publish orders [sampleMessage, otherMessage] →
      ∀ r ∈ tableAfter 1 publish orders [sampleMessage, otherMessage] 2,
        sampleStuck r.id = false → r.publishedAt ≠ none := by
  have hids : ([sampleMessage, otherMessage].map OutboxRow.id).Nodup := by decide
  intro h
  refine h _ _ (alone_stuckFirst 1 hids) otherMessage ?_ (by decide) rfl
  exact starved_tableAfter hids (by simp [sampleMessage, otherMessage]) (by simp) (by decide)
    (by decide) 2

theorem otherMessage_gets_through :
    stuckAhead sampleStuck [sampleMessage, otherMessage] otherMessage = 1 ∧
      ∀ publish orders, Alone 2 sampleStuck publish orders [sampleMessage, otherMessage] →
        ∀ r ∈ tableAfter 2 publish orders [sampleMessage, otherMessage] 2,
          sampleStuck r.id = false → r.publishedAt ≠ none := by
  have hids : ([sampleMessage, otherMessage].map OutboxRow.id).Nodup := by decide
  have hnew : ∀ r ∈ [sampleMessage, otherMessage], r.publishedAt = none := by
    simp [sampleMessage, otherMessage]
  exact ⟨by decide, (published_after_passes_iff 2 sampleStuck hids hnew).2.2 (by decide)⟩

example : (tableAfter 1 (fun _ => refuseStuck sampleStuck)
    (fun _ => [sampleMessage.id, otherMessage.id]) [sampleMessage, otherMessage] 2).map
      (fun r => (r.attempts, r.publishedAt)) = [(2, none), (0, none)] := by decide

end PaymentService
