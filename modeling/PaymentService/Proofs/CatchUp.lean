import PaymentService.Proofs.RelayLoop

/-!
# A relay alone catches up

Where no pass is open and the publishes succeed, a relay that runs alone publishes the waiting rows
oldest first, a batch in each pass, with no sleep before all are published. Its passes follow
`publishBatch` one by one, and what they take are the batches of `Batch.Takes`.
-/

namespace PaymentService

open Python Labelled

/-! ## One pass in the loop -/

/-- What a pass over a batch does. -/
def passActs (publish : OutboxRow → PublishOutcome) (order : List UUID) (batch : List OutboxRow) :
    List PassAct :=
  .lock order :: batch.map (fun m => .publish (publish m)) ++ [.commit]

theorem map_passActs (k : ℕ) (publish : OutboxRow → PublishOutcome) (order : List UUID)
    (batch : List OutboxRow) :
    (passActs publish order batch).map (.pass k) = passAlone k publish order batch := by
  simp [passActs, passAlone]

/-- The broker's record of a message whose publish by a pass returned. -/
def acceptedFrom (k : ℕ) (m : OutboxRow) : Accepted := ⟨k, m.id, m.eventType, m.payload, true⟩

section

variable {batchSize B : ℕ → ℕ} {i j k : ℕ} {publish : OutboxRow → PublishOutcome}

theorem accepted_publishes (hpub : ∀ m, (publish m).isPublished = true) :
    ∀ {todo done : List OutboxRow} {n : ℕ} {r r' : RelayState},
      r.passes k = .publishing done todo n →
      (relayMachine B).run r (todo.map fun m => .pass k (.publish (publish m))) = some r' →
        r'.accepted = r.accepted ++ todo.map (acceptedFrom k)
  | [], _, _, r, r', _, h => by
    simp only [List.map_nil, Machine.run_nil, Option.some.injEq] at h
    simp [h]
  | m :: todo, done, n, r, r', hk, h => by
    obtain ⟨r₁, hstep, hrest⟩ := Machine.run_cons.1 h
    have hacc : (publish m).isAccepted = true := by
      have := hpub m
      cases hp : publish m <;> simp [hp, PublishOutcome.isPublished] at this
      rfl
    simp only [relayMachine, passStep, hk, Option.some.injEq] at hstep
    have hnext : r₁.passes k = .publishing (done ++ [m.afterPublish (publish m)]) todo
        (n + if (publish m).isPublished then 1 else 0) := by
      rw [← hstep]
      exact Function.update_self _ _ _
    rw [accepted_publishes hpub hnext hrest, ← hstep, RelayState.setPass_accepted,
      RelayState.offer_accepted, hacc, hpub]
    simp [acceptedFrom]

theorem accepted_passAlone (hpub : ∀ m, (publish m).isPublished = true) {order : List UUID}
    {r r' : RelayState} (hlocks : r.locks = [])
    (h : (relayMachine B).run r (passAlone k publish order
      (lockUnpublished r.outbox (fun _ => false) order (B k))) = some r') :
    r'.accepted = r.accepted
      ++ (lockUnpublished r.outbox (fun _ => false) order (B k)).map (acceptedFrom k) := by
  have hfree : r.isLocked = fun _ => false := by
    funext id
    simp [RelayState.isLocked, hlocks]
  obtain ⟨r₂, hpubs, hcommit⟩ := Machine.run_concat.1 h
  obtain ⟨r₁, hlock, hrest⟩ := Machine.run_cons.1 hpubs
  cases relayMachine_trans hlock with
  | lock _ horder =>
    rw [hfree] at hrest
    have haccepted := accepted_publishes hpub (Function.update_self _ _ _) hrest
    cases relayMachine_trans hcommit with
    | commit => exact haccepted

theorem loops_of_act {s : LoopState} {r : RelayState} {act : PassAct} (hi : s.loops i = .passing j)
    (h : passStep (passBatchSize batchSize) s.relay (passNumber i j) act = some r) :
    (relayLoops batchSize).step s (.pass i act)
      = some ({ s with relay := r }.setLoop i (loopAfter j (r.passes (passNumber i j)))) := by
  simp only [relayLoops, loopStep, hi, h, Option.map_some]

/-- The steps of a pass are steps of its relay's loop; the last one decides how it goes on. -/
theorem loops_of_acts : ∀ {acts : List PassAct} {s : LoopState} {r : RelayState}, acts ≠ [] →
    s.loops i = .passing j →
    (relayMachine (passBatchSize batchSize)).run s.relay (acts.map (.pass (passNumber i j)))
      = some r →
    (relayLoops batchSize).run s (acts.map (.pass i))
        = some ({ s with relay := r }.setLoop i (loopAfter j (r.passes (passNumber i j))))
      ∧ passEnds ((relayLoops batchSize).steps s (acts.map (.pass i)))
        = ((r.passes (passNumber i j)).published?.map fun n => (i, n)).toList
  | [], s, r, hne, hi, h => absurd rfl hne
  | [act], s, r, _, hi, h => by
    obtain ⟨r₁, hstep, hrest⟩ := Machine.run_cons.1 h
    simp only [List.map_nil, Machine.run_nil, Option.some.injEq] at hrest
    subst hrest
    have hloop := loops_of_act hi hstep
    refine ⟨Machine.run_cons.2 ⟨_, hloop, rfl⟩, ?_⟩
    rw [List.map_cons, List.map_nil, Machine.steps_cons_of_step hloop]
    simp only [passEnds, Machine.steps, List.filterMap_cons, List.filterMap_nil, passEnd?, hi,
      LoopState.setLoop]
    cases (r₁.passes (passNumber i j)).published? <;> rfl
  | act :: act' :: acts, s, r, _, hi, h => by
    obtain ⟨r₁, hstep, hrest⟩ := Machine.run_cons.1 h
    obtain ⟨r₂, hstep', -⟩ := Machine.run_cons.1 hrest
    -- The next act is a step of this pass, so this one has not ended it.
    have hgoes : (r₁.passes (passNumber i j)).published? = none := published?_of_step hstep'
    have hloop := loops_of_act hi hstep
    have hstays : ({ s with relay := r₁ }.setLoop i (loopAfter j (r₁.passes (passNumber i j))))
        = { s with relay := r₁ } := by
      simp only [LoopState.setLoop, loopAfter, hgoes, ← hi, Function.update_eq_self]
    rw [hstays] at hloop
    obtain ⟨hrun, hends⟩ := loops_of_acts (s := { s with relay := r₁ }) (List.cons_ne_nil _ _) hi
      hrest
    refine ⟨Machine.run_cons.2 ⟨_, hloop, hrun⟩, ?_⟩
    rw [List.map_cons, Machine.steps_cons_of_step hloop]
    simpa only [passEnds, List.filterMap_cons, passEnd?, hi, hgoes, Option.map_none] using hends

theorem passes_of_acts {k' : ℕ} (hk : k' ≠ k) : ∀ {acts : List PassAct} {r r' : RelayState},
    (relayMachine B).run r (acts.map (.pass k)) = some r' → r'.passes k' = r.passes k'
  | [], r, r', h => by
    simp only [List.map_nil, Machine.run_nil, Option.some.injEq] at h
    rw [h]
  | act :: acts, r, r', h => by
    obtain ⟨r₁, hstep, hrest⟩ := Machine.run_cons.1 h
    exact (passes_of_acts hk hrest).trans (passStep_passes hstep hk)

/-- The rows a pass alone fetches. -/
def fetchedRows (batchSize : ℕ) (order : List UUID) (outbox : List OutboxRow) : List OutboxRow :=
  lockUnpublished outbox (fun _ => false) order batchSize

def passLabels (i batchSize : ℕ) (publish : OutboxRow → PublishOutcome) (order : List UUID)
    (outbox : List OutboxRow) : List LoopLabel :=
  (passActs publish order (fetchedRows batchSize order outbox)).map (.pass i)

/-- What the `j`-th pass of relay `i` comes to where it has the table to itself and every publish
succeeds. -/
structure PassesAlone (batchSize : ℕ → ℕ) (i j : ℕ) (publish : OutboxRow → PublishOutcome)
    (order : List UUID) (s t : LoopState) : Prop where
  run : (relayLoops batchSize).run s (passLabels i (batchSize i) publish order s.relay.outbox)
    = some t
  loop : t.loops i
    = loopAfter j (.committed (publishBatch (batchSize i) publish order s.relay.outbox).2)
  outbox : t.relay.outbox = (publishBatch (batchSize i) publish order s.relay.outbox).1
  locks : t.relay.locks = []
  others : ∀ k, k ≠ passNumber i j → t.relay.passes k = s.relay.passes k
  accepted : t.relay.accepted = s.relay.accepted
    ++ (fetchedRows (batchSize i) order s.relay.outbox).map (acceptedFrom (passNumber i j))
  ends : passEnds ((relayLoops batchSize).steps s
      (passLabels i (batchSize i) publish order s.relay.outbox))
    = [(i, (publishBatch (batchSize i) publish order s.relay.outbox).2)]

theorem exists_passesAlone {s : LoopState} {order : List UUID} (hi : s.loops i = .passing j)
    (hk : s.relay.passes (passNumber i j) = .start) (hlocks : s.relay.locks = [])
    (horder : isSnapshotOrder s.relay.outbox order = true)
    (hpub : ∀ m, (publish m).isPublished = true) :
    ∃ t, PassesAlone batchSize i j publish order s t := by
  have hsize : passBatchSize batchSize (passNumber i j) = batchSize i := by
    simp [passBatchSize, passNumber]
  obtain ⟨r, hrun, hout, hpc, hfree⟩ :=
    publishBatch_run (B := passBatchSize batchSize) publish hk hlocks horder
  have hacc := accepted_passAlone hpub hlocks hrun
  rw [hsize] at hrun hout hpc hacc
  rw [← map_passActs] at hrun
  obtain ⟨hloops, hends⟩ := loops_of_acts (by simp [passActs]) hi hrun
  refine ⟨_, hloops, ?_, hout, hfree, fun k hne => passes_of_acts hne hrun, hacc, ?_⟩
  · rw [hpc]
    exact Function.update_self _ _ _
  · rw [hpc] at hends
    exact hends

end

/-! ## Pass after pass -/

section

variable {batchSize : ℕ → ℕ} {i j : ℕ} {publish : ℕ → OutboxRow → PublishOutcome}
  {orders : ℕ → List UUID} {outbox : List OutboxRow}

theorem returned_of_published (hpub : ∀ n m, (publish n m).isPublished = true) (B n : ℕ)
    (order : List UUID) (outbox : List OutboxRow) :
    (publishBatch B (publish n) order outbox).2 = (fetchedRows B order outbox).length := by
  have hall : ∀ ms, (publishMessages (publish n) ms).2 = ms.length := by
    intro ms
    induction ms with
    | nil => rfl
    | cons m ms ih => simp [publishMessages, ih, hpub, Nat.add_comm]
  exact hall _

theorem sorted_fetchedIds {B : ℕ} {rows : List OutboxRow} {order : List UUID}
    (hsame : SameRows outbox rows) (hids : (outbox.map OutboxRow.id).Nodup)
    (htable : isTableOrder rows order = true) :
    (fetchedIds B order rows).Pairwise
      fun a b => a ≠ b ∧ createdAtOf outbox a ≤ createdAtOf outbox b := by
  have horder := isSnapshotOrder_of_table htable
  have hrows : (rows.map OutboxRow.id).Nodup := hsame.ids ▸ hids
  rw [fetchedIds_eq]
  refine List.Pairwise.sublist (List.take_sublist _ _) ((nodup_pendingOrder horder).and ?_)
  have hsorted : ((rowsIn rows order).map OutboxRow.createdAt).Pairwise (· ≤ ·) := by
    unfold isSnapshotOrder at horder
    simpa using (Bool.and_eq_true_iff.1 horder).2
  rw [List.pairwise_map] at hsorted
  rw [pendingOrder, List.pairwise_map]
  refine List.Pairwise.sublist List.filter_sublist (hsorted.imp_of_mem fun {a b} ha hb hab => ?_)
  rw [mem_rowsIn htable hrows] at ha hb
  rwa [hsame.createdAtOf hids ha, hsame.createdAtOf hids hb]

/-- The passes of a relay alone take the oldest pending rows, batch after batch. -/
theorem takes_of_alone {B : ℕ} (hids : (outbox.map OutboxRow.id).Nodup)
    (h : Alone B (fun _ => false) publish orders outbox) :
    Batch.Takes (createdAtOf outbox) B
      (fun n => pendingIds (tableAfter B publish orders outbox n))
      (fun n => fetchedIds B (orders n) (tableAfter B publish orders outbox n)) where
  sorted n := sorted_fetchedIds (sameRows_tableAfter B publish orders hids n) hids (h.orders n)
  oldest n := isOldest_fetchedIds (sameRows_tableAfter B publish orders hids n) hids (h.orders n)
  next n := by
    have hrows := (sameRows_tableAfter B publish orders hids n).ids ▸ hids
    have hnext : pendingIds (tableAfter B publish orders outbox (n + 1))
        = Batch.remaining (fun _ => false = true)
          (pendingIds (tableAfter B publish orders outbox n))
          (fetchedIds B (orders n) (tableAfter B publish orders outbox n)).toFinset :=
      pendingIds_publishBatch hrows (isSnapshotOrder_of_table (h.orders n)) (h.publishes n)
    rw [hnext]
    ext id
    simp [Batch.remaining]

/-- The steps of `n` passes of a relay alone. -/
def catchUp (i B : ℕ) (publish : ℕ → OutboxRow → PublishOutcome) (orders : ℕ → List UUID)
    (outbox : List OutboxRow) (n : ℕ) : List LoopLabel :=
  (List.range n).flatMap fun m =>
    passLabels i B (publish m) (orders m) (tableAfter B publish orders outbox m)

/-- Where `n` passes of relay `i` alone lead, from its `j`-th on. -/
structure RanAlone (batchSize : ℕ → ℕ) (i j : ℕ) (publish : ℕ → OutboxRow → PublishOutcome)
    (orders : ℕ → List UUID) (s : LoopState) (n : ℕ) (t : LoopState) : Prop where
  run : (relayLoops batchSize).run s
    (catchUp i (batchSize i) publish orders s.relay.outbox n) = some t
  start : ∀ m, n ≤ m → t.relay.passes (passNumber i (j + m)) = .start
  outbox : t.relay.outbox = tableAfter (batchSize i) publish orders s.relay.outbox n
  locks : t.relay.locks = []
  accepted : t.relay.accepted = s.relay.accepted ++ (List.range n).flatMap fun m =>
    (fetchedRows (batchSize i) (orders m)
      (tableAfter (batchSize i) publish orders s.relay.outbox m)).map
        (acceptedFrom (passNumber i (j + m)))
  ends : passEnds ((relayLoops batchSize).steps s
      (catchUp i (batchSize i) publish orders s.relay.outbox n))
    = (List.range n).map fun m =>
      (i, min (batchSize i) ((pendingIds s.relay.outbox).card - m * batchSize i))

theorem returned_alone {B : ℕ} (hids : (outbox.map OutboxRow.id).Nodup)
    (h : Alone B (fun _ => false) publish orders outbox) (n : ℕ) :
    (publishBatch B (publish n) (orders n) (tableAfter B publish orders outbox n)).2
      = min B ((pendingIds outbox).card - n * B) := by
  have hlength := (takes_of_alone hids h).length_taken n
  rw [fetchedIds, List.length_map] at hlength
  rw [returned_of_published h.publishes]
  exact hlength

variable {s t : LoopState} {n : ℕ}

theorem ids_accepted (k : ℕ → ℕ) (rows : ℕ → List OutboxRow) :
    ((List.range n).flatMap fun m => (rows m).map (acceptedFrom (k m))).map Accepted.id
      = (List.range n).flatMap fun m => (rows m).map OutboxRow.id := by
  simp [List.map_flatMap, Function.comp_def, acceptedFrom]

/-- The next pass, and where the loop is after it. -/
theorem RanAlone.succ (ht : RanAlone batchSize i j publish orders s n t)
    (hids : (s.relay.outbox.map OutboxRow.id).Nodup)
    (h : Alone (batchSize i) (fun _ => false) publish orders s.relay.outbox)
    (hi : t.loops i = .passing (j + n)) :
    ∃ u, RanAlone batchSize i j publish orders s (n + 1) u ∧ u.loops i = loopAfter (j + n)
      (.committed (min (batchSize i) ((pendingIds s.relay.outbox).card - n * batchSize i))) := by
  have hreturned := returned_alone hids h n
  have horder : isSnapshotOrder t.relay.outbox (orders n) = true := by
    rw [ht.outbox]
    exact isSnapshotOrder_of_table (h.orders n)
  obtain ⟨u, hu⟩ : ∃ u, PassesAlone batchSize i (j + n) (publish n) (orders n) t u :=
    exists_passesAlone hi (ht.start n le_rfl) ht.locks horder (h.publishes n)
  have hcatch : catchUp i (batchSize i) publish orders s.relay.outbox (n + 1)
      = catchUp i (batchSize i) publish orders s.relay.outbox n
        ++ passLabels i (batchSize i) (publish n) (orders n) t.relay.outbox := by
    simp [catchUp, List.range_succ, ht.outbox]
  refine ⟨u, ⟨?_, fun m hm => ?_, ?_, hu.locks, ?_, ?_⟩, ?_⟩
  · rw [hcatch]
    exact Machine.run_append.2 ⟨t, ht.run, hu.run⟩
  · rw [hu.others _ fun he => ?_]
    · exact ht.start m (by omega)
    · have := (passNumber_inj.1 he).2
      omega
  · rw [hu.outbox, ht.outbox]
    rfl
  · rw [hu.accepted, ht.accepted, ht.outbox, List.range_succ, List.flatMap_append]
    simp
  · rw [hcatch, Machine.steps_append _ ht.run, passEnds, List.filterMap_append, ← passEnds,
      ← passEnds, ht.ends, hu.ends, ht.outbox, hreturned, List.range_succ, List.map_append]
    rfl
  · rw [hu.loop, ht.outbox, hreturned]

theorem ranAlone_zero (hinv : LoopInv s) (hi : s.loops i = .passing j)
    (hquiet : ∀ k done todo c, s.relay.passes k ≠ .publishing done todo c) :
    RanAlone batchSize i j publish orders s 0 s := by
  have hlocks : s.relay.locks = [] := List.eq_nil_iff_forall_not_mem.2 fun l hl => by
    obtain ⟨done, todo, c, hpc⟩ := hinv.relay.held l hl
    exact hquiet _ done todo c hpc
  have hstart : s.relay.passes (passNumber i j) = .start := by
    have hcurrent := hinv.current i j hi
    cases hpc : s.relay.passes (passNumber i j) with
    | start => rfl
    | publishing done todo c => exact absurd hpc (hquiet _ done todo c)
    | committed c | aborted =>
      rw [hpc] at hcurrent
      cases hcurrent
  refine ⟨rfl, fun m _ => ?_, rfl, hlocks, by simp, rfl⟩
  rcases m.eq_zero_or_pos with rfl | hm
  · exact hstart
  · exact hinv.later i j (.inl hi) (j + m) (by omega)

/-! ## Until nothing waits -/

/-- How many passes the waiting rows take. -/
def passesNeeded (B : ℕ) (outbox : List OutboxRow) : ℕ := ((pendingIds outbox).card + B - 1) / B

theorem lt_of_lt_passesNeeded {B m : ℕ} (hB : 0 < B) (hm : m < passesNeeded B outbox) :
    m * B < (pendingIds outbox).card := by
  have := (Nat.le_div_iff_mul_le hB).1 hm
  rw [Nat.succ_mul] at this
  omega

theorem le_passesNeeded_mul {B : ℕ} (hB : 0 < B) :
    (pendingIds outbox).card ≤ passesNeeded B outbox * B := by
  have := Nat.lt_mul_div_succ ((pendingIds outbox).card + B - 1) hB
  rw [passesNeeded, Nat.mul_comm]
  rw [Nat.mul_add] at this
  omega

/-- A relay that publishes something goes on without a sleep. -/
theorem exists_ranAlone (hinv : LoopInv s) (hi : s.loops i = .passing j)
    (hquiet : ∀ k done todo c, s.relay.passes k ≠ .publishing done todo c)
    (h : Alone (batchSize i) (fun _ => false) publish orders s.relay.outbox)
    (hB : 0 < batchSize i) : ∀ n, n ≤ passesNeeded (batchSize i) s.relay.outbox →
      ∃ t, RanAlone batchSize i j publish orders s n t ∧ t.loops i = .passing (j + n)
  | 0, _ => ⟨s, ranAlone_zero hinv hi hquiet, hi⟩
  | n + 1, hn => by
    obtain ⟨t, ht, hpc⟩ := exists_ranAlone hinv hi hquiet h hB n (by omega)
    obtain ⟨u, hu, hafter⟩ := ht.succ hinv.relay.ids h hpc
    have hleft := lt_of_lt_passesNeeded hB hn
    have hpos : min (batchSize i) ((pendingIds s.relay.outbox).card - n * batchSize i) ≠ 0 := by
      omega
    refine ⟨u, hu, ?_⟩
    rw [hafter]
    simp [loopAfter, PassPc.published?, hpos, Nat.add_assoc]

end

/-- A relay that runs alone from any point at which no pass is open, and whose publishes succeed:
as many passes as the waiting rows make batches publish them all, each once and oldest first; none
of these passes is followed by a sleep, and the next one, which finds nothing, is. -/
theorem relay_catches_up {batchSize : ℕ → ℕ} {outbox : List OutboxRow}
    (hids : (outbox.map OutboxRow.id).Nodup) {as : List LoopLabel} {s : LoopState}
    (hrun : (relayLoops batchSize).run (.init outbox) as = some s)
    (hquiet : ∀ k done todo c, s.relay.passes k ≠ .publishing done todo c) {i j : ℕ}
    (hi : s.loops i = .passing j) (hB : 0 < batchSize i)
    {publish : ℕ → OutboxRow → PublishOutcome} {orders : ℕ → List UUID}
    (h : Alone (batchSize i) (fun _ => false) publish orders s.relay.outbox) :
    ∃ t new, (relayLoops batchSize).run s (catchUp i (batchSize i) publish orders s.relay.outbox
        (passesNeeded (batchSize i) s.relay.outbox + 1)) = some t
      ∧ t.loops i = .sleeping (j + passesNeeded (batchSize i) s.relay.outbox)
      ∧ (∀ r ∈ t.relay.outbox, r.publishedAt ≠ none)
      ∧ t.relay.accepted = s.relay.accepted ++ new
      ∧ (∀ id, id ∈ new.map Accepted.id ↔ id ∈ pendingIds s.relay.outbox)
      ∧ (new.map Accepted.id).Pairwise (fun a b => a ≠ b
        ∧ createdAtOf s.relay.outbox a ≤ createdAtOf s.relay.outbox b)
      ∧ passEnds ((relayLoops batchSize).steps s (catchUp i (batchSize i) publish orders
          s.relay.outbox (passesNeeded (batchSize i) s.relay.outbox + 1)))
        = (List.range (passesNeeded (batchSize i) s.relay.outbox + 1)).map fun m =>
          (i, min (batchSize i) ((pendingIds s.relay.outbox).card - m * batchSize i)) := by
  have hinv := loopInv_run hids hrun
  have htakes := takes_of_alone hinv.relay.ids h
  obtain ⟨t, ht, hpc⟩ := exists_ranAlone hinv hi hquiet h hB _ le_rfl
  obtain ⟨u, hu, hafter⟩ := ht.succ hinv.relay.ids h hpc
  have hall : (pendingIds s.relay.outbox).card
      ≤ passesNeeded (batchSize i) s.relay.outbox * batchSize i := le_passesNeeded_mul hB
  have hcard : (pendingIds u.relay.outbox).card = (pendingIds s.relay.outbox).card
      - (passesNeeded (batchSize i) s.relay.outbox + 1) * batchSize i := by
    rw [hu.outbox]
    exact htakes.card_pending _
  have hnone : pendingIds u.relay.outbox = ∅ := by
    rw [Nat.succ_mul] at hcard
    exact Finset.card_eq_zero.1 (by omega)
  refine ⟨u, _, hu.run, ?_, fun r hr hp => ?_, hu.accepted, fun id => ?_, ?_, hu.ends⟩
  · rw [hafter, Nat.sub_eq_zero_of_le hall, Nat.min_zero]
    rfl
  · have hmem : r.id ∈ pendingIds u.relay.outbox := mem_pendingIds.2 ⟨r, hr, hp, rfl⟩
    rw [hnone] at hmem
    cases hmem
  · have hmem := htakes.mem_pending_iff (passesNeeded (batchSize i) s.relay.outbox + 1) (a := id)
    rw [← hu.outbox, hnone] at hmem
    rw [ids_accepted]
    exact (hmem.trans (or_iff_left (Finset.notMem_empty id))).symm
  · rw [ids_accepted]
    exact htakes.sorted_flatMap _

/-- Two waiting rows and batches of one. -/
theorem twoMessages_caught_up : ∃ t, (relayLoops fun _ => 1).run
    (.init [sampleMessage, otherMessage])
    (catchUp 0 1 (fun _ => refuseStuck fun _ => false)
      (fun _ => stuckFirstOrder (fun _ => false) [sampleMessage, otherMessage])
      [sampleMessage, otherMessage] 3) = some t
    ∧ t.loops 0 = .sleeping 2 ∧ ∀ r ∈ t.relay.outbox, r.publishedAt ≠ none := by
  have hids : ([sampleMessage, otherMessage].map OutboxRow.id).Nodup := by decide
  have hpasses : passesNeeded 1 [sampleMessage, otherMessage] = 2 := by decide
  have hstart : (relayLoops fun _ => 1).run (.init [sampleMessage, otherMessage]) []
      = some (.init [sampleMessage, otherMessage]) := rfl
  have hfirst : (LoopState.init [sampleMessage, otherMessage]).loops 0 = .passing 0 := rfl
  have halone : Alone 1 (fun _ => false) (fun _ => refuseStuck fun _ => false)
      (fun _ => stuckFirstOrder (fun _ => false) [sampleMessage, otherMessage])
      (LoopState.init [sampleMessage, otherMessage]).relay.outbox := alone_stuckFirst 1 hids
  obtain ⟨t, new, hrun, hloop, hall, -⟩ := relay_catches_up hids hstart
    (fun _ _ _ _ h => by cases h) hfirst Nat.one_pos halone
  have hnumber : passesNeeded 1 (LoopState.init [sampleMessage, otherMessage]).relay.outbox = 2 :=
    hpasses
  rw [hnumber] at hrun hloop
  exact ⟨t, hrun, hloop, hall⟩

end PaymentService
