import PaymentService.RelayLoop
import PaymentService.Lib.Amortized
import PaymentService.Proofs.Blocking
import PaymentService.Proofs.Relay

/-!
# The relays' loops

A relay's loop adds no step to those of its passes, so the passes of all relays are a run of
`relayMachine`, and only a pass that is some relay's current one holds locks. What the passes return
adds up to the rows published, and a pass that returns zero is followed by a sleep.
-/

namespace PaymentService

open Python Labelled

/-! ## Steps -/

/-- The steps of `relayLoops`, one case for each thing that can happen. -/
inductive LoopTrans (batchSize : ℕ → ℕ) (s : LoopState) : LoopLabel → LoopState → Prop
  | pass {i j : ℕ} {act : PassAct} {r : RelayState} (hi : s.loops i = .passing j)
    (h : passStep (passBatchSize batchSize) s.relay (passNumber i j) act = some r) :
    LoopTrans batchSize s (.pass i act)
      ({ s with relay := r }.setLoop i (loopAfter j (r.passes (passNumber i j))))
  | wake {i j : ℕ} (hi : s.loops i = .sleeping j) :
    LoopTrans batchSize s (.wake i) (s.setLoop i (.passing (j + 1)))
  | cancelPass {i j : ℕ} {r : RelayState} (hi : s.loops i = .passing j)
    (h : passStep (passBatchSize batchSize) s.relay (passNumber i j) .abort = some r) :
    LoopTrans batchSize s (.cancel i) ({ s with relay := r }.setLoop i .cancelled)
  | cancelSleep {i j : ℕ} (hi : s.loops i = .sleeping j) :
    LoopTrans batchSize s (.cancel i) (s.setLoop i .cancelled)
  | insert {row : OutboxRow} {r : RelayState}
    (h : (relayMachine (passBatchSize batchSize)).step s.relay (.insert row) = some r) :
    LoopTrans batchSize s (.insert row) { s with relay := r }

section

variable {batchSize : ℕ → ℕ} {s s' : LoopState} {a : LoopLabel} {i j k : ℕ}

theorem loopStep_trans (h : (relayLoops batchSize).step s a = some s') :
    LoopTrans batchSize s a s' := by
  cases a with
  | pass i act =>
    simp only [relayLoops, loopStep] at h
    split at h
    · rename_i hi
      obtain ⟨r, hr, rfl⟩ := Option.map_eq_some_iff.1 h
      exact .pass hi hr
    · cases h
    · cases h
  | wake i =>
    simp only [relayLoops, loopStep] at h
    split at h
    · rename_i hi
      cases h
      exact .wake hi
    · cases h
    · cases h
  | cancel i =>
    simp only [relayLoops, loopStep] at h
    split at h
    · rename_i hi
      obtain ⟨r, hr, rfl⟩ := Option.map_eq_some_iff.1 h
      exact .cancelPass hi hr
    · rename_i hi
      cases h
      exact .cancelSleep hi
    · cases h
  | insert row =>
    obtain ⟨r, hr, rfl⟩ := Option.map_eq_some_iff.1 h
    exact .insert hr

/-- A step of the loops is one of the passes or leaves them as they are. -/
theorem LoopTrans.relay (h : LoopTrans batchSize s a s') : s'.relay = s.relay ∨
    ∃ b, (relayMachine (passBatchSize batchSize)).step s.relay b = some s'.relay := by
  cases h with
  | @pass i j act r _ h => exact .inr ⟨.pass (passNumber i j) act, h⟩
  | @cancelPass i j r _ h => exact .inr ⟨.pass (passNumber i j) .abort, h⟩
  | insert h => exact .inr ⟨_, h⟩
  | wake | cancelSleep => exact .inl rfl

/-- The passes of the relays in a run of their loops are a run of `relayMachine`. -/
theorem relay_of_loops : ∀ {as : List LoopLabel} {s t : LoopState},
    (relayLoops batchSize).run s as = some t →
      ∃ bs, (relayMachine (passBatchSize batchSize)).run s.relay bs = some t.relay
  | [], s, t, h => by
    simp only [Machine.run_nil, Option.some.injEq] at h
    exact ⟨[], h ▸ rfl⟩
  | a :: as, s, t, h => by
    obtain ⟨s', hstep, hrest⟩ := Machine.run_cons.1 h
    obtain ⟨bs, hbs⟩ := relay_of_loops hrest
    rcases (loopStep_trans hstep).relay with hsame | ⟨b, hb⟩
    · exact ⟨bs, hsame ▸ hbs⟩
    · exact ⟨b :: bs, Machine.run_cons.2 ⟨s'.relay, hb, hbs⟩⟩

/-! ## Which pass is open -/

/-- A pass that takes a step is not over. -/
theorem published?_of_step {B : ℕ → ℕ} {r r' : RelayState} {act : PassAct}
    (h : passStep B r k act = some r') : (r.passes k).published? = none := by
  cases passStep_trans h with
  | lock hk | publish hk | commit hk => rw [hk]; rfl
  | abort hk => rcases hk with hk | ⟨done, todo, n, hk⟩ <;> rw [hk] <;> rfl

theorem passNumber_inj {i' j' : ℕ} : passNumber i' j' = passNumber i j ↔ i' = i ∧ j' = j :=
  Nat.pair_eq_pair

theorem exists_passNumber (k : ℕ) : ∃ i j, k = passNumber i j :=
  ⟨k.unpair.1, k.unpair.2, k.pair_unpair.symm⟩

theorem loopAfter_passing {pc : PassPc} {j' : ℕ} (h : loopAfter j pc = .passing j') :
    j' = j ∧ pc.published? = none ∨ j' = j + 1 ∧ ∃ n, pc.published? = some n ∧ n ≠ 0 := by
  unfold loopAfter at h
  split at h
  · rename_i hpc
    cases h
    exact .inl ⟨rfl, hpc⟩
  · rename_i n hpc
    split_ifs at h with hn
    cases h
    exact .inr ⟨rfl, n, hpc, hn⟩

theorem loopAfter_sleeping {pc : PassPc} {j' : ℕ} (h : loopAfter j pc = .sleeping j') :
    j' = j ∧ pc.published? = some 0 := by
  unfold loopAfter at h
  split at h
  · cases h
  · rename_i n hpc
    split_ifs at h with hn
    cases h
    exact ⟨rfl, hn ▸ hpc⟩

/-- How the loops stand to their passes: the current pass is not over, the later ones have not
begun, and an open pass is the current one of its relay. -/
structure LoopInv (s : LoopState) : Prop where
  relay : RelayInv s.relay
  current : ∀ i j, s.loops i = .passing j → (s.relay.passes (passNumber i j)).published? = none
  later : ∀ i j, s.loops i = .passing j ∨ s.loops i = .sleeping j →
    ∀ j', j < j' → s.relay.passes (passNumber i j') = .start
  isOpen : ∀ i j done todo n, s.relay.passes (passNumber i j) = .publishing done todo n →
    s.loops i = .passing j

/-- A step of one relay that leaves the passes but its `j`-th. -/
theorem LoopInv.update (hinv : LoopInv s) (hi : s.loops i = .passing j ∨ s.loops i = .sleeping j)
    {r : RelayState} (hr : RelayInv r)
    (hoff : ∀ k, k ≠ passNumber i j → r.passes k = s.relay.passes k)
    {pc : LoopPc} (hpass : ∀ j', pc = .passing j' →
      j' = j ∧ (r.passes (passNumber i j)).published? = none ∨ j' = j + 1)
    (hsleep : ∀ j', pc = .sleeping j' → j' = j)
    (hopen : ∀ done todo n, r.passes (passNumber i j) = .publishing done todo n → pc = .passing j) :
    LoopInv ({ s with relay := r }.setLoop i pc) := by
  have hother : ∀ {i' : ℕ}, i' ≠ i → ∀ j', r.passes (passNumber i' j') =
      s.relay.passes (passNumber i' j') := fun hne j' =>
    hoff _ fun h => hne (passNumber_inj.1 h).1
  have hnext : ∀ j', j < j' → r.passes (passNumber i j') = .start := fun j' hj' => by
    rw [hoff _ fun h => hj'.ne' (passNumber_inj.1 h).2]
    exact hinv.later i j hi j' hj'
  refine ⟨hr, fun i' j' h => ?_, fun i' j' h j'' hlt => ?_, fun i' j' done todo n h => ?_⟩
  · by_cases hne : i' = i
    · subst hne
      rcases hpass j' (by simpa [LoopState.setLoop] using h) with ⟨rfl, hpc⟩ | rfl
      · exact hpc
      · show (r.passes _).published? = none
        rw [hnext _ (Nat.lt_succ_self j)]
        rfl
    · show (r.passes _).published? = none
      rw [hother hne]
      exact hinv.current i' j' (by simpa [LoopState.setLoop, hne] using h)
  · by_cases hne : i' = i
    · subst hne
      refine hnext j'' (lt_of_le_of_lt ?_ hlt)
      rcases h with h | h
      · rcases hpass j' (by simpa [LoopState.setLoop] using h) with ⟨rfl, -⟩ | rfl
        · exact le_rfl
        · exact Nat.le_succ j
      · exact (hsleep j' (by simpa [LoopState.setLoop] using h)).ge
    · show r.passes _ = .start
      rw [hother hne]
      exact hinv.later i' j' (by simpa [LoopState.setLoop, hne] using h) j'' hlt
  · change r.passes _ = _ at h
    by_cases hne : i' = i
    · subst hne
      by_cases hj : j' = j
      · subst hj
        simpa [LoopState.setLoop] using hopen done todo n h
      · rw [hoff _ fun h => hj (passNumber_inj.1 h).2] at h
        have hcurrent := hinv.isOpen i' j' done todo n h
        rcases hi with hi | hi <;> rw [hi] at hcurrent <;> simp at hcurrent
        exact absurd hcurrent.symm hj
    · rw [hother hne] at h
      simpa [LoopState.setLoop, hne] using hinv.isOpen i' j' done todo n h

theorem loopInv_step (hinv : LoopInv s) (h : (relayLoops batchSize).step s a = some s') :
    LoopInv s' := by
  cases loopStep_trans h with
  | @pass i j act r hi hstep =>
    have hrelay : (relayMachine (passBatchSize batchSize)).step s.relay
      (.pass (passNumber i j) act) = some r := hstep
    refine hinv.update (.inl hi) (relayInv_step hinv.relay hrelay)
      (fun k hk => passStep_passes hstep hk) (fun j' hj' => ?_) (fun j' hj' => ?_)
      fun done todo n hpc => ?_
    · exact (loopAfter_passing hj').imp id And.left
    · exact (loopAfter_sleeping hj').1
    · rw [hpc]
      rfl
  | @wake i j hi =>
    refine hinv.update (.inr hi) hinv.relay (fun _ _ => rfl) (fun j' hj' => ?_) (fun j' hj' => ?_)
      fun done todo n hpc => ?_
    · cases hj'
      exact .inr rfl
    · cases hj'
    · exact absurd (hi.symm.trans (hinv.isOpen i j done todo n hpc)) (by simp)
  | @cancelPass i j r hi hstep =>
    have hrelay : (relayMachine (passBatchSize batchSize)).step s.relay
      (.pass (passNumber i j) .abort) = some r := hstep
    refine hinv.update (.inl hi) (relayInv_step hinv.relay hrelay)
      (fun k hk => passStep_passes hstep hk) (by simp) (by simp) fun done todo n hpc => ?_
    cases passStep_trans hstep
    simp at hpc
  | @cancelSleep i j hi =>
    refine hinv.update (.inr hi) hinv.relay (fun _ _ => rfl) (by simp) (by simp)
      fun done todo n hpc => ?_
    exact absurd (hi.symm.trans (hinv.isOpen i j done todo n hpc)) (by simp)
  | insert hstep =>
    have hr := relayInv_step hinv.relay hstep
    cases relayMachine_trans hstep with
    | insert hnew hfresh => exact ⟨hr, hinv.current, hinv.later, hinv.isOpen⟩

theorem loopInv_init {outbox : List OutboxRow} (hids : (outbox.map OutboxRow.id).Nodup) :
    LoopInv (.init outbox) :=
  ⟨relayInv_init hids, fun _ _ _ => rfl, fun _ _ _ _ _ => rfl, fun i j done todo n h => by cases h⟩

theorem loopInv_run {outbox : List OutboxRow} (hids : (outbox.map OutboxRow.id).Nodup)
    {as : List LoopLabel} {s : LoopState}
    (h : (relayLoops batchSize).run (.init outbox) as = some s) : LoopInv s :=
  Machine.inv_run (fun _ _ _ => loopInv_step) (loopInv_init hids) h

/-! ## What the passes return -/

/-- The relay whose pass a step ends, and what `published` is then. -/
def passEnd? : LoopState × LoopLabel × LoopState → Option (ℕ × ℕ)
  | (s, .pass i _, s') =>
    match s.loops i with
    | .passing j => (s'.relay.passes (passNumber i j)).published?.map fun n => (i, n)
    | .sleeping _ | .cancelled => none
  | (_, .wake _, _) | (_, .cancel _, _) | (_, .insert _, _) => none

/-- The passes that ended in some steps. -/
def passEnds (steps : List (LoopState × LoopLabel × LoopState)) : List (ℕ × ℕ) :=
  steps.filterMap passEnd?

/-- A pass of relay `i` ends with nothing published. -/
def isFruitless (i : ℕ) (x : LoopState × LoopLabel × LoopState) : Bool := passEnd? x = some (i, 0)

def isWakeOf (i : ℕ) (x : LoopState × LoopLabel × LoopState) : Bool :=
  match x.2.1 with
  | .wake i' => i' = i
  | .pass _ _ | .cancel _ | .insert _ => false

def publishedRows (outbox : List OutboxRow) : ℕ := outbox.countP fun r => r.publishedAt.isSome

/-- The rows a step publishes are those its pass returns. -/
theorem publishedRows_step (hinv : LoopInv s) (h : (relayLoops batchSize).step s a = some s') :
    publishedRows s'.relay.outbox =
      publishedRows s.relay.outbox + (passEnd? (s, a, s')).elim 0 Prod.snd := by
  cases loopStep_trans h with
  | wake | cancelSleep => rfl
  | @pass i j act r hi hstep =>
    have hok := relayStepOk (a := .pass (passNumber i j) act) hinv.relay hstep
    simp only [passEnd?, hi, LoopState.setLoop]
    cases passStep_trans hstep with
    | lock => simp [PassPc.published?, RelayState.lock]
    | publish => simp [PassPc.published?]
    | abort => simp [PassPc.published?, RelayState.unlock]
    | commit =>
      obtain ⟨n, hn, hcount⟩ := (hok.commits _ rfl).returns
      rw [hn]
      exact hcount
  | cancelPass hi hstep =>
    cases passStep_trans hstep
    rfl
  | insert hstep =>
    cases relayMachine_trans hstep with
    | insert hnew hfresh => simp [publishedRows, passEnd?, List.countP_append, hnew]

def isPassing (pc : LoopPc) : Bool :=
  match pc with
  | .passing _ => true
  | .sleeping _ | .cancelled => false

/-- A pass that returns zero puts its relay to sleep, and only the end of the sleep begins
another. -/
theorem fruitless_step (i : ℕ) (h : (relayLoops batchSize).step s a = some s') :
    (if isFruitless i (s, a, s') then 1 else 0)
        + (if isPassing (s'.loops i) then 1 else 0)
      ≤ (if isWakeOf i (s, a, s') then 1 else 0) + if isPassing (s.loops i) then 1 else 0 := by
  cases loopStep_trans h with
  | @pass i' j act r hi hstep =>
    by_cases hne : i' = i
    · subst hne
      simp only [isFruitless, passEnd?, hi, isWakeOf, LoopState.setLoop, Function.update_self,
        loopAfter]
      rcases (r.passes (passNumber i' j)).published? with _ | _ | n <;> simp [isPassing]
    · have hend : isFruitless i (s, .pass i' act, { s with relay := r }.setLoop i' (loopAfter j
          (r.passes (passNumber i' j)))) = false := by
        simp [isFruitless, passEnd?, hi, hne]
      rw [hend]
      simp [LoopState.setLoop, Function.update_of_ne (Ne.symm hne)]
  | @wake i' j hi =>
    by_cases hne : i' = i
    · subst hne
      simp [isFruitless, passEnd?, isWakeOf, isPassing, hi, LoopState.setLoop]
    · simp [isFruitless, passEnd?, LoopState.setLoop, Function.update_of_ne (Ne.symm hne)]
  | @cancelPass i' j r hi hstep =>
    by_cases hne : i' = i
    · subst hne
      simp [isFruitless, passEnd?, isPassing, LoopState.setLoop]
    · simp [isFruitless, passEnd?, LoopState.setLoop, Function.update_of_ne (Ne.symm hne)]
  | @cancelSleep i' j hi =>
    by_cases hne : i' = i
    · subst hne
      simp [isFruitless, passEnd?, isPassing, LoopState.setLoop]
    · simp [isFruitless, passEnd?, LoopState.setLoop, Function.update_of_ne (Ne.symm hne)]
  | insert => simp [isFruitless, passEnd?]

end

/-- Any number of relays in their loops: their passes are a run of `relayMachine`, a relay asleep or
cancelled holds no lock, the passes return the number of rows that get published, all in all, so no
more of them than these rows return without a sleep, and no relay passes without a result more often
than it has slept, but for the first time. -/
theorem relay_loops {batchSize : ℕ → ℕ} {outbox : List OutboxRow}
    (hids : (outbox.map OutboxRow.id).Nodup) {as : List LoopLabel} {s : LoopState}
    (hrun : (relayLoops batchSize).run (.init outbox) as = some s) :
    (∃ bs, (relayMachine (passBatchSize batchSize)).run (.init outbox) bs = some s.relay)
      ∧ (∀ l ∈ s.relay.locks, ∃ i j, l.pass = passNumber i j ∧ s.loops i = .passing j)
      ∧ publishedRows s.relay.outbox = publishedRows outbox
        + ((passEnds ((relayLoops batchSize).steps (.init outbox) as)).map Prod.snd).sum
      ∧ publishedRows outbox
        + (passEnds ((relayLoops batchSize).steps (.init outbox) as)).countP (fun e => e.2 ≠ 0)
          ≤ publishedRows s.relay.outbox
      ∧ ∀ i, ((relayLoops batchSize).steps (.init outbox) as).countP (isFruitless i)
        ≤ ((relayLoops batchSize).steps (.init outbox) as).countP (isWakeOf i) + 1 := by
  have hinv := loopInv_run hids hrun
  have hsum : publishedRows s.relay.outbox = publishedRows outbox
      + ((passEnds ((relayLoops batchSize).steps (.init outbox) as)).map Prod.snd).sum := by
    rw [passEnds, Amortized.sum_map_filterMap]
    exact Machine.accrues (I := LoopInv) (f := fun u => publishedRows u.relay.outbox) _
      (fun _ _ _ => loopInv_step) (fun _ _ => publishedRows_step) (loopInv_init hids) hrun
  refine ⟨relay_of_loops hrun, fun l hl => ?_, hsum, ?_, fun i => ?_⟩
  · obtain ⟨done, todo, n, hpc⟩ := hinv.relay.held l hl
    obtain ⟨i, j, hk⟩ := exists_passNumber l.pass
    exact ⟨i, j, hk, hinv.isOpen i j done todo n (hk ▸ hpc)⟩
  · have hfruitful := Amortized.countP_pos_le_sum
      ((passEnds ((relayLoops batchSize).steps (.init outbox) as)).map Prod.snd)
    rw [List.countP_map] at hfruitful
    simp only [Function.comp_def] at hfruitful
    omega
  · have hpay := Machine.amortized (M := relayLoops batchSize) (I := fun _ => True)
      (fun u => if isPassing (u.loops i) then 1 else 0)
      (fun x => if isFruitless i x then 1 else 0)
      (fun x => if isWakeOf i x then 1 else 0) (fun _ _ _ _ _ => trivial)
      (fun x _ _ hstep => fruitless_step i hstep) trivial hrun
    rw [Amortized.sum_map_ite, Amortized.sum_map_ite] at hpay
    have hfirst : isPassing ((LoopState.init outbox).loops i) = true := rfl
    rw [hfirst] at hpay
    simp only [if_true] at hpay
    omega

/-- Two relays with batches of one. The second finds the only row locked and sleeps; after a row
more it publishes that, while the first comes back to an empty batch and is cancelled asleep. -/
def twoRelays : List LoopLabel :=
  [.pass 0 (.lock [sampleMessage.id]), .pass 1 (.lock [sampleMessage.id]), .pass 1 .commit,
    .pass 0 (.publish (.published 5)), .pass 0 .commit, .insert otherMessage, .wake 1,
    .pass 1 (.lock [sampleMessage.id, otherMessage.id]), .pass 0 (.lock [sampleMessage.id]),
    .pass 1 (.publish (.published 7)), .pass 0 .commit, .pass 1 .commit, .cancel 0]

theorem twoRelays_loops : ∃ s,
    (relayLoops fun _ => 1).run (.init [sampleMessage]) twoRelays = some s
    ∧ passEnds ((relayLoops fun _ => 1).steps (.init [sampleMessage]) twoRelays)
      = [(1, 0), (0, 1), (0, 0), (1, 1)]
    ∧ publishedRows s.relay.outbox = 2 := by
  have hsome : ((relayLoops fun _ => 1).run (.init [sampleMessage]) twoRelays).isSome = true := by
    decide +kernel
  have hends : passEnds ((relayLoops fun _ => 1).steps (.init [sampleMessage]) twoRelays)
      = [(1, 0), (0, 1), (0, 0), (1, 1)] := by decide +kernel
  obtain ⟨s, hs⟩ := Option.isSome_iff_exists.1 hsome
  have hsum := (relay_loops (by decide) hs).2.2.1
  rw [hends] at hsum
  exact ⟨s, hs, hends, hsum⟩

end PaymentService
