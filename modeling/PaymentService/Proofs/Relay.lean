import PaymentService.Proofs.RelayInv

/-!
# What the relay guarantees

A commit is the only step that changes a row, and it changes the rows of its own batch. A row is
published at most once: a second confirmed publish of it would need the row unpublished and
locked, while the first one's pass holds it or has published it.
-/

namespace PaymentService

open Python Labelled

def PassPc.isAborted : PassPc → Bool
  | aborted => true
  | start | publishing _ _ _ | committed _ => false

namespace RelayState

/-- How often the broker has accepted a row. -/
def acceptancesOf (s : RelayState) (id : UUID) : ℕ := s.accepted.countP fun a => a.id = id

/-- The aborted passes from which the broker accepted a row. -/
def abortedPassesOf (s : RelayState) (id : UUID) : List ℕ :=
  ((s.accepted.filter fun a => a.id = id ∧ (s.passes a.pass).isAborted).map Accepted.pass).dedup

/-- The publishes of a row that raised although the broker had accepted it. -/
def unconfirmedOf (s : RelayState) (id : UUID) : ℕ :=
  s.accepted.countP fun a => a.id = id ∧ a.confirmed = false

end RelayState

/-! ## What a commit does -/

/-- A row of a batch after its pass: published with its attempts as they were, or unpublished with
one more and the error. -/
def Settled (r r' : OutboxRow) : Prop :=
  r.publishedAt = none ∧ ((∃ t, r' = { r with publishedAt := some t }) ∨
    ∃ e : String, e.length ≤ MAX_LAST_ERROR_LENGTH ∧
      r' = { r with attempts := r.attempts + 1, lastError := some e })

theorem settled_afterPublish {r : OutboxRow} (h : r.publishedAt = none) (o : PublishOutcome) :
    Settled r (r.afterPublish o) := by
  refine ⟨h, ?_⟩
  cases o with
  | published t => exact .inl ⟨t, rfl⟩
  | refused e | unconfirmed e => exact .inr ⟨_, length_truncate_le _ _, rfl⟩

/-- What the commit of a pass does to the table, and what `publish_batch` returns. -/
structure CommitOk (s : RelayState) (k : ℕ) (s' : RelayState) : Prop where
  ids : s'.outbox.map OutboxRow.id = s.outbox.map OutboxRow.id
  others : ∀ r ∈ s.outbox, RowLock.mk k r.id ∉ s.locks → r ∈ s'.outbox
  batch : ∀ r ∈ s.outbox, RowLock.mk k r.id ∈ s.locks → ∃ r' ∈ s'.outbox, Settled r r'
  returns : ∃ n, s'.passes k = .committed n ∧
    s'.outbox.countP (fun r => r.publishedAt.isSome)
      = s.outbox.countP (fun r => r.publishedAt.isSome) + n

/-- What a step does to the published rows and to the others. -/
structure RelayStepOk (s : RelayState) (a : RelayLabel) (s' : RelayState) : Prop where
  published : ∀ r' ∈ s'.outbox, r'.publishedAt ≠ none → r' ∈ s.outbox ∨
    ∃ k, a = .pass k .commit ∧ RowLock.mk k r'.id ∈ s.locks ∧
      Accepted.mk k r'.id r'.eventType r'.payload true ∈ s.accepted
  kept : ∀ r ∈ s.outbox, r.publishedAt ≠ none → r ∈ s'.outbox
  commits : ∀ k, a = .pass k .commit → CommitOk s k s'
  idle : (∀ k, a ≠ .pass k .commit) → ∀ r ∈ s.outbox, r ∈ s'.outbox

section

variable {s s' : RelayState} {k : ℕ} {done : List OutboxRow} {n : ℕ}

/-- The rows a commit publishes are those it marked. -/
theorem countP_writeRows (hinv : RelayInv s) (hheld : Holds s k done [] n) :
    (writeRows s.outbox done).countP (fun r => r.publishedAt.isSome)
      = s.outbox.countP (fun r => r.publishedAt.isSome) + n := by
  have hdone : (done.map OutboxRow.id).Nodup := by simpa using hheld.nodup
  have hids : ((writeRows s.outbox done).map OutboxRow.id).Nodup :=
    (ids_writeRows _ _).symm ▸ hinv.ids
  have hperm : (((writeRows s.outbox done).filter fun r => r.publishedAt.isSome).map
      OutboxRow.id).Perm (((s.outbox.filter fun r => r.publishedAt.isSome).map OutboxRow.id)
        ++ (done.filter fun r => r.publishedAt.isSome).map OutboxRow.id) := by
    refine (List.perm_ext_iff_of_nodup (hids.sublist (List.filter_sublist.map _)) ?_).2 fun id => ?_
    · refine List.nodup_append.2 ⟨hinv.ids.sublist (List.filter_sublist.map _),
        hdone.sublist (List.filter_sublist.map _), fun a ha b hb hab => ?_⟩
      obtain ⟨r, hr, rfl⟩ := List.mem_map.1 ha
      obtain ⟨d, hd, rfl⟩ := List.mem_map.1 hb
      obtain ⟨hr, hp⟩ := List.mem_filter.1 hr
      obtain ⟨r', hr', hnone, o, rfl, -⟩ := hheld.through d (List.mem_filter.1 hd).1
      rw [OutboxRow.afterPublish_id] at hab
      rw [← List.inj_on_of_nodup_map hinv.ids hr hr' hab] at hnone
      simp [hnone] at hp
    · simp only [List.mem_append, List.mem_map, List.mem_filter]
      constructor
      · rintro ⟨r, ⟨hr, hp⟩, rfl⟩
        rcases mem_writeRows hr with ⟨hr, -⟩ | ⟨hr, -⟩
        · exact .inl ⟨r, ⟨hr, hp⟩, rfl⟩
        · exact .inr ⟨r, ⟨hr, hp⟩, rfl⟩
      · rintro (⟨r, ⟨hr, hp⟩, rfl⟩ | ⟨d, ⟨hd, hp⟩, rfl⟩)
        · exact ⟨r, ⟨mem_writeRows_of_published hinv hheld hr hp, hp⟩, rfl⟩
        · obtain ⟨r, hr, -, o, he, -⟩ := hheld.through d hd
          exact ⟨d, ⟨mem_writeRows_of_changed hdone hr hd (by simp [he]), hp⟩, rfl⟩
  have hlen := hperm.length_eq
  simp only [List.length_append, List.length_map, ← List.countP_eq_length_filter] at hlen
  rw [hlen, hheld.count]

theorem commitOk (hinv : RelayInv s) (hk : s.passes k = .publishing done [] n) :
    CommitOk s k (({ s with outbox := writeRows s.outbox done }.unlock k).setPass k
      (.committed n)) := by
  have hheld := hinv.live k done [] n hk
  have hdone : (done.map OutboxRow.id).Nodup := by simpa using hheld.nodup
  refine ⟨ids_writeRows _ _, fun r hr hfree => ?_, fun r hr hlocked => ?_, n,
    Function.update_self _ _ _, countP_writeRows hinv hheld⟩
  · refine mem_writeRows_of_unchanged hr fun c hc hid => hfree ((hheld.locks _).2 ?_)
    rw [List.append_nil, ← hid]
    exact List.mem_map_of_mem hc
  · have hmem := (hheld.locks _).1 hlocked
    rw [List.append_nil] at hmem
    obtain ⟨d, hd, hid⟩ := List.mem_map.1 hmem
    obtain ⟨r', hr', hnone, o, rfl, -⟩ := hheld.through d hd
    obtain rfl := List.inj_on_of_nodup_map hinv.ids hr' hr
      ((OutboxRow.afterPublish_id _ _).symm.trans hid)
    exact ⟨_, mem_writeRows_of_changed hdone hr hd hid, settled_afterPublish hnone o⟩

theorem relayStepOk {batchSize : ℕ → ℕ} {a : RelayLabel} (hinv : RelayInv s)
    (h : (relayMachine batchSize).step s a = some s') : RelayStepOk s a s' := by
  have hsame : s'.outbox = s.outbox → (∀ k, a ≠ .pass k .commit) → RelayStepOk s a s' :=
    fun he hne => ⟨fun r hr _ => .inl (he ▸ hr), fun r hr _ => he ▸ hr,
      fun k hk => absurd hk (hne k), fun _ r hr => he ▸ hr⟩
  cases relayMachine_trans h with
  | lock hk horder => exact hsame rfl (by simp)
  | publish hk => exact hsame (by simp) (by simp)
  | abort hk => exact hsame rfl (by simp)
  | @commit k done n hk =>
    have hheld := hinv.live k done [] n hk
    refine ⟨fun r hr hp => ?_, fun r hr hp => ?_, fun j hj => ?_, fun hne => absurd rfl (hne k)⟩
    · rcases mem_writeRows hr with ⟨hr, -⟩ | ⟨hd, -⟩
      · exact .inl hr
      · obtain ⟨r', -, hnone, o, rfl, hacc⟩ := hheld.through r hd
        have ho : o.isPublished = true := by
          rw [← OutboxRow.afterPublish_published o hnone]
          exact Option.isSome_iff_ne_none.2 hp
        refine .inr ⟨k, rfl, (hheld.locks _).2 ?_, by simpa using hacc ho⟩
        rw [List.append_nil]
        exact List.mem_map_of_mem hd
    · exact mem_writeRows_of_published hinv hheld hr (Option.isSome_iff_ne_none.2 hp)
    · cases hj
      exact commitOk hinv hk
  | insert hnew hfresh =>
    refine ⟨fun r hr hp => ?_, fun r hr _ => List.mem_append_left _ hr, fun k hk => (by cases hk),
      fun _ r hr => List.mem_append_left _ hr⟩
    rcases List.mem_append.1 hr with hr | hr
    · exact .inl hr
    · rw [List.mem_singleton.1 hr] at hp
      exact absurd hnew hp

end

/-! ## How often a row is accepted -/

/-- The confirmed publishes of a row come from one pass, the aborted passes aside. -/
def Single (s : RelayState) : Prop :=
  ∀ a ∈ s.accepted, ∀ b ∈ s.accepted, a.confirmed = true → b.confirmed = true →
    (s.passes a.pass).isAborted = false → (s.passes b.pass).isAborted = false →
    a.id = b.id → a.pass = b.pass

section

variable {s s' : RelayState} {k : ℕ}

/-- A row some pass is about to publish has no confirmed publish from a pass that was not
aborted. -/
theorem aborted_of_waiting (hinv : RelayInv s) {done todo : List OutboxRow} {m : OutboxRow}
    {n : ℕ} (hk : s.passes k = .publishing done (m :: todo) n) {a : Accepted}
    (ha : a ∈ s.accepted) (hid : a.id = m.id) (hc : a.confirmed = true) :
    (s.passes a.pass).isAborted = true := by
  have hheld := hinv.live k _ _ _ hk
  obtain ⟨hm, hnone⟩ := hheld.waiting m List.mem_cons_self
  have hok := hinv.accepted a ha
  rcases hpc : s.passes a.pass with _ | ⟨done', todo', n'⟩ | n' | _ <;> rw [hpc] at hok
  · exact hok.elim
  · obtain ⟨d, hd, hdid, -⟩ := hok
    have hlock : RowLock.mk k m.id ∈ s.locks := (hheld.locks _).2 (by simp)
    have hlock' : RowLock.mk a.pass m.id ∈ s.locks := by
      rw [(hinv.live _ _ _ _ hpc).locks, ← hid, ← hdid]
      exact List.mem_map_of_mem (List.mem_append_left _ hd)
    obtain rfl := hinv.pass_of_lock hlock hlock'
    rw [hk] at hpc
    cases hpc
    have hnodup := hheld.nodup
    rw [List.map_append, List.nodup_append] at hnodup
    exact absurd (hdid.trans hid) (hnodup.2.2 _ (List.mem_map_of_mem hd) m.id (by simp))
  · obtain ⟨r, hr, hrid, hp⟩ := hok hc
    rw [List.inj_on_of_nodup_map hinv.ids hr hm (hrid.trans hid)] at hp
    simp [hnone] at hp
  · rfl

/-- No step takes an aborted pass up again. -/
theorem isAborted_of_update {pc pc' : PassPc} (hk : s.passes k = pc) (hpc : pc.isAborted = false)
    {j : ℕ} (h : (Function.update s.passes k pc' j).isAborted = false) :
    (s.passes j).isAborted = false := by
  by_cases hj : j = k
  · rw [hj, hk]
    exact hpc
  · rwa [Function.update_of_ne hj] at h

theorem single_step {batchSize : ℕ → ℕ} {a : RelayLabel} (hinv : RelayInv s) (h : Single s)
    (hstep : (relayMachine batchSize).step s a = some s') : Single s' := by
  have hmove : ∀ {k pc pc'}, s.passes k = pc → pc.isAborted = false →
      s'.passes = Function.update s.passes k pc' → s'.accepted = s.accepted → Single s' := by
    intro k pc pc' hk hpc hpasses hacc b hb c hc hbc hcc hba hca hid
    rw [hacc] at hb hc
    rw [hpasses] at hba hca
    exact h b hb c hc hbc hcc (isAborted_of_update hk hpc hba) (isAborted_of_update hk hpc hca) hid
  cases relayMachine_trans hstep with
  | lock hk horder => exact hmove hk rfl rfl rfl
  | commit hk => exact hmove hk rfl rfl rfl
  | abort hk =>
    rcases hk with hk | ⟨done, todo, n, hk⟩
    · exact hmove hk rfl rfl rfl
    · exact hmove hk rfl rfl rfl
  | insert hnew hfresh => exact h
  | @publish k done todo m n o hk =>
    have hpasses : ∀ {j}, ((Function.update s.passes k (.publishing (done ++ [m.afterPublish o])
        todo (n + if o.isPublished then 1 else 0))) j).isAborted = false →
        (s.passes j).isAborted = false := isAborted_of_update hk rfl
    intro b hb c hc hbc hcc hba hca hid
    rw [RelayState.setPass_passes, RelayState.offer_passes] at hba hca
    rw [RelayState.setPass_accepted, RelayState.offer_accepted, List.mem_append] at hb hc
    have hnew : ∀ {x : Accepted}, (x ∈ if o.isAccepted = true then
        [Accepted.mk k m.id m.eventType m.payload o.isPublished] else []) →
        x.pass = k ∧ x.id = m.id := by
      intro x hx
      split_ifs at hx
      · rw [List.mem_singleton.1 hx]
        exact ⟨rfl, rfl⟩
      · cases hx
    have hold : ∀ {x : Accepted}, x ∈ s.accepted → x.confirmed = true →
        (s.passes x.pass).isAborted = false → x.id ≠ m.id := by
      intro x hx hxc hxa hxid
      rw [aborted_of_waiting hinv hk hx hxid hxc] at hxa
      cases hxa
    rcases hb with hb | hb <;> rcases hc with hc | hc
    · exact h b hb c hc hbc hcc (hpasses hba) (hpasses hca) hid
    · exact absurd (hid.trans (hnew hc).2) (hold hb hbc (hpasses hba))
    · exact absurd (hid.symm.trans (hnew hb).2) (hold hc hcc (hpasses hca))
    · exact (hnew hb).1.trans (hnew hc).1.symm

theorem length_le_one_of_nodup {α : Type} : ∀ {l : List α}, l.Nodup →
    (∀ a ∈ l, ∀ b ∈ l, a = b) → l.length ≤ 1
  | [], _, _ => Nat.zero_le _
  | [_], _, _ => le_refl _
  | a :: b :: l, hnodup, heq => by
    have hab := heq a List.mem_cons_self b (List.mem_cons_of_mem _ List.mem_cons_self)
    exact absurd (hab ▸ List.mem_cons_self) (List.nodup_cons.1 hnodup).1

theorem countP_le_add {α : Type} {p q r t : α → Bool}
    (h : ∀ a, p a = true → q a = true ∨ r a = true ∨ t a = true) :
    ∀ l : List α, l.countP p ≤ l.countP q + l.countP r + l.countP t
  | [] => by simp
  | a :: l => by
    have ih := countP_le_add h l
    have ha := h a
    simp only [List.countP_cons]
    split_ifs <;> simp_all <;> omega

/-- The broker accepts a row once, once more for each aborted pass it had accepted it from, and
once more for each publish that raised although it had. -/
theorem acceptancesOf_le (hinv : RelayInv s) (h : Single s) (id : UUID) :
    s.acceptancesOf id ≤ 1 + (s.abortedPassesOf id).length + s.unconfirmedOf id := by
  have hlast : s.accepted.countP (fun a => a.id = id ∧ a.confirmed = true ∧
      (s.passes a.pass).isAborted = false) ≤ 1 := by
    rw [List.countP_eq_length_filter, ← List.length_map fun a => (a.pass, a.id)]
    refine length_le_one_of_nodup (hinv.once.sublist (List.filter_sublist.map _)) ?_
    intro x hx y hy
    obtain ⟨a, ha, rfl⟩ := List.mem_map.1 hx
    obtain ⟨b, hb, rfl⟩ := List.mem_map.1 hy
    simp only [List.mem_filter, decide_eq_true_eq] at ha hb
    obtain ⟨ha, haid, hac, haa⟩ := ha
    obtain ⟨hb, hbid, hbc, hba⟩ := hb
    rw [Prod.mk.injEq]
    exact ⟨h a ha b hb hac hbc haa hba (haid.trans hbid.symm), haid.trans hbid.symm⟩
  have haborted : s.accepted.countP (fun a => a.id = id ∧ (s.passes a.pass).isAborted)
      = (s.abortedPassesOf id).length := by
    have hnodup : ((s.accepted.filter fun a => a.id = id ∧ (s.passes a.pass).isAborted).map
        Accepted.pass).Nodup := by
      refine (List.nodup_map_iff_inj_on ((hinv.once.of_map _).filter _)).2 fun a ha b hb hab => ?_
      simp only [List.mem_filter, Bool.decide_and, Bool.decide_eq_true, Bool.and_eq_true,
        decide_eq_true_eq] at ha hb
      exact List.inj_on_of_nodup_map hinv.once ha.1 hb.1
        (Prod.ext hab (ha.2.1.trans hb.2.1.symm))
    rw [RelayState.abortedPassesOf, hnodup.dedup, List.length_map, List.countP_eq_length_filter]
  have hall := countP_le_add (p := fun a : Accepted => a.id = id)
    (q := fun a => a.id = id ∧ a.confirmed = true ∧ (s.passes a.pass).isAborted = false)
    (r := fun a => a.id = id ∧ (s.passes a.pass).isAborted)
    (t := fun a => a.id = id ∧ a.confirmed = false) (fun a ha => ?_) s.accepted
  · unfold RelayState.acceptancesOf RelayState.unconfirmedOf
    omega
  · rcases hc : a.confirmed <;> rcases hb : (s.passes a.pass).isAborted <;> simp_all

end

/-! ## Runs -/

theorem confirmed_step {batchSize : ℕ → ℕ} {s s' : RelayState} {a : RelayLabel}
    (hstep : (relayMachine batchSize).step s a = some s')
    (hrefused : ∀ k e, a ≠ .pass k (.publish (.unconfirmed e)))
    (h : ∀ b ∈ s.accepted, b.confirmed = true) : ∀ b ∈ s'.accepted, b.confirmed = true := by
  cases relayMachine_trans hstep with
  | @publish k done todo m n o hk =>
    intro b hb
    rw [RelayState.setPass_accepted, RelayState.offer_accepted] at hb
    rcases List.mem_append.1 hb with hb | hb
    · exact h b hb
    · cases o with
      | published t =>
        rw [List.mem_singleton.1 hb]
        rfl
      | refused e => cases hb
      | unconfirmed e => exact absurd rfl (hrefused k e)
  | _ => exact h

/-- Where every publish that raised had been refused, all the broker has accepted is confirmed. -/
theorem unconfirmedOf_eq_zero {batchSize : ℕ → ℕ} {outbox : List OutboxRow} {as : List RelayLabel}
    {s : RelayState} (hrun : (relayMachine batchSize).run (.init outbox) as = some s)
    (hrefused : ∀ k e, RelayLabel.pass k (.publish (.unconfirmed e)) ∉ as) (id : UUID) :
    s.unconfirmedOf id = 0 := by
  have hall : ∀ a ∈ s.accepted, a.confirmed = true := by
    refine Machine.inv_run_steps (I := fun u => ∀ a ∈ u.accepted, a.confirmed = true)
      (fun x hx hstep hpre => confirmed_step hstep (fun k e hlabel => ?_) hpre)
      (by simp [RelayState.init]) hrun
    obtain ⟨-, as₁, as₂, has, -⟩ := Machine.mem_steps hx
    refine hrefused k e ?_
    rw [has, ← hlabel]
    simp
  exact List.countP_eq_zero.2 fun a ha => by simp [hall a ha]

/-- Any number of passes, with any batch sizes and outcomes: each step does to the table what
`RelayStepOk` says, a published row stays as it is, and the broker accepts no row twice but for an
aborted pass or a publish that raised after the broker had accepted. -/
theorem relay_safe {batchSize : ℕ → ℕ} {outbox : List OutboxRow}
    (hids : (outbox.map OutboxRow.id).Nodup) {as : List RelayLabel} {s : RelayState}
    (hrun : (relayMachine batchSize).run (.init outbox) as = some s) :
    (∀ x ∈ (relayMachine batchSize).steps (.init outbox) as,
      RelayStepOk x.1 x.2.1 x.2.2 ∧ ∀ r ∈ x.1.outbox, r.publishedAt ≠ none → r ∈ s.outbox)
      ∧ (∀ id, s.acceptancesOf id ≤ 1 + (s.abortedPassesOf id).length + s.unconfirmedOf id)
      ∧ ((∀ k e, RelayLabel.pass k (.publish (.unconfirmed e)) ∉ as) →
          ∀ id, s.acceptancesOf id ≤ 1 + (s.abortedPassesOf id).length) := by
  have hinv : ∀ {u}, (relayMachine batchSize).Reachable (.init outbox) u → RelayInv u :=
    fun hu => relayInv_run hids hu
  have hbound : ∀ id, s.acceptancesOf id
      ≤ 1 + (s.abortedPassesOf id).length + s.unconfirmedOf id := by
    have hboth : RelayInv s ∧ Single s := Machine.inv_run (M := relayMachine batchSize)
      (I := fun u => RelayInv u ∧ Single u)
      (fun _ _ _ hu h => ⟨relayInv_step hu.1 h, single_step hu.1 hu.2 h⟩)
      ⟨relayInv_init hids, by simp [Single, RelayState.init]⟩ hrun
    exact acceptancesOf_le hboth.1 hboth.2
  refine ⟨fun x hx => ?_, hbound, fun hrefused id => ?_⟩
  · have hpre := hinv (Machine.reachable_of_mem_steps hx).1
    have hok := relayStepOk hpre (Machine.mem_steps hx).1
    refine ⟨hok, fun r hr hp => ?_⟩
    obtain ⟨bs, hbs⟩ := Machine.run_after_mem_steps hrun hx
    have hpost := hinv (Machine.reachable_of_mem_steps hx).2
    exact Machine.rel_run (I := RelayInv)
      (R := fun u v => ∀ r ∈ u.outbox, r.publishedAt ≠ none → r ∈ v.outbox)
      (fun _ _ _ => relayInv_step) (fun _ _ _ hu h => (relayStepOk hu h).kept)
      (fun _ _ h _ => h) (fun u v w huv hvw r hr hp => hvw r (huv r hr hp) hp) hpost hbs r
      (hok.kept r hr hp) hp
  · have hle := hbound id
    rw [unconfirmedOf_eq_zero hrun hrefused id] at hle
    exact hle

/-- A pass aborted after its first publish, a pass that finds both rows locked, and a pass that
publishes the first row again. -/
def abortedThenPublished : List RelayLabel :=
  let order := [sampleMessage.id, otherMessage.id]
  [.pass 0 (.lock order), .pass 1 (.lock order), .pass 0 (.publish (.published 5)), .pass 1 .commit,
    .pass 0 .abort, .pass 2 (.lock order), .pass 2 (.publish (.published 7)),
    .pass 2 (.publish (.refused (.other "AMQPError" "closed"))), .pass 2 .commit]

theorem abortedThenPublished_safe : ∃ s, (relayMachine fun _ => 10).run
    (.init [sampleMessage, otherMessage]) abortedThenPublished = some s ∧
      s.acceptancesOf sampleMessage.id = 2 ∧
      s.acceptancesOf sampleMessage.id ≤ 1 + (s.abortedPassesOf sampleMessage.id).length := by
  have hids : ([sampleMessage, otherMessage].map OutboxRow.id).Nodup := by decide
  have htwice : ((relayMachine fun _ => 10).run (.init [sampleMessage, otherMessage])
      abortedThenPublished).map (fun s => s.acceptancesOf sampleMessage.id) = some 2 := by decide
  obtain ⟨s, hrun, htwice⟩ := Option.map_eq_some_iff.1 htwice
  refine ⟨s, hrun, htwice, (relay_safe hids hrun).2.2 (fun k e h => ?_) _⟩
  simp [abortedThenPublished] at h

end PaymentService
