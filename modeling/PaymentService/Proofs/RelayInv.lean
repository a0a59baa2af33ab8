import PaymentService.Proofs.RelaySteps
import Mathlib.Data.List.Dedup

/-!
# The invariant of the relay

The rows a pass has locked are its batch; those still to publish are in the table as it loaded
them, and those it is through with are what their publish made of such a row. What the broker has
accepted from a pass tells where the row is: through with in a pass under way, published if the
pass has committed and its publish returned.
-/

namespace PaymentService

open Python Labelled

/-- What a pass between two of its steps holds. -/
structure Holds (s : RelayState) (k : ℕ) (done todo : List OutboxRow) (n : ℕ) : Prop where
  locks : ∀ id, RowLock.mk k id ∈ s.locks ↔ id ∈ (done ++ todo).map OutboxRow.id
  nodup : ((done ++ todo).map OutboxRow.id).Nodup
  waiting : ∀ m ∈ todo, m ∈ s.outbox ∧ m.publishedAt = none
  through : ∀ d ∈ done, ∃ m ∈ s.outbox, m.publishedAt = none ∧ ∃ o, d = m.afterPublish o ∧
    (o.isPublished = true → Accepted.mk k m.id m.eventType m.payload true ∈ s.accepted)
  count : n = done.countP fun d => d.publishedAt.isSome

/-- Where a row is that the broker has accepted from a pass. -/
def AcceptOk (s : RelayState) (a : Accepted) : PassPc → Prop
  | .start => False
  | .publishing done _ _ =>
    ∃ d ∈ done, d.id = a.id ∧ (a.confirmed = true → d.publishedAt.isSome = true)
  | .committed _ => a.confirmed = true → ∃ r ∈ s.outbox, r.id = a.id ∧ r.publishedAt.isSome = true
  | .aborted => True

structure RelayInv (s : RelayState) : Prop where
  ids : (s.outbox.map OutboxRow.id).Nodup
  locks : (s.locks.map RowLock.id).Nodup
  held : ∀ l ∈ s.locks, ∃ done todo n, s.passes l.pass = .publishing done todo n
  live : ∀ k done todo n, s.passes k = .publishing done todo n → Holds s k done todo n
  accepted : ∀ a ∈ s.accepted, AcceptOk s a (s.passes a.pass)
  once : (s.accepted.map fun a => (a.pass, a.id)).Nodup

section

variable {s s' : RelayState} {k j : ℕ} {done todo : List OutboxRow} {n : ℕ}

theorem RelayInv.pass_of_lock (hinv : RelayInv s) {id : UUID} (hj : RowLock.mk j id ∈ s.locks)
    (hk : RowLock.mk k id ∈ s.locks) : j = k :=
  congrArg RowLock.pass (List.inj_on_of_nodup_map hinv.locks hj hk rfl)

theorem RelayInv.not_locked (hinv : RelayInv s)
    (hk : ∀ done todo n, s.passes k ≠ .publishing done todo n) (id : UUID) :
    RowLock.mk k id ∉ s.locks := by
  intro h
  obtain ⟨done, todo, n, hpc⟩ := hinv.held _ h
  exact hk done todo n hpc

/-- Rows of a batch that are not the changed ones stay what the pass holds. -/
theorem Holds.mono (h : Holds s k done todo n)
    (hlocks : ∀ id, RowLock.mk k id ∈ s'.locks ↔ RowLock.mk k id ∈ s.locks)
    (hrows : ∀ m ∈ s.outbox, RowLock.mk k m.id ∈ s.locks → m ∈ s'.outbox)
    (haccepted : ∀ a ∈ s.accepted, a ∈ s'.accepted) : Holds s' k done todo n where
  locks id := (hlocks id).trans (h.locks id)
  nodup := h.nodup
  waiting m hm := by
    obtain ⟨hrow, hnone⟩ := h.waiting m hm
    exact ⟨hrows m hrow ((h.locks _).2 (List.mem_map_of_mem (List.mem_append_right _ hm))), hnone⟩
  through d hd := by
    obtain ⟨m, hrow, hnone, o, rfl, hacc⟩ := h.through d hd
    have hid := List.mem_map_of_mem (f := OutboxRow.id) (List.mem_append_left todo hd)
    rw [OutboxRow.afterPublish_id] at hid
    exact ⟨m, hrows m hrow ((h.locks _).2 hid), hnone, o, rfl, fun ho => haccepted _ (hacc ho)⟩
  count := h.count

/-- A step of one pass as the others see it. -/
theorem live_of_update (hinv : RelayInv s) {pc : PassPc}
    (hpasses : s'.passes = Function.update s.passes k pc)
    (hlocks : ∀ j id, j ≠ k → (RowLock.mk j id ∈ s'.locks ↔ RowLock.mk j id ∈ s.locks))
    (hrows : ∀ m ∈ s.outbox, RowLock.mk k m.id ∉ s.locks → m ∈ s'.outbox)
    (haccepted : ∀ a ∈ s.accepted, a ∈ s'.accepted)
    (hk : ∀ done todo n, pc = .publishing done todo n → Holds s' k done todo n) :
    ∀ j done todo n, s'.passes j = .publishing done todo n → Holds s' j done todo n := by
  intro j done todo n hj
  rw [hpasses] at hj
  by_cases hjk : j = k
  · subst hjk
    rw [Function.update_self] at hj
    exact hk done todo n hj
  · rw [Function.update_of_ne hjk] at hj
    refine (hinv.live j done todo n hj).mono (fun id => hlocks j id hjk) (fun m hm hlock => ?_)
      haccepted
    exact hrows m hm fun hlock' => hjk (hinv.pass_of_lock hlock hlock')

theorem AcceptOk.mono {a : Accepted} {pc : PassPc} (h : AcceptOk s a pc)
    (hrows : ∀ r ∈ s.outbox, r.publishedAt.isSome = true → r ∈ s'.outbox) : AcceptOk s' a pc := by
  cases pc with
  | start => exact h
  | publishing done todo n => exact h
  | committed n =>
    intro hc
    obtain ⟨r, hr, hid, hp⟩ := h hc
    exact ⟨r, hrows r hr hp, hid, hp⟩
  | aborted => trivial

theorem held_of_update (hinv : RelayInv s) {pc : PassPc}
    (hpasses : s'.passes = Function.update s.passes k pc)
    (hlocks : ∀ l ∈ s'.locks, l.pass ≠ k → l ∈ s.locks)
    (hk : ∀ l ∈ s'.locks, l.pass = k → ∃ done todo n, pc = .publishing done todo n) :
    ∀ l ∈ s'.locks, ∃ done todo n, s'.passes l.pass = .publishing done todo n := by
  intro l hl
  rw [hpasses]
  by_cases hlk : l.pass = k
  · rw [hlk, Function.update_self]
    exact hk l hl hlk
  · rw [Function.update_of_ne hlk]
    exact hinv.held l (hlocks l hl hlk)

/-- What the broker accepted before a step of one pass. -/
theorem accepted_of_update (hinv : RelayInv s) {pc : PassPc}
    (hpasses : s'.passes = Function.update s.passes k pc)
    (hrows : ∀ r ∈ s.outbox, r.publishedAt.isSome = true → r ∈ s'.outbox)
    (hk : ∀ a, AcceptOk s a (s.passes k) → AcceptOk s' a pc) :
    ∀ a ∈ s.accepted, AcceptOk s' a (s'.passes a.pass) := by
  intro a ha
  have hok := hinv.accepted a ha
  rw [hpasses]
  by_cases hak : a.pass = k
  · rw [hak, Function.update_self]
    exact hk a (hak ▸ hok)
  · rw [Function.update_of_ne hak]
    exact hok.mono hrows

end

/-! ## Every step keeps the invariant -/

section

variable {s : RelayState} {k : ℕ} {done todo : List OutboxRow} {m : OutboxRow} {n : ℕ}

theorem RelayInv.lock (hinv : RelayInv s) (hk : s.passes k = .start) {order : List UUID}
    (horder : isSnapshotOrder s.outbox order = true) (batchSize : ℕ) :
    RelayInv ((s.lock k (lockUnpublished s.outbox s.isLocked order batchSize)).setPass k
      (.publishing [] (lockUnpublished s.outbox s.isLocked order batchSize) 0)) := by
  have hnodup := nodup_lockUnpublished s.isLocked batchSize horder
  have hmem : ∀ m ∈ lockUnpublished s.outbox s.isLocked order batchSize,
      m ∈ s.outbox ∧ m.publishedAt = none ∧ s.isLocked m.id = false := fun _ => mem_lockUnpublished
  generalize lockUnpublished s.outbox s.isLocked order batchSize = batch at hnodup hmem
  have hnone := hinv.not_locked (k := k) (by simp [hk])
  have hlock : ∀ j id, RowLock.mk j id ∈ (s.lock k batch).locks ↔
      RowLock.mk j id ∈ s.locks ∨ (j = k ∧ id ∈ batch.map OutboxRow.id) := by
    intro j id
    simp only [RelayState.lock, List.mem_append, List.mem_map, RowLock.mk.injEq]
    refine or_congr_right ⟨?_, ?_⟩
    · rintro ⟨m, hm, rfl, rfl⟩
      exact ⟨rfl, m, hm, rfl⟩
    · rintro ⟨rfl, m, hm, rfl⟩
      exact ⟨m, hm, rfl, rfl⟩
  refine ⟨hinv.ids, ?_, held_of_update hinv rfl (fun l hl hne => ?_) fun _ _ _ => ⟨_, _, _, rfl⟩,
    ?_, accepted_of_update (s := s) hinv rfl (fun _ hr _ => hr) fun a hok => ?_, hinv.once⟩
  · have hmap : (s.lock k batch).locks.map RowLock.id
        = s.locks.map RowLock.id ++ batch.map OutboxRow.id := by
      simp [RelayState.lock, Function.comp_def]
    rw [RelayState.setPass_locks, hmap, List.nodup_append]
    refine ⟨hinv.locks, hnodup, fun a ha b hb hab => ?_⟩
    obtain ⟨l, hl, rfl⟩ := List.mem_map.1 ha
    obtain ⟨m, hm, rfl⟩ := List.mem_map.1 hb
    have hfree := (hmem m hm).2.2
    rw [RelayState.isLocked, List.any_eq_false] at hfree
    exact hfree l hl (by simpa using hab)
  · exact ((hlock l.pass l.id).1 hl).resolve_right fun h => hne h.1
  · refine live_of_update hinv rfl (fun j id hj => ?_) (fun m hm _ => hm) (fun _ h => h) ?_
    · simp [hlock, hj]
    · rintro done todo n hpc
      cases hpc
      refine ⟨fun id => ?_, hnodup, fun m hm => ⟨(hmem m hm).1, (hmem m hm).2.1⟩, by simp, rfl⟩
      simp [hlock, hnone]
  · rw [hk] at hok
    exact hok.elim

/-- The broker has accepted nothing yet of what a pass has still to publish. -/
theorem RelayInv.not_accepted (hinv : RelayInv s)
    (hk : s.passes k = .publishing done (m :: todo) n) :
    ∀ a ∈ s.accepted, a.pass = k → a.id ≠ m.id := by
  intro a ha hpass hid
  have hok := hinv.accepted a ha
  rw [hpass, hk] at hok
  obtain ⟨d, hd, hdid, -⟩ := hok
  have hnodup := (hinv.live k done (m :: todo) n hk).nodup
  rw [List.map_append, List.nodup_append] at hnodup
  exact hnodup.2.2 _ (List.mem_map_of_mem hd) m.id (by simp) (hdid.trans hid)

/-- One message more is through, with what its publish made of it. -/
theorem Holds.publish (hheld : Holds s k done (m :: todo) n) (o : PublishOutcome) (pc : PassPc) :
    Holds ((s.offer k m o).setPass k pc) k (done ++ [m.afterPublish o]) todo
      (n + if o.isPublished then 1 else 0) := by
  obtain ⟨hrow, hnone⟩ := hheld.waiting m List.mem_cons_self
  have hids : ((done ++ [m.afterPublish o]) ++ todo).map OutboxRow.id
      = (done ++ m :: todo).map OutboxRow.id := by simp
  refine ⟨fun id => ?_, hids ▸ hheld.nodup, fun r hr => ?_, fun d hd => ?_, ?_⟩
  · rw [hids]
    simpa using hheld.locks id
  · simpa using hheld.waiting r (List.mem_cons_of_mem _ hr)
  · rw [RelayState.setPass_outbox, RelayState.offer_outbox, RelayState.setPass_accepted,
      RelayState.offer_accepted]
    rcases List.mem_append.1 hd with hd | hd
    · obtain ⟨r, hr, hrnone, o', rfl, hacc⟩ := hheld.through d hd
      exact ⟨r, hr, hrnone, o', rfl, fun ho => List.mem_append_left _ (hacc ho)⟩
    · refine ⟨m, hrow, hnone, o, List.mem_singleton.1 hd, fun ho => ?_⟩
      have hacc : o.isAccepted = true := by cases o <;> first | rfl | cases ho
      rw [if_pos hacc, ho]
      exact List.mem_append_right _ List.mem_cons_self
  · simp [List.countP_append, OutboxRow.afterPublish_published o hnone, ← hheld.count]

theorem RelayInv.publish (hinv : RelayInv s) (hk : s.passes k = .publishing done (m :: todo) n)
    (o : PublishOutcome) :
    RelayInv ((s.offer k m o).setPass k (.publishing (done ++ [m.afterPublish o]) todo
      (n + if o.isPublished then 1 else 0))) := by
  have hheld := hinv.live k done (m :: todo) n hk
  have hpublished := OutboxRow.afterPublish_published o (hheld.waiting m List.mem_cons_self).2
  have hpasses : ∀ pc, ((s.offer k m o).setPass k pc).passes = Function.update s.passes k pc :=
    fun pc => by rw [RelayState.setPass_passes, RelayState.offer_passes]
  have hsubset : ∀ a ∈ s.accepted, a ∈ (s.offer k m o).accepted := by
    intro a ha
    rw [RelayState.offer_accepted]
    exact List.mem_append_left _ ha
  refine ⟨?_, ?_, held_of_update hinv (hpasses _) (fun l hl _ => ?_) fun _ _ _ => ⟨_, _, _, rfl⟩,
    ?_, fun a ha => ?_, ?_⟩
  · simpa using hinv.ids
  · simpa using hinv.locks
  · simpa using hl
  · refine live_of_update hinv (hpasses _) (fun j id _ => by simp) (fun r hr _ => by simpa using hr)
      hsubset ?_
    rintro done' todo' n' hpc
    cases hpc
    exact hheld.publish o _
  · rw [RelayState.setPass_accepted, RelayState.offer_accepted] at ha
    rcases List.mem_append.1 ha with ha | ha
    · refine accepted_of_update hinv (hpasses _) (fun r hr _ => by simpa using hr) (fun a hok => ?_)
        a ha
      rw [hk] at hok
      obtain ⟨d, hd, hdok⟩ := hok
      exact ⟨d, List.mem_append_left _ hd, hdok⟩
    · split_ifs at ha
      · obtain rfl := List.mem_singleton.1 ha
        rw [hpasses, Function.update_self]
        exact ⟨_, List.mem_append_right _ List.mem_cons_self, by simp,
          fun ho => hpublished.trans ho⟩
      · cases ha
  · rw [RelayState.setPass_accepted, RelayState.offer_accepted, List.map_append,
      List.nodup_append]
    refine ⟨hinv.once, by split_ifs <;> simp, fun x hx y hy hxy => ?_⟩
    obtain ⟨a, ha, rfl⟩ := List.mem_map.1 hx
    split_ifs at hy
    · simp only [List.map_cons, List.map_nil, List.mem_singleton] at hy
      rw [hy, Prod.mk.injEq] at hxy
      exact hinv.not_accepted hk a ha hxy.1 hxy.2
    · cases hy

/-- A commit keeps the rows that were published before. -/
theorem mem_writeRows_of_published (hinv : RelayInv s) (hheld : Holds s k done todo n)
    {r : OutboxRow} (hr : r ∈ s.outbox) (hp : r.publishedAt.isSome = true) :
    r ∈ writeRows s.outbox done := by
  refine mem_writeRows_of_unchanged hr fun c hc hid => ?_
  obtain ⟨r', hr', hnone, o, rfl, -⟩ := hheld.through c hc
  rw [OutboxRow.afterPublish_id] at hid
  rw [List.inj_on_of_nodup_map hinv.ids hr' hr hid] at hnone
  simp [hnone] at hp

theorem mem_unlock {j : ℕ} {id : UUID} :
    RowLock.mk j id ∈ (s.unlock k).locks ↔ RowLock.mk j id ∈ s.locks ∧ j ≠ k := by
  simp [RelayState.unlock]

theorem RelayInv.commit (hinv : RelayInv s) (hk : s.passes k = .publishing done [] n) :
    RelayInv (({ s with outbox := writeRows s.outbox done }.unlock k).setPass k
      (.committed n)) := by
  have hheld := hinv.live k done [] n hk
  have hnodup : (done.map OutboxRow.id).Nodup := by simpa using hheld.nodup
  have hkeep : ∀ r ∈ s.outbox, RowLock.mk k r.id ∉ s.locks → r ∈ writeRows s.outbox done := by
    intro r hr hfree
    refine mem_writeRows_of_unchanged hr fun c hc hid => hfree ((hheld.locks _).2 ?_)
    rw [List.append_nil, ← hid]
    exact List.mem_map_of_mem hc
  refine ⟨?_, hinv.locks.sublist (List.filter_sublist.map _),
    held_of_update hinv rfl (fun l hl _ => (mem_unlock.1 hl).1)
      (fun l hl he => absurd he (mem_unlock.1 hl).2), ?_,
    accepted_of_update (s := s) hinv rfl (fun _ => mem_writeRows_of_published hinv hheld)
      (fun a hok => ?_), hinv.once⟩
  · exact (ids_writeRows s.outbox done).symm ▸ hinv.ids
  · refine live_of_update hinv rfl (fun j id hj => ?_) hkeep (fun _ h => h) (by simp)
    exact mem_unlock.trans (and_iff_left hj)
  · rw [hk] at hok
    obtain ⟨d, hd, hid, hdp⟩ := hok
    intro hc
    obtain ⟨r, hr, -, o, he, -⟩ := hheld.through d hd
    exact ⟨d, mem_writeRows_of_changed hnodup hr hd (by simp [he]), hid, hdp hc⟩

theorem RelayInv.abort (hinv : RelayInv s) (k : ℕ) :
    RelayInv ((s.unlock k).setPass k .aborted) := by
  refine ⟨hinv.ids, hinv.locks.sublist (List.filter_sublist.map _),
    held_of_update hinv rfl (fun l hl _ => (mem_unlock.1 hl).1)
      (fun l hl he => absurd he (mem_unlock.1 hl).2), ?_,
    accepted_of_update (s := s) hinv rfl (fun _ hr _ => hr) (fun _ _ => trivial), hinv.once⟩
  refine live_of_update hinv rfl (fun j id hj => ?_) (fun _ h _ => h) (fun _ h => h) (by simp)
  exact mem_unlock.trans (and_iff_left hj)

theorem RelayInv.insert (hinv : RelayInv s) {row : OutboxRow}
    (hfresh : ∀ r ∈ s.outbox, r.id ≠ row.id) :
    RelayInv { s with outbox := s.outbox ++ [row] } := by
  refine ⟨?_, hinv.locks, hinv.held, fun j done todo n hj => ?_, fun a ha => ?_, hinv.once⟩
  · rw [List.map_append, List.nodup_append]
    refine ⟨hinv.ids, by simp, fun a ha b hb hab => ?_⟩
    obtain ⟨r, hr, rfl⟩ := List.mem_map.1 ha
    simp only [List.map_cons, List.map_nil, List.mem_singleton] at hb
    exact hfresh r hr (hab.trans hb)
  · exact Holds.mono (s := s) (hinv.live j done todo n hj) (fun _ => Iff.rfl)
      (fun m hm _ => List.mem_append_left _ hm) fun _ h => h
  · exact AcceptOk.mono (s := s) (hinv.accepted a ha) fun _ hr _ => List.mem_append_left _ hr

end

theorem relayInv_step {batchSize : ℕ → ℕ} {s s' : RelayState} {a : RelayLabel}
    (hinv : RelayInv s) (h : (relayMachine batchSize).step s a = some s') : RelayInv s' := by
  cases relayMachine_trans h with
  | lock hk horder => exact hinv.lock hk horder _
  | publish hk => exact hinv.publish hk _
  | commit hk => exact hinv.commit hk
  | abort hk => exact hinv.abort _
  | insert hnew hfresh => exact hinv.insert hfresh

theorem relayInv_init {outbox : List OutboxRow} (hids : (outbox.map OutboxRow.id).Nodup) :
    RelayInv (.init outbox) := by
  refine ⟨hids, List.nodup_nil, ?_, ?_, ?_, List.nodup_nil⟩ <;> simp [RelayState.init]

theorem relayInv_run {batchSize : ℕ → ℕ} {outbox : List OutboxRow}
    (hids : (outbox.map OutboxRow.id).Nodup) {s : RelayState}
    (h : (relayMachine batchSize).Reachable (.init outbox) s) : RelayInv s :=
  h.inv (fun _ _ _ => relayInv_step) (relayInv_init hids)

end PaymentService
