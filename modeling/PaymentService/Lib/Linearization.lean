import PaymentService.Lib.Machine

/-!
# Linearization points

Operations run concurrently on shared data, each step one step of one of them. If every operation
does all it does to the data, and has its reply decided, in one of its own steps, then a run is as
good as the operations one after another in the order of these steps. The order is a sublist of the
run, so it keeps an operation that ended before another began in front of it.
-/

namespace Labelled

variable {σ ι δ ρ : Type*}

/-- Operations one after another, each with its reply. -/
def inOrder (op : δ → ι → δ × ρ) : δ → List ι → δ × List (ι × ρ)
  | d, [] => (d, [])
  | d, i :: is =>
    let rest := inOrder op (op d i).1 is
    (rest.1, (i, (op d i).2) :: rest.2)

theorem map_fst_inOrder (op : δ → ι → δ × ρ) :
    ∀ (d : δ) (is : List ι), (inOrder op d is).2.map Prod.fst = is
  | _, [] => rfl
  | d, i :: is => by rw [inOrder, List.map_cons, map_fst_inOrder op (op d i).1 is]

/-- Each step leaves the data and what is decided alone, or it is the point of its operation: what
it does to the data and what it decides are what the operation does alone. -/
structure Points (M : Machine σ ι) (I : σ → Prop) (shared : σ → δ) (op : δ → ι → δ × ρ)
    (decided : σ → ι → Option ρ) : Prop where
  inv : ∀ s i s', I s → M.step s i = some s' → I s'
  others : ∀ s i s', I s → M.step s i = some s' → ∀ j, j ≠ i → decided s' j = decided s j
  point : ∀ s i s', I s → M.step s i = some s' →
    (shared s' = shared s ∧ decided s' i = decided s i) ∨
      (shared s' = (op (shared s) i).1 ∧ decided s i = none ∧
        decided s' i = some (op (shared s) i).2)

namespace Points

variable {M : Machine σ ι} {I : σ → Prop} {shared : σ → δ} {op : δ → ι → δ × ρ}
  {decided : σ → ι → Option ρ}

theorem decided_step (h : Points M I shared op decided) {s s' : σ} {i j : ι} {r : ρ} (hs : I s)
    (hstep : M.step s i = some s') (hr : decided s j = some r) : decided s' j = some r := by
  by_cases hj : j = i
  · subst hj
    rcases h.point s j s' hs hstep with ⟨-, he⟩ | ⟨-, hnone, -⟩
    · rw [he, hr]
    · simp [hnone] at hr
  · rw [h.others s i s' hs hstep j hj, hr]

/-- What is decided stays so. -/
theorem decided_run (h : Points M I shared op decided) {j : ι} {r : ρ} {as : List ι} {s t : σ}
    (hs : I s) (hrun : M.run s as = some t) (hr : decided s j = some r) : decided t j = some r :=
  (Machine.inv_run (I := fun s => I s ∧ decided s j = some r)
    (fun _ _ _ hs hstep => ⟨h.inv _ _ _ hs.1 hstep, h.decided_step hs.1 hstep hs.2⟩)
    ⟨hs, hr⟩ hrun).2

theorem linearizable (h : Points M I shared op decided) :
    ∀ {as : List ι} {s t : σ}, I s → M.run s as = some t → ∃ order,
      List.Sublist order as ∧ order.Nodup
        ∧ (inOrder op (shared s) order).1 = shared t
        ∧ (∀ x ∈ (inOrder op (shared s) order).2, decided t x.1 = some x.2)
        ∧ (∀ i ∈ order, decided s i = none)
        ∧ ∀ i r, decided t i = some r → decided s i = some r ∨ i ∈ order
  | [], s, t, hs, hrun => by
    simp only [Machine.run_nil, Option.some.injEq] at hrun
    subst hrun
    exact ⟨[], .slnil, List.nodup_nil, rfl, by simp [inOrder], by simp, fun i r hr => .inl hr⟩
  | a :: as, s, t, hs, hrun => by
    obtain ⟨s', hstep, hrun⟩ := Machine.run_cons.1 hrun
    have hs' := h.inv s a s' hs hstep
    obtain ⟨order, hsub, hnodup, hshared, hreplies, hnew, hall⟩ := linearizable h hs' hrun
    have hothers := h.others s a s' hs hstep
    rcases h.point s a s' hs hstep with ⟨hdata, hsame⟩ | ⟨hdata, hnone, hsome⟩
    · have hdecided : ∀ i, decided s' i = decided s i := by
        intro i
        by_cases hi : i = a
        · rw [hi, hsame]
        · exact hothers i hi
      rw [hdata] at hshared hreplies
      exact ⟨order, hsub.cons _, hnodup, hshared, hreplies, fun i hi => hdecided i ▸ hnew i hi,
        fun i r hr => hdecided i ▸ hall i r hr⟩
    · have ha : a ∉ order := fun ha => by
        have := hnew a ha
        rw [hsome] at this
        cases this
      rw [hdata] at hshared hreplies
      refine ⟨a :: order, hsub.cons_cons _, List.nodup_cons.2 ⟨ha, hnodup⟩, hshared, ?_, ?_, ?_⟩
      · rw [inOrder, List.forall_mem_cons]
        exact ⟨h.decided_run hs' hrun hsome, hreplies⟩
      · rw [List.forall_mem_cons]
        refine ⟨hnone, fun i hi => ?_⟩
        rw [← hothers i (fun he => ha (he ▸ hi))]
        exact hnew i hi
      · intro i r hr
        by_cases hi : i = a
        · exact .inr (hi ▸ List.mem_cons_self)
        · rcases hall i r hr with hr | hi'
          · exact .inl (hothers i hi ▸ hr)
          · exact .inr (List.mem_cons_of_mem _ hi')

end Points

end Labelled
