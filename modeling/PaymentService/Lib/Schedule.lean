import PaymentService.Lib.Machine
import Mathlib.Logic.Relation

/-!
# Schedules

`Reaches P` says that a machine gets from one state to another by labels of a kind. A program that
runs alone is scheduled by a machine when each of its steps is such a run; then its whole runs are
(`Schedules.run`). A component of the state that has steps of its own takes them in the machine
too (`Reaches.embed`). Runs that bring a measure down, or that settle one index after another, are
put together by `exists_descent` and `exists_sweep`.
-/

namespace Labelled

namespace Machine

variable {σ τ α β S : Type*} {M : Machine σ α} {P : α → Prop} {s t u : σ}

/-- Labels of a kind lead from a state to another. -/
def Reaches (M : Machine σ α) (P : α → Prop) (s t : σ) : Prop :=
  ∃ as, (∀ a ∈ as, P a) ∧ M.run s as = some t

namespace Reaches

theorem refl (s : σ) : M.Reaches P s s := ⟨[], by simp, rfl⟩

theorem single {a : α} (ha : P a) (h : M.step s a = some t) : M.Reaches P s t :=
  ⟨[a], by simpa using ha, run_cons.2 ⟨t, h, rfl⟩⟩

theorem trans (h : M.Reaches P s t) (h' : M.Reaches P t u) : M.Reaches P s u := by
  obtain ⟨as, has, hrun⟩ := h
  obtain ⟨bs, hbs, hrun'⟩ := h'
  refine ⟨as ++ bs, fun a ha => ?_, run_append.2 ⟨t, hrun, hrun'⟩⟩
  rcases List.mem_append.1 ha with ha | ha
  · exact has a ha
  · exact hbs a ha

theorem head {a : α} (ha : P a) (h : M.step s a = some t) (h' : M.Reaches P t u) :
    M.Reaches P s u :=
  (single ha h).trans h'

theorem mono {Q : α → Prop} (hPQ : ∀ a, P a → Q a) (h : M.Reaches P s t) :
    M.Reaches Q s t := by
  obtain ⟨as, has, hrun⟩ := h
  exact ⟨as, fun a ha => hPQ a (has a ha), hrun⟩

theorem reachable {s₀ : σ} (h : M.Reaches P s t) (hs : M.Reachable s₀ s) :
    M.Reachable s₀ t := by
  obtain ⟨as, -, hrun⟩ := h
  obtain ⟨bs, hbs⟩ := hs
  exact ⟨bs ++ as, run_append.2 ⟨s, hbs, hrun⟩⟩

/-- What each step of the kind keeps, the run keeps. -/
theorem keeps {I : σ → Prop} (hstep : ∀ s a s', P a → I s → M.step s a = some s' → I s')
    (h : M.Reaches P s t) (hs : I s) : I t := by
  obtain ⟨as, has, hrun⟩ := h
  refine inv_run_steps (fun x hx hxstep hI => hstep _ _ _ (has _ ?_) hI hxstep) hs hrun
  obtain ⟨-, as₁, as₂, rfl, -⟩ := mem_steps hx
  exact List.mem_append_right _ List.mem_cons_self

/-- A run as a chain of steps of the kind. -/
theorem chain (h : M.Reaches P s t) :
    Relation.ReflTransGen (fun s s' => ∃ a, P a ∧ M.step s a = some s') s t := by
  obtain ⟨as, has, hrun⟩ := h
  induction as generalizing s with
  | nil =>
    obtain rfl := Option.some.inj hrun
    exact .refl
  | cons a as ih =>
    obtain ⟨s', hs', hrun'⟩ := run_cons.1 hrun
    exact .head ⟨a, has a List.mem_cons_self, hs'⟩
      (ih (fun b hb => has b (List.mem_cons_of_mem a hb)) hrun')

end Reaches

/-! ## Programs that run alone -/

/-- Each step of a program is a run of the machine, as the relation sees the two. -/
def Schedules (M : Machine σ α) (P : α → Prop) (R : S → σ → Prop) (step : S → S → Prop) : Prop :=
  ∀ s s' t, R s t → step s s' → ∃ t', M.Reaches P t t' ∧ R s' t'

theorem Schedules.run {R : S → σ → Prop} {step : S → S → Prop} (h : M.Schedules P R step)
    {s s' : S} (hrun : Relation.ReflTransGen step s s') (hR : R s t) :
    ∃ t', M.Reaches P t t' ∧ R s' t' := by
  induction hrun with
  | refl => exact ⟨t, .refl t, hR⟩
  | tail _ hstep ih =>
    obtain ⟨t₁, hreach₁, hR₁⟩ := ih
    obtain ⟨t', hreach, hR'⟩ := h _ _ t₁ hR₁ hstep
    exact ⟨t', hreach₁.trans hreach, hR'⟩

/-- A component that takes its own steps in a machine takes its runs there. -/
theorem Reaches.embed {N : Machine τ β} {Q : β → Prop} (f : σ → τ) (g : α → β)
    (hstep : ∀ s a s', P a → M.step s a = some s' → Q (g a) ∧ N.step (f s) (g a) = some (f s'))
    (h : M.Reaches P s t) : N.Reaches Q (f s) (f t) := by
  have hsched : N.Schedules Q (fun s u => u = f s) fun s s' => ∃ a, P a ∧ M.step s a = some s' := by
    rintro s s' _ rfl ⟨a, ha, hs⟩
    obtain ⟨hQ, hN⟩ := hstep s a s' ha hs
    exact ⟨f s', .single hQ hN, rfl⟩
  obtain ⟨_, hreach, rfl⟩ := hsched.run h.chain rfl
  exact hreach

/-! ## Runs put together -/

section

variable {I : σ → Prop} {Rel : σ → σ → Prop}

/-- If there is always a run that brings the measure down, there is one that brings it to zero. -/
theorem exists_descent (Rel : σ → σ → Prop) (μ : σ → ℕ) (hrefl : ∀ s, Rel s s)
    (htrans : ∀ s t u, Rel s t → Rel t u → Rel s u)
    (hdown : ∀ s, I s → μ s ≠ 0 → ∃ t, M.Reaches P s t ∧ I t ∧ Rel s t ∧ μ t < μ s) :
    ∀ (n : ℕ) (s : σ), μ s ≤ n → I s → ∃ t, M.Reaches P s t ∧ I t ∧ Rel s t ∧ μ t = 0
  | 0, s, hn, hs => ⟨s, .refl s, hs, hrefl s, Nat.le_zero.1 hn⟩
  | n + 1, s, hn, hs => by
    by_cases h0 : μ s = 0
    · exact ⟨s, .refl s, hs, hrefl s, h0⟩
    · obtain ⟨t, hst, ht, hrel, hlt⟩ := hdown s hs h0
      obtain ⟨u, htu, hu, hrel', hu0⟩ := exists_descent Rel μ hrefl htrans hdown n t (by omega) ht
      exact ⟨u, hst.trans htu, hu, htrans _ _ _ hrel hrel', hu0⟩

/-- If each index can be settled and stays settled, the first `n` can. -/
theorem exists_sweep {Q : ℕ → σ → Prop} (hrefl : ∀ s, Rel s s)
    (htrans : ∀ s t u, Rel s t → Rel t u → Rel s u)
    (hkeep : ∀ i s t, Rel s t → Q i s → Q i t)
    (hsettle : ∀ i s, I s → ∃ t, M.Reaches P s t ∧ I t ∧ Rel s t ∧ Q i t) :
    ∀ (n : ℕ) (s : σ), I s → ∃ t, M.Reaches P s t ∧ I t ∧ Rel s t ∧ ∀ i < n, Q i t
  | 0, s, hs => ⟨s, .refl s, hs, hrefl s, by simp⟩
  | n + 1, s, hs => by
    obtain ⟨t, hst, ht, hrel, hQ⟩ := exists_sweep hrefl htrans hkeep hsettle n s hs
    obtain ⟨u, htu, hu, hrel', hQn⟩ := hsettle n t ht
    refine ⟨u, hst.trans htu, hu, htrans _ _ _ hrel hrel', fun i hi => ?_⟩
    rcases Nat.lt_succ_iff_lt_or_eq.1 hi with hi | rfl
    · exact hkeep i t u hrel' (hQ i hi)
    · exact hQn

end

end Machine

end Labelled
