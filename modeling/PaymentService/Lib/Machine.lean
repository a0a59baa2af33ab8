import Mathlib.Data.List.Basic
import Mathlib.Data.List.Count

/-!
# Machines that take labelled steps

A machine's step on a label is a partial function, so a run is a list of labels. An invariant is
carried along a run one step at a time (`inv_run`), and so is a relation that every step obeys
(`rel_run`); `steps` lists what a run did, each label with the state before and after it.
-/

namespace Labelled

/-- A machine over states `σ` with labels `α`; `none` is a step it cannot take. -/
structure Machine (σ α : Type*) where
  step : σ → α → Option σ

namespace Machine

variable {σ α : Type*} (M : Machine σ α)

def run : σ → List α → Option σ
  | s, [] => some s
  | s, a :: as => (M.step s a).bind fun s' => run s' as

/-- The steps of a run, each with the state before it and the state after it. -/
def steps : σ → List α → List (σ × α × σ)
  | _, [] => []
  | s, a :: as =>
    match M.step s a with
    | none => []
    | some s' => (s, a, s') :: steps s' as

/-- The states a machine started in `s₀` can be in. -/
def Reachable (s₀ s : σ) : Prop := ∃ as, M.run s₀ as = some s

variable {M}

@[simp]
theorem run_nil (s : σ) : M.run s [] = some s := rfl

theorem run_cons {s t : σ} {a : α} {as : List α} :
    M.run s (a :: as) = some t ↔ ∃ s', M.step s a = some s' ∧ M.run s' as = some t := by
  simp [run, Option.bind_eq_some_iff]

theorem run_append : ∀ {s t : σ} {as bs : List α},
    M.run s (as ++ bs) = some t ↔ ∃ s', M.run s as = some s' ∧ M.run s' bs = some t
  | s, t, [], bs => by simp
  | s, t, a :: as, bs => by
    simp only [List.cons_append, run_cons, @run_append _ t as bs]
    constructor
    · rintro ⟨s₁, h₁, s₂, h₂, h₃⟩
      exact ⟨s₂, ⟨s₁, h₁, h₂⟩, h₃⟩
    · rintro ⟨s₂, ⟨s₁, h₁, h₂⟩, h₃⟩
      exact ⟨s₁, h₁, s₂, h₂, h₃⟩

theorem run_concat {s t : σ} {as : List α} {a : α} :
    M.run s (as ++ [a]) = some t ↔ ∃ s', M.run s as = some s' ∧ M.step s' a = some t := by
  rw [run_append]
  simp [run_cons]

theorem Reachable.step {s₀ s s' : σ} {a : α} (h : M.Reachable s₀ s)
    (hs : M.step s a = some s') : M.Reachable s₀ s' := by
  obtain ⟨as, has⟩ := h
  exact ⟨as ++ [a], run_concat.2 ⟨s, has, hs⟩⟩

theorem steps_cons_of_step {s s' : σ} {a : α} {as : List α} (h : M.step s a = some s') :
    M.steps s (a :: as) = (s, a, s') :: M.steps s' as := by
  simp only [steps, h]

/-! ## Invariants -/

/-- What each step of a run keeps, the run keeps. -/
theorem inv_run_steps {I : σ → Prop} :
    ∀ {as : List α} {s t : σ},
      (∀ x ∈ M.steps s as, M.step x.1 x.2.1 = some x.2.2 → I x.1 → I x.2.2) → I s →
        M.run s as = some t → I t
  | [], s, t, _, hs, h => by
    simp only [run_nil, Option.some.injEq] at h
    exact h ▸ hs
  | a :: as, s, t, hstep, hs, h => by
    obtain ⟨s', h₁, h₂⟩ := run_cons.1 h
    rw [steps_cons_of_step h₁] at hstep
    exact inv_run_steps (fun x hx => hstep x (List.mem_cons_of_mem _ hx))
      (hstep (s, a, s') List.mem_cons_self h₁ hs) h₂

/-- What a step keeps, a run keeps. -/
theorem inv_run {I : σ → Prop} (hstep : ∀ s a s', I s → M.step s a = some s' → I s')
    {as : List α} {s t : σ} (hs : I s) (h : M.run s as = some t) : I t :=
  inv_run_steps (fun x _ hx hI => hstep x.1 x.2.1 x.2.2 hI hx) hs h

theorem Reachable.inv {I : σ → Prop} (hstep : ∀ s a s', I s → M.step s a = some s' → I s')
    {s₀ s : σ} (h₀ : I s₀) (h : M.Reachable s₀ s) : I s := by
  obtain ⟨as, has⟩ := h
  exact inv_run hstep h₀ has

/-- A relation every step from an invariant state obeys holds between a run's two ends. -/
theorem rel_run {I : σ → Prop} {R : σ → σ → Prop}
    (hstep : ∀ s a s', I s → M.step s a = some s' → I s')
    (hR : ∀ s a s', I s → M.step s a = some s' → R s s')
    (hrefl : ∀ s, R s s) (htrans : ∀ s t u, R s t → R t u → R s u) :
    ∀ {as : List α} {s t : σ}, I s → M.run s as = some t → R s t
  | [], s, t, _, h => by
    simp only [run_nil, Option.some.injEq] at h
    exact h ▸ hrefl s
  | a :: as, s, t, hs, h => by
    obtain ⟨s', h₁, h₂⟩ := run_cons.1 h
    exact htrans s s' t (hR s a s' hs h₁)
      (rel_run hstep hR hrefl htrans (hstep s a s' hs h₁) h₂)

/-! ## The steps of a run -/

/-- A step of a run splits it into what came before and what came after. -/
theorem mem_steps : ∀ {as : List α} {s : σ} {x : σ × α × σ}, x ∈ M.steps s as →
    M.step x.1 x.2.1 = some x.2.2 ∧
      ∃ as₁ as₂, as = as₁ ++ x.2.1 :: as₂ ∧ M.run s as₁ = some x.1
  | [], s, x, h => by simp [steps] at h
  | a :: as, s, x, h => by
    rcases hs : M.step s a with _ | s'
    · simp [steps, hs] at h
    · rw [steps_cons_of_step hs, List.mem_cons] at h
      rcases h with rfl | h
      · exact ⟨hs, [], as, rfl, rfl⟩
      · obtain ⟨h₁, as₁, as₂, rfl, h₂⟩ := mem_steps h
        exact ⟨h₁, a :: as₁, as₂, rfl, run_cons.2 ⟨s', hs, h₂⟩⟩

theorem reachable_of_mem_steps {as : List α} {s : σ} {x : σ × α × σ} (h : x ∈ M.steps s as) :
    M.Reachable s x.1 ∧ M.Reachable s x.2.2 := by
  obtain ⟨hs, as₁, -, -, hr⟩ := mem_steps h
  exact ⟨⟨as₁, hr⟩, Reachable.step ⟨as₁, hr⟩ hs⟩

theorem steps_append : ∀ {as : List α} {s t : σ} (bs : List α), M.run s as = some t →
    M.steps s (as ++ bs) = M.steps s as ++ M.steps t bs
  | [], s, t, bs, h => by
    simp only [run_nil, Option.some.injEq] at h
    simp [steps, h]
  | a :: as, s, t, bs, h => by
    obtain ⟨s', h₁, h₂⟩ := run_cons.1 h
    rw [List.cons_append, steps_cons_of_step h₁, steps_cons_of_step h₁, steps_append bs h₂,
      List.cons_append]

/-- An invariant of the state and of the steps so far. -/
theorem inv_run_past {I : List (σ × α × σ) → σ → Prop} {s₀ : σ}
    (hstep : ∀ past s a s', M.Reachable s₀ s → I past s → M.step s a = some s' →
      I (past ++ [(s, a, s')]) s') :
    ∀ {as : List α} {past : List (σ × α × σ)} {s t : σ}, M.Reachable s₀ s → I past s →
      M.run s as = some t → I (past ++ M.steps s as) t
  | [], past, s, t, _, hs, h => by
    simp only [run_nil, Option.some.injEq] at h
    simpa [steps, ← h] using hs
  | a :: as, past, s, t, hreach, hs, h => by
    obtain ⟨s', h₁, h₂⟩ := run_cons.1 h
    rw [steps_cons_of_step h₁, ← List.singleton_append, ← List.append_assoc]
    exact inv_run_past hstep (hreach.step h₁) (hstep past s a s' hreach hs h₁) h₂

/-- What follows a step of a complete run is a run to the same end. -/
theorem run_after_mem_steps {as : List α} {s t : σ} (hrun : M.run s as = some t)
    {x : σ × α × σ} (h : x ∈ M.steps s as) : ∃ bs, M.run x.2.2 bs = some t := by
  obtain ⟨hs, as₁, as₂, rfl, hr⟩ := mem_steps h
  obtain ⟨s', h₁, h₂⟩ := run_append.1 hrun
  rw [hr, Option.some.injEq] at h₁
  subst h₁
  obtain ⟨s'', h₃, h₄⟩ := run_cons.1 h₂
  rw [hs, Option.some.injEq] at h₃
  exact ⟨as₂, h₃ ▸ h₄⟩

/-- A quantity that grows by one exactly at the steps of a kind counts them. -/
theorem countP_steps {I : σ → Prop} {P : σ × α × σ → Bool} {f : σ → ℕ}
    (hstep : ∀ s a s', I s → M.step s a = some s' → I s')
    (hf : ∀ s a s', I s → M.step s a = some s' →
      f s' = f s + if P (s, a, s') then 1 else 0) :
    ∀ {as : List α} {s t : σ}, I s → M.run s as = some t →
      f t = f s + (M.steps s as).countP P
  | [], s, t, _, h => by
    simp only [run_nil, Option.some.injEq] at h
    simp [steps, h]
  | a :: as, s, t, hs, h => by
    obtain ⟨s', h₁, h₂⟩ := run_cons.1 h
    rw [steps_cons_of_step h₁, List.countP_cons,
      countP_steps hstep hf (hstep s a s' hs h₁) h₂, hf s a s' hs h₁]
    omega

end Machine

end Labelled
