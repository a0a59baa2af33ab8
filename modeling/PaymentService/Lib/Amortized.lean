import PaymentService.Lib.Machine
import Mathlib.Algebra.BigOperators.Group.Finset.Basic
import Mathlib.Algebra.Order.BigOperators.Group.List
import Mathlib.Algebra.Order.Ring.Nat

/-!
# Amortized counts

A potential pays for the steps of a run: where each step's cost and the potential after it are
covered by the credit the step brings and the potential before it, the costs of the whole run are
covered by its credits and the potential it began with. Potentials here are sums over lists and over
functions that change at one place.
-/

namespace Labelled.Machine

variable {σ α : Type*} {M : Machine σ α}

theorem amortized {I : σ → Prop} (Φ : σ → ℕ) (cost credit : σ × α × σ → ℕ)
    (hstep : ∀ s a s', I s → M.step s a = some s' → I s') :
    ∀ {as : List α} {s t : σ},
      (∀ x ∈ M.steps s as, I x.1 → M.step x.1 x.2.1 = some x.2.2 →
        cost x + Φ x.2.2 ≤ credit x + Φ x.1) → I s → M.run s as = some t →
      ((M.steps s as).map cost).sum + Φ t ≤ ((M.steps s as).map credit).sum + Φ s
  | [], s, t, _, _, h => by
    simp only [run_nil, Option.some.injEq] at h
    simp [steps, h]
  | a :: as, s, t, hpays, hs, h => by
    obtain ⟨s', h₁, h₂⟩ := run_cons.1 h
    rw [steps_cons_of_step h₁] at hpays ⊢
    have hfirst : cost (s, a, s') + Φ s' ≤ credit (s, a, s') + Φ s :=
      hpays (s, a, s') List.mem_cons_self hs h₁
    have hrest := amortized Φ cost credit hstep (fun x hx => hpays x (List.mem_cons_of_mem _ hx))
      (hstep s a s' hs h₁) h₂
    simp only [List.map_cons, List.sum_cons] at hrest ⊢
    omega

/-- A quantity that grows by each step's gain has grown by the sum of the gains. -/
theorem accrues {I : σ → Prop} {f : σ → ℕ} (gain : σ × α × σ → ℕ)
    (hstep : ∀ s a s', I s → M.step s a = some s' → I s') :
    ∀ {as : List α} {s t : σ},
      (∀ x ∈ M.steps s as, I x.1 → M.step x.1 x.2.1 = some x.2.2 → f x.2.2 = f x.1 + gain x) →
        I s → M.run s as = some t → f t = f s + ((M.steps s as).map gain).sum
  | [], s, t, _, _, h => by
    simp only [run_nil, Option.some.injEq] at h
    simp [steps, h]
  | a :: as, s, t, hgain, hs, h => by
    obtain ⟨s', h₁, h₂⟩ := run_cons.1 h
    rw [steps_cons_of_step h₁] at hgain ⊢
    have hfirst : f s' = f s + gain (s, a, s') := hgain (s, a, s') List.mem_cons_self hs h₁
    rw [List.map_cons, List.sum_cons, accrues gain hstep
      (fun x hx => hgain x (List.mem_cons_of_mem _ hx)) (hstep s a s' hs h₁) h₂, hfirst,
      Nat.add_assoc]

end Labelled.Machine

namespace Amortized

variable {ι α β : Type*}

theorem sum_map_ite (P : α → Bool) (c : ℕ) (l : List α) :
    (l.map fun x => if P x then c else 0).sum = c * l.countP P := by
  induction l with
  | nil => simp
  | cons a l ih =>
    rw [List.map_cons, List.sum_cons, ih, List.countP_cons]
    split_ifs <;> simp [Nat.mul_add, Nat.add_comm]

theorem sum_map_toNat (P : α → Bool) (l : List α) :
    (l.map fun x => (P x).toNat).sum = l.countP P := by
  induction l with
  | nil => rfl
  | cons a l ih =>
    rw [List.map_cons, List.sum_cons, ih, List.countP_cons]
    rcases P a <;> simp [Nat.add_comm]

theorem sum_map_filterMap (f : α → Option β) (w : β → ℕ) (l : List α) :
    ((l.filterMap f).map w).sum = (l.map fun x => (f x).elim 0 w).sum := by
  induction l with
  | nil => rfl
  | cons a l ih => cases h : f a <;> simp [h, ih]

theorem countP_pos_le_sum (l : List ℕ) : l.countP (fun n => n ≠ 0) ≤ l.sum := by
  induction l with
  | nil => simp
  | cons n l ih =>
    rw [List.countP_cons, List.sum_cons]
    split_ifs with h <;> simp at h <;> omega

theorem sum_map_eraseIdx (w : α → ℕ) :
    ∀ {l : List α} {n : ℕ} {a : α}, l[n]? = some a →
      ((l.eraseIdx n).map w).sum + w a = (l.map w).sum
  | [], n, a, h => by simp at h
  | b :: l, 0, a, h => by
    simp only [List.getElem?_cons_zero, Option.some.injEq] at h
    simp [h, Nat.add_comm]
  | b :: l, n + 1, a, h => by
    rw [List.getElem?_cons_succ] at h
    rw [List.eraseIdx_cons_succ, List.map_cons, List.sum_cons, List.map_cons, List.sum_cons,
      ← sum_map_eraseIdx w h, Nat.add_assoc]

/-- Sums over two functions that differ at one place. -/
theorem sum_off [DecidableEq ι] (g : β → ℕ) {f f' : ι → β} {D : Finset ι} {d : ι} (hd : d ∈ D)
    (hoff : ∀ i, i ≠ d → f' i = f i) :
    ∑ i ∈ D, g (f' i) + g (f d) = ∑ i ∈ D, g (f i) + g (f' d) := by
  have hrest : ∑ i ∈ D.erase d, g (f' i) = ∑ i ∈ D.erase d, g (f i) :=
    Finset.sum_congr rfl fun i hi => by rw [hoff i (Finset.ne_of_mem_erase hi)]
  rw [← Finset.add_sum_erase D _ hd, ← Finset.add_sum_erase D (fun i => g (f i)) hd, hrest]
  omega

theorem sum_update [DecidableEq ι] (g : β → ℕ) (f : ι → β) {D : Finset ι} {d : ι} (hd : d ∈ D)
    (b : β) : ∑ i ∈ D, g (Function.update f d b i) + g (f d) = ∑ i ∈ D, g (f i) + g b := by
  have hsum := sum_off g hd fun i hi => Function.update_of_ne hi b f
  rwa [Function.update_self] at hsum

end Amortized

namespace Labelled.Machine

variable {σ α : Type*} {M : Machine σ α}

/-- The steps of a kind are at most the potential, where it never grows and each of them takes from
it. -/
theorem countP_le_potential {I : σ → Prop} (Φ : σ → ℕ) {P : σ × α × σ → Bool}
    (hstep : ∀ s a s', I s → M.step s a = some s' → I s') {as : List α} {s t : σ}
    (htakes : ∀ x ∈ M.steps s as, I x.1 → M.step x.1 x.2.1 = some x.2.2 →
      (if P x then 1 else 0) + Φ x.2.2 ≤ Φ x.1)
    (hs : I s) (h : M.run s as = some t) : (M.steps s as).countP P + Φ t ≤ Φ s := by
  have hsum := amortized Φ (fun x => if P x then 1 else 0) (fun _ => 0) hstep
    (fun x hx hI hx' => by simpa using htakes x hx hI hx') hs h
  rw [Amortized.sum_map_ite, Nat.one_mul] at hsum
  simpa using hsum

end Labelled.Machine
