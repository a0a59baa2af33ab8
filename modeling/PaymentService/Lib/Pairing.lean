import Mathlib.Data.List.Forall2
import Mathlib.Data.List.Nodup

/-!
# Two lists in step

Two lists whose entries correspond one by one, with keys that tell the entries of the second apart,
are in one-to-one correspondence by key.
-/

namespace Pairing

variable {α β κ : Type*} {R : α → β → Prop} {f : α → κ} {g : β → κ} {as : List α} {bs : List β}

theorem exists_right (h : List.Forall₂ R as bs) {a : α} (ha : a ∈ as) : ∃ b ∈ bs, R a b := by
  induction h with
  | nil => cases ha
  | cons hab _ ih =>
    rcases List.mem_cons.1 ha with rfl | ha
    · exact ⟨_, List.mem_cons_self, hab⟩
    · obtain ⟨b, hb, hr⟩ := ih ha
      exact ⟨b, List.mem_cons_of_mem _ hb, hr⟩

theorem exists_left (h : List.Forall₂ R as bs) {b : β} (hb : b ∈ bs) : ∃ a ∈ as, R a b :=
  exists_right (R := fun b a => R a b) (List.Forall₂.flip h) hb

theorem map_eq_map (hkey : ∀ a b, R a b → f a = g b) (h : List.Forall₂ R as bs) :
    as.map f = bs.map g := by
  induction h with
  | nil => rfl
  | cons hab _ ih => rw [List.map_cons, List.map_cons, hkey _ _ hab, ih]

/-- Each entry of the second list has one partner, the only entry of the first with its key. -/
theorem existsUnique_left (hkey : ∀ a b, R a b → f a = g b) (hnodup : (bs.map g).Nodup)
    (h : List.Forall₂ R as bs) {b : β} (hb : b ∈ bs) :
    ∃ a ∈ as, R a b ∧ ∀ a' ∈ as, f a' = g b → a' = a := by
  obtain ⟨a, ha, hab⟩ := exists_left h hb
  refine ⟨a, ha, hab, fun a' ha' hk => ?_⟩
  rw [← map_eq_map hkey h] at hnodup
  exact List.inj_on_of_nodup_map hnodup ha' ha (hk.trans (hkey a b hab).symm)

/-- Each entry of the first list has one partner, the only entry of the second with its key. -/
theorem existsUnique_right (hkey : ∀ a b, R a b → f a = g b) (hnodup : (bs.map g).Nodup)
    (h : List.Forall₂ R as bs) {a : α} (ha : a ∈ as) :
    ∃ b ∈ bs, R a b ∧ ∀ b' ∈ bs, f a = g b' → b' = b := by
  obtain ⟨b, hb, hab⟩ := exists_right h ha
  exact ⟨b, hb, hab, fun b' hb' hk =>
    List.inj_on_of_nodup_map hnodup hb' hb (hk.symm.trans (hkey a b hab))⟩

end Pairing
