import Mathlib.Data.List.Infix
import Mathlib.Data.List.TakeWhile

/-!
# Texts that can be taken apart

A code is prefix-free if no word of it starts another, so words can be taken off the front of a text
one by one; a terminator that starts no word ends the reading (`PrefixFree.flatMap_split`). Where
words are runs of one class of symbols, whatever follows has to start outside it (`run_split`).
-/

namespace PrefixCode

variable {α β : Type*}

def PrefixFree (f : α → List β) : Prop := ∀ a b, f a <+: f b → a = b

/-- The first word of a text, and so its rest. -/
theorem PrefixFree.split {f : α → List β} (hf : PrefixFree f) {a b : α} {s t : List β}
    (h : f a ++ s = f b ++ t) : a = b ∧ s = t := by
  have hab : a = b := by
    rcases List.prefix_or_prefix_of_prefix (List.prefix_append (f a) s)
      (h ▸ List.prefix_append (f b) t) with hp | hp
    · exact hf a b hp
    · exact (hf b a hp).symm
  subst hab
  exact ⟨rfl, List.append_cancel_left h⟩

/-- The words of a text up to the first terminator. -/
theorem PrefixFree.flatMap_split {f : α → List β} (hf : PrefixFree f) {c : β}
    (hne : ∀ a, f a ≠ []) (hc : ∀ a, (f a).head? ≠ some c) :
    ∀ {as bs : List α} {s t : List β}, as.flatMap f ++ c :: s = bs.flatMap f ++ c :: t →
      as = bs ∧ s = t
  | [], [], s, t, h => ⟨rfl, (List.cons.inj h).2⟩
  | [], b :: bs, s, t, h => by
    rcases hb : f b with _ | ⟨d, ds⟩
    · exact absurd hb (hne b)
    · rw [List.flatMap_cons, hb] at h
      have hd : c = d := (List.cons.inj h).1
      exact absurd (by rw [hb, hd]; rfl) (hc b)
  | a :: as, [], s, t, h => by
    rcases ha : f a with _ | ⟨d, ds⟩
    · exact absurd ha (hne a)
    · rw [List.flatMap_cons, ha] at h
      have hd : d = c := (List.cons.inj h).1
      exact absurd (by rw [ha, hd]; rfl) (hc a)
  | a :: as, b :: bs, s, t, h => by
    rw [List.flatMap_cons, List.flatMap_cons, List.append_assoc, List.append_assoc] at h
    obtain ⟨rfl, hrest⟩ := hf.split h
    obtain ⟨rfl, rfl⟩ := flatMap_split hf hne hc hrest
    exact ⟨rfl, rfl⟩

/-- A run of symbols of a class, ended by one outside it. -/
theorem run_split {p : β → Bool} {u v s t : List β} (hu : ∀ c ∈ u, p c) (hv : ∀ c ∈ v, p c)
    (hs : ∀ c ∈ s.head?, ¬ p c) (ht : ∀ c ∈ t.head?, ¬ p c) (h : u ++ s = v ++ t) :
    u = v ∧ s = t := by
  have htake : ∀ {w r : List β}, (∀ c ∈ w, p c) → (∀ c ∈ r.head?, ¬ p c) →
      (w ++ r).takeWhile p = w := by
    intro w r hw hr
    rw [List.takeWhile_append_of_pos hw]
    rcases r with _ | ⟨c, r⟩
    · simp
    · rw [List.takeWhile_cons_of_neg (hr c rfl), List.append_nil]
  have huv : u = v := by rw [← htake hu hs, h, htake hv ht]
  subst huv
  exact ⟨rfl, List.append_cancel_left h⟩

end PrefixCode
