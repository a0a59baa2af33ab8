import Mathlib.Data.Nat.Digits.Defs
import Mathlib.Data.Nat.Digits.Lemmas
import Mathlib.Tactic.IntervalCases

/-!
# Numerals

A natural number written in a base, most significant digit first, and read back. Zero has one
digit; reading a numeral does not mind leading zeros.
-/

namespace Numeral

/-- The digits of `n` in base `b`, most significant first. -/
def digitsOf (b n : ℕ) : List ℕ := if n = 0 then [0] else (Nat.digits b n).reverse

/-- The number a list of digits stands for in base `b`. -/
def valueOf (b : ℕ) (ds : List ℕ) : ℕ := ds.foldl (fun acc d => acc * b + d) 0

/-- The last `w` digits of `n` in base `b`. -/
def fixedDigits (b : ℕ) : ℕ → ℕ → List ℕ
  | 0, _ => []
  | w + 1, n => fixedDigits b w (n / b) ++ [n % b]

theorem foldl_eq_ofDigits (b : ℕ) : ∀ (ds : List ℕ) (acc : ℕ),
    ds.foldl (fun acc d => acc * b + d) acc = acc * b ^ ds.length + Nat.ofDigits b ds.reverse
  | [], acc => by simp
  | d :: ds, acc => by
    rw [List.foldl_cons, foldl_eq_ofDigits b ds, List.reverse_cons, Nat.ofDigits_append]
    simp only [List.length_cons, List.length_reverse, Nat.ofDigits_singleton, pow_succ]
    ring

theorem valueOf_append (b : ℕ) (ds es : List ℕ) :
    valueOf b (ds ++ es) = valueOf b ds * b ^ es.length + valueOf b es := by
  unfold valueOf
  rw [List.foldl_append, foldl_eq_ofDigits b es, foldl_eq_ofDigits b es 0]
  simp

theorem valueOf_replicate_zero (b n : ℕ) : valueOf b (List.replicate n 0) = 0 := by
  unfold valueOf
  rw [foldl_eq_ofDigits, List.reverse_replicate, Nat.ofDigits_replicate_zero]
  simp

theorem valueOf_digitsOf {b : ℕ} (n : ℕ) : valueOf b (digitsOf b n) = n := by
  unfold digitsOf valueOf
  split_ifs with h
  · simp [h]
  · rw [foldl_eq_ofDigits, List.reverse_reverse, Nat.ofDigits_digits]
    simp

theorem digitsOf_lt {b n d : ℕ} (hb : 1 < b) (h : d ∈ digitsOf b n) : d < b := by
  unfold digitsOf at h
  split_ifs at h with hn
  · simp only [List.mem_singleton] at h
    omega
  · exact Nat.digits_lt_base hb (List.mem_reverse.1 h)

theorem digitsOf_ne_nil {b : ℕ} (n : ℕ) : digitsOf b n ≠ [] := by
  unfold digitsOf
  split_ifs with h
  · simp
  · simpa [Nat.digits_ne_nil_iff_ne_zero] using h

theorem valueOf_fixedDigits {b : ℕ} : ∀ (w n : ℕ), n < b ^ w → valueOf b (fixedDigits b w n) = n
  | 0, n, h => by
    simp only [pow_zero, Nat.lt_one_iff] at h
    simp [fixedDigits, valueOf, h]
  | w + 1, n, h => by
    have hlt : n / b < b ^ w := Nat.div_lt_of_lt_mul (by rwa [pow_succ, mul_comm] at h)
    rw [fixedDigits, valueOf_append, valueOf_fixedDigits w (n / b) hlt]
    simpa [valueOf, mul_comm] using Nat.div_add_mod n b

@[simp]
theorem length_fixedDigits (b : ℕ) : ∀ (w n : ℕ), (fixedDigits b w n).length = w
  | 0, _ => rfl
  | w + 1, n => by simp [fixedDigits, length_fixedDigits b w]

theorem fixedDigits_lt {b : ℕ} (hb : 0 < b) : ∀ {w n d : ℕ}, d ∈ fixedDigits b w n → d < b
  | 0, _, _, h => by simp [fixedDigits] at h
  | w + 1, n, d, h => by
    simp only [fixedDigits, List.mem_append, List.mem_singleton] at h
    rcases h with h | rfl
    · exact fixedDigits_lt hb h
    · exact Nat.mod_lt _ hb

/-! ## Characters -/

/-- The digit a character stands for in a base of at most sixteen. -/
def digitVal (c : Char) : Option ℕ :=
  if '0' ≤ c ∧ c ≤ '9' then some (c.toNat - '0'.toNat)
  else if 'a' ≤ c ∧ c ≤ 'f' then some (c.toNat - 'a'.toNat + 10)
  else if 'A' ≤ c ∧ c ≤ 'F' then some (c.toNat - 'A'.toNat + 10)
  else none

def isDecimalDigit (c : Char) : Bool := '0' ≤ c ∧ c ≤ '9'

theorem digitVal_digitChar {d : ℕ} (h : d < 16) : digitVal (Nat.digitChar d) = some d := by
  interval_cases d <;> decide

theorem isDecimalDigit_digitChar {d : ℕ} (h : d < 10) : isDecimalDigit (Nat.digitChar d) := by
  interval_cases d <;> decide

/-- The numeral of `n` in base ten. -/
def toChars (n : ℕ) : List Char := (digitsOf 10 n).map Nat.digitChar

/-- The number a string of decimal digits stands for. -/
def ofChars (cs : List Char) : ℕ := valueOf 10 (cs.map fun c => (digitVal c).getD 0)

theorem map_digitVal_digitChar : ∀ {ds : List ℕ}, (∀ d ∈ ds, d < 16) →
    (ds.map Nat.digitChar).map (fun c => (digitVal c).getD 0) = ds
  | [], _ => rfl
  | d :: ds, h => by
    rw [List.map_cons, List.map_cons, digitVal_digitChar (h d List.mem_cons_self),
      map_digitVal_digitChar fun e he => h e (List.mem_cons_of_mem _ he)]
    rfl

theorem ofChars_map_digitChar {ds : List ℕ} (h : ∀ d ∈ ds, d < 10) :
    ofChars (ds.map Nat.digitChar) = valueOf 10 ds := by
  rw [ofChars, map_digitVal_digitChar fun d hd => (h d hd).trans (by decide)]

theorem ofChars_toChars (n : ℕ) : ofChars (toChars n) = n := by
  rw [toChars, ofChars_map_digitChar fun d hd => digitsOf_lt (by decide) hd, valueOf_digitsOf]

theorem toChars_ne_nil (n : ℕ) : toChars n ≠ [] := by
  simpa [toChars] using digitsOf_ne_nil n

theorem isDecimalDigit_of_mem_toChars {n : ℕ} {c : Char} (h : c ∈ toChars n) :
    isDecimalDigit c := by
  obtain ⟨d, hd, rfl⟩ := List.mem_map.1 h
  exact isDecimalDigit_digitChar (digitsOf_lt (by decide) hd)

theorem lt_pow_length_toChars (n : ℕ) : n < 10 ^ (toChars n).length := by
  by_cases h : n = 0
  · rw [h]
    decide
  · simp only [toChars, digitsOf, if_neg h, List.length_map, List.length_reverse]
    exact Nat.lt_base_pow_length_digits (by decide)

theorem ofChars_append (cs ds : List Char) :
    ofChars (cs ++ ds) = ofChars cs * 10 ^ ds.length + ofChars ds := by
  simp [ofChars, valueOf_append]

theorem ofChars_replicate_zero (n : ℕ) : ofChars (List.replicate n '0') = 0 := by
  have h : (digitVal '0').getD 0 = 0 := by decide
  rw [ofChars, List.map_replicate, h, valueOf_replicate_zero]

end Numeral
