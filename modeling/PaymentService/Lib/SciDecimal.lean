import PaymentService.Lib.Numeral
import Mathlib.Data.Rat.Defs
import Mathlib.Algebra.Order.Field.Basic
import Mathlib.Tactic.FieldSimp

/-!
# Decimals in scientific notation

A decimal is a sign, a coefficient and a power of ten, so one number has many decimals. `toChars`
is the General Decimal Arithmetic `to-scientific-string`; it keeps the sign, the coefficient and
the exponent, so reading it gives back the decimal itself and not only its number (`read_toChars`).
-/

/-- The number `± coeff · 10 ^ exp`, kept with its representation. -/
structure SciDecimal where
  neg : Bool
  coeff : ℕ
  exp : ℤ
deriving DecidableEq, Repr

namespace SciDecimal

open Numeral (ofChars isDecimalDigit)

def toRat (d : SciDecimal) : ℚ := (if d.neg then -1 else 1) * d.coeff * (10 : ℚ) ^ d.exp

/-! ## Writing -/

def signChars (neg : Bool) : List Char := if neg then ['-'] else []

def expChars (e : ℤ) : List Char :=
  'E' :: (if e < 0 then '-' else '+') :: Numeral.toChars e.natAbs

/-- How many digits stand before the point if no exponent is written. -/
def leftDigits (d : SciDecimal) : ℤ := d.exp + (Numeral.toChars d.coeff).length

/-- Where the point goes: after the first digit when an exponent has to be written. -/
def dotPlace (d : SciDecimal) : ℤ := if d.exp ≤ 0 ∧ -6 < d.leftDigits then d.leftDigits else 1

/-- The digits before the point and the digits after it. -/
def parts (d : SciDecimal) : List Char × List Char :=
  let ds := Numeral.toChars d.coeff
  if d.dotPlace ≤ 0 then (['0'], List.replicate (-d.dotPlace).toNat '0' ++ ds)
  else if ds.length ≤ d.dotPlace then
    (ds ++ List.replicate (d.dotPlace - ds.length).toNat '0', [])
  else (ds.take d.dotPlace.toNat, ds.drop d.dotPlace.toNat)

def pointChars (frac : List Char) : List Char := if frac = [] then [] else '.' :: frac

def tailChars (e : ℤ) : List Char := if e = 0 then [] else expChars e

def toChars (d : SciDecimal) : List Char :=
  signChars d.neg ++ d.parts.1 ++ pointChars d.parts.2 ++ tailChars (d.leftDigits - d.dotPlace)

/-! ## Reading -/

def readSign : List Char → Bool × List Char
  | '-' :: cs => (true, cs)
  | '+' :: cs => (false, cs)
  | cs => (false, cs)

def readExp : List Char → Option ℤ
  | [] => some 0
  | c :: cs =>
    if (c = 'E' ∨ c = 'e') ∧ (readSign cs).2 ≠ [] ∧ (readSign cs).2.all isDecimalDigit then
      some (if (readSign cs).1 then -(ofChars (readSign cs).2 : ℤ) else ofChars (readSign cs).2)
    else none

def readPoint : List Char → List Char × List Char
  | '.' :: cs => (cs.takeWhile isDecimalDigit, cs.dropWhile isDecimalDigit)
  | cs => ([], cs)

/-- An optional sign, digits with an optional point among them, an optional exponent. -/
def read (cs : List Char) : Option SciDecimal :=
  let body := (readSign cs).2
  let int := body.takeWhile isDecimalDigit
  let point := readPoint (body.dropWhile isDecimalDigit)
  if int = [] ∧ point.1 = [] then none
  else (readExp point.2).map fun e =>
    ⟨(readSign cs).1, ofChars (int ++ point.1), e - point.1.length⟩

/-! ## Reading what was written -/

theorem readSign_of_digit {cs : List Char} (hne : cs ≠ []) (h : ∀ c ∈ cs.head?, isDecimalDigit c)
    (ds : List Char) : readSign (cs ++ ds) = (false, cs ++ ds) := by
  rcases cs with _ | ⟨c, cs⟩
  · exact absurd rfl hne
  have hc : isDecimalDigit c := h c rfl
  simp only [List.cons_append]
  unfold readSign
  split
  · rename_i heq
    rw [(List.cons.inj heq).1] at hc
    exact absurd hc (by decide)
  · rename_i heq
    rw [(List.cons.inj heq).1] at hc
    exact absurd hc (by decide)
  · rfl

theorem readSign_signChars {cs : List Char} (hne : cs ≠ [])
    (h : ∀ c ∈ cs.head?, isDecimalDigit c) (neg : Bool) (ds : List Char) :
    readSign (signChars neg ++ (cs ++ ds)) = (neg, cs ++ ds) := by
  cases neg
  · exact readSign_of_digit hne h ds
  · rfl

theorem readExp_of_readSign {cs ds : List Char} {b : Bool} (hs : readSign cs = (b, ds))
    (hne : ds ≠ []) (hd : ∀ c ∈ ds, isDecimalDigit c) :
    readExp ('E' :: cs) = some (if b then -(ofChars ds : ℤ) else ofChars ds) := by
  rw [readExp, hs, if_pos ⟨.inl rfl, hne, List.all_eq_true.2 hd⟩]

theorem readExp_expChars (e : ℤ) : readExp (expChars e) = some e := by
  have hd : ∀ c ∈ Numeral.toChars e.natAbs, isDecimalDigit c :=
    fun c hc => Numeral.isDecimalDigit_of_mem_toChars hc
  have hne := Numeral.toChars_ne_nil e.natAbs
  unfold expChars
  split_ifs with hneg
  · rw [readExp_of_readSign (b := true) rfl hne hd, Numeral.ofChars_toChars]
    simp only [if_true, Option.some.injEq]
    omega
  · rw [readExp_of_readSign (b := false) rfl hne hd, Numeral.ofChars_toChars]
    simp only [Bool.false_eq_true, if_false, Option.some.injEq]
    omega

theorem readExp_tailChars (e : ℤ) : readExp (tailChars e) = some e := by
  unfold tailChars
  split_ifs with h
  · simp [readExp, h]
  · exact readExp_expChars e

/-- What may follow the digits of a written decimal is not a digit. -/
theorem not_digit_head_tail {e : ℤ} : ∀ c ∈ (tailChars e).head?, ¬ isDecimalDigit c := by
  intro c hc
  unfold tailChars at hc
  split_ifs at hc
  · simp at hc
  · simp only [expChars, List.head?_cons, Option.mem_def, Option.some.injEq] at hc
    subst hc
    decide

theorem takeWhile_append_of_head {p : Char → Bool} {cs ds : List Char} (h : ∀ c ∈ cs, p c)
    (hd : ∀ c ∈ ds.head?, ¬ p c) :
    (cs ++ ds).takeWhile p = cs ∧ (cs ++ ds).dropWhile p = ds := by
  rw [List.takeWhile_append_of_pos h, List.dropWhile_append_of_pos h]
  rcases ds with _ | ⟨d, ds⟩
  · simp
  · have hd' : ¬ p d := hd d rfl
    simp [hd']

theorem readPoint_pointChars {frac : List Char} (h : ∀ c ∈ frac, isDecimalDigit c) (e : ℤ) :
    readPoint (pointChars frac ++ tailChars e) = (frac, tailChars e) := by
  unfold pointChars
  split_ifs with hf
  · subst hf
    rw [List.nil_append]
    unfold tailChars
    split_ifs
    · rfl
    · rfl
  · obtain ⟨h₁, h₂⟩ := takeWhile_append_of_head h (not_digit_head_tail (e := e))
    simp only [List.cons_append, readPoint, h₁, h₂]

/-- A written decimal is read part by part. -/
theorem read_parts {neg : Bool} {int frac : List Char} {e : ℤ} (hne : int ≠ [])
    (hint : ∀ c ∈ int, isDecimalDigit c) (hfrac : ∀ c ∈ frac, isDecimalDigit c) :
    read (signChars neg ++ int ++ pointChars frac ++ tailChars e)
      = some ⟨neg, ofChars (int ++ frac), e - frac.length⟩ := by
  have hsign : readSign (signChars neg ++ (int ++ (pointChars frac ++ tailChars e)))
      = (neg, int ++ (pointChars frac ++ tailChars e)) :=
    readSign_signChars hne (fun c hc => hint c (List.mem_of_mem_head? hc)) neg _
  have hhead : ∀ c ∈ (pointChars frac ++ tailChars e).head?, ¬ isDecimalDigit c := by
    unfold pointChars
    split_ifs
    · exact not_digit_head_tail
    · intro c hc
      simp only [List.cons_append, List.head?_cons, Option.mem_def, Option.some.injEq] at hc
      subst hc
      decide
  obtain ⟨h₁, h₂⟩ := takeWhile_append_of_head hint hhead
  simp only [List.append_assoc]
  unfold read
  simp only [hsign, h₁, h₂, readPoint_pointChars hfrac, readExp_tailChars, hne, false_and,
    if_false, Option.map_some]

theorem isDecimalDigit_of_mem_parts (d : SciDecimal) :
    (∀ c ∈ d.parts.1, isDecimalDigit c) ∧ ∀ c ∈ d.parts.2, isDecimalDigit c := by
  have hds : ∀ c ∈ Numeral.toChars d.coeff, isDecimalDigit c :=
    fun c hc => Numeral.isDecimalDigit_of_mem_toChars hc
  have hzero : ∀ n, ∀ c ∈ List.replicate n '0', isDecimalDigit c := by
    intro n c hc
    rw [List.eq_of_mem_replicate hc]
    decide
  unfold parts
  simp only []
  split_ifs
  · refine ⟨by simp; decide, fun c hc => ?_⟩
    rcases List.mem_append.1 hc with hc | hc
    · exact hzero _ c hc
    · exact hds c hc
  · refine ⟨fun c hc => ?_, by simp⟩
    rcases List.mem_append.1 hc with hc | hc
    · exact hds c hc
    · exact hzero _ c hc
  · exact ⟨fun c hc => hds c (List.mem_of_mem_take hc), fun c hc => hds c (List.mem_of_mem_drop hc)⟩

theorem parts_ne_nil (d : SciDecimal) : d.parts.1 ≠ [] := by
  have hne := Numeral.toChars_ne_nil d.coeff
  unfold parts
  simp only []
  split_ifs with h₁ h₂
  · simp
  · simp [hne]
  · simp only [ne_eq, List.take_eq_nil_iff, not_or]
    exact ⟨by omega, hne⟩

/-- The digits written are the coefficient's, and the point and the exponent make up for each
other. -/
theorem parts_spec (d : SciDecimal) : ofChars (d.parts.1 ++ d.parts.2) = d.coeff
    ∧ d.leftDigits - d.dotPlace - d.parts.2.length = d.exp := by
  have hv := Numeral.ofChars_toChars d.coeff
  have hlen : 1 ≤ (Numeral.toChars d.coeff).length :=
    List.length_pos_iff.2 (Numeral.toChars_ne_nil d.coeff)
  have hleft : d.leftDigits = d.exp + (Numeral.toChars d.coeff).length := rfl
  have hdot : d.dotPlace = d.leftDigits ∧ d.exp ≤ 0 ∨ d.dotPlace = 1 := by
    unfold dotPlace
    split_ifs with h
    · exact .inl ⟨rfl, h.1⟩
    · exact .inr rfl
  unfold parts
  simp only []
  split_ifs with h₁ h₂
  · refine ⟨?_, ?_⟩
    · rw [← List.append_assoc, Numeral.ofChars_append, hv,
        show ['0'] ++ List.replicate (-d.dotPlace).toNat '0'
          = List.replicate ((-d.dotPlace).toNat + 1) '0' from rfl,
        Numeral.ofChars_replicate_zero]
      simp
    · simp only [List.length_append, List.length_replicate]
      omega
  · have hzero : (d.dotPlace - (Numeral.toChars d.coeff).length).toNat = 0 := by omega
    refine ⟨by simp [hzero, hv], ?_⟩
    simp only [List.length_nil]
    omega
  · refine ⟨by rw [List.take_append_drop, hv], ?_⟩
    rw [List.length_drop]
    omega

theorem read_toChars (d : SciDecimal) : read d.toChars = some d := by
  obtain ⟨h₁, h₂⟩ := isDecimalDigit_of_mem_parts d
  obtain ⟨hv, he⟩ := parts_spec d
  rw [toChars, read_parts (parts_ne_nil d) h₁ h₂, hv, he]

/-! ## Plain decimals -/

/-- Digits, a point and `n` digits. -/
def HasPlaces (n : ℕ) (text : List Char) : Prop :=
  ∃ whole frac, text = whole ++ '.' :: frac ∧ whole ≠ [] ∧ frac.length = n
    ∧ (∀ c ∈ whole, isDecimalDigit c) ∧ ∀ c ∈ frac, isDecimalDigit c

/-- What is read of a plain decimal has its number of places as its exponent. -/
theorem HasPlaces.exp_eq {d : SciDecimal} {n : ℕ} (hn : 0 < n) (h : HasPlaces n d.toChars) :
    d.exp = -n := by
  obtain ⟨whole, frac, htext, hne, hlen, hwhole, hfrac⟩ := h
  have hfracne : frac ≠ [] := List.ne_nil_of_length_pos (by omega)
  have hread : read (signChars false ++ whole ++ pointChars frac ++ tailChars 0) = _ :=
    read_parts hne hwhole hfrac
  simp only [signChars, pointChars, tailChars, hfracne, if_false, if_true, List.nil_append,
    List.append_nil, Bool.false_eq_true] at hread
  rw [← htext, read_toChars] at hread
  have hexp := congrArg SciDecimal.exp (Option.some.inj hread)
  simp only [hlen] at hexp
  omega

/-- With more than six places a decimal may be written with an exponent. -/
theorem hasPlaces_iff {d : SciDecimal} {n : ℕ} (hneg : d.neg = false) (hn : 0 < n) (h6 : n ≤ 6) :
    HasPlaces n d.toChars ↔ d.exp = -n := by
  refine ⟨HasPlaces.exp_eq hn, fun hexp => ?_⟩
  have hdigits : 0 < (Numeral.toChars d.coeff).length :=
    List.length_pos_iff.2 (Numeral.toChars_ne_nil d.coeff)
  have hleft : -6 < d.leftDigits := by
    unfold leftDigits
    omega
  have hdot : d.dotPlace = d.leftDigits := if_pos ⟨by omega, hleft⟩
  obtain ⟨-, hplaces⟩ := parts_spec d
  obtain ⟨hwhole, hfrac⟩ := isDecimalDigit_of_mem_parts d
  have hlen : d.parts.2.length = n := by omega
  have hfracne : d.parts.2 ≠ [] := List.ne_nil_of_length_pos (by omega)
  refine ⟨d.parts.1, d.parts.2, ?_, parts_ne_nil d, hlen, hwhole, hfrac⟩
  simp [toChars, signChars, pointChars, tailChars, hneg, hdot, hfracne]

example : (⟨false, 150000, -2⟩ : SciDecimal).toChars = "1500.00".toList := by decide
example : (⟨true, 12, 5⟩ : SciDecimal).toChars = "-1.2E+6".toList := by decide
example : read "0E-9".toList = some ⟨false, 0, -9⟩ := by decide

end SciDecimal
