import Mathlib.Data.List.Basic
import Mathlib.Data.Fintype.Defs
import Mathlib.Logic.Function.Basic

/-!
# Python's `str`

A `str` is a sequence of code points, lone surrogates among them; the texts without one are the
`String`s, and only these have a UTF-8 encoding.
-/

namespace Python

abbrev CodePoint := Fin 0x110000

abbrev PyStr := List CodePoint

theorem toNat_lt_codePoint (c : Char) : c.toNat < 0x110000 := by
  rcases c.valid with h | h
  · exact h.trans (by decide)
  · exact h.2

def CodePoint.ofChar (c : Char) : CodePoint := ⟨c.toNat, toNat_lt_codePoint c⟩

/-- The character of a code point that is not a surrogate. -/
def CodePoint.toChar? (c : CodePoint) : Option Char :=
  if h : c.val.isValidChar then some (Char.ofNatAux c.val h) else none

theorem CodePoint.toChar?_eq_some {c : CodePoint} {d : Char} :
    c.toChar? = some d ↔ c = ofChar d := by
  unfold toChar?
  constructor
  · intro h
    by_cases hv : c.val.isValidChar
    · rw [dif_pos hv] at h
      cases h
      rfl
    · rw [dif_neg hv] at h
      cases h
  · rintro rfl
    exact dif_pos (show (ofChar d).val.isValidChar from d.valid)

theorem CodePoint.ofChar_injective : Function.Injective CodePoint.ofChar :=
  fun _ _ h => Char.toNat_inj.1 (Fin.mk.inj h)

namespace PyStr

def ofString (s : String) : PyStr := s.toList.map .ofChar

/-- The text of the same characters, `none` with a lone surrogate. -/
def toString? (s : PyStr) : Option String := (s.mapM CodePoint.toChar?).map String.ofList

/-- `encode()`, with `none` for its `UnicodeEncodeError`. -/
def encode (s : PyStr) : Option (List UInt8) := s.toString?.map fun t => t.toUTF8.data.toList

def isAscii (s : PyStr) : Bool := s.all (· < 128)

/-- The bytes of a header as Starlette decodes them. -/
def latin1 (bytes : List (BitVec 8)) : PyStr :=
  bytes.map fun b => ⟨b.toNat, b.isLt.trans (by decide)⟩

theorem ofString_injective : Function.Injective ofString := fun _ _ h =>
  String.toList_injective (List.map_injective_iff.2 CodePoint.ofChar_injective h)

theorem mapM_toChar? : ∀ {s : PyStr} {cs : List Char},
    s.mapM CodePoint.toChar? = some cs ↔ s = cs.map .ofChar
  | [], cs => by cases cs <;> simp
  | c :: s, cs => by
    rw [List.mapM_cons]
    rcases cs with _ | ⟨d, cs⟩
    · simp [Option.bind_eq_some_iff]
    · simp [Option.bind_eq_some_iff, CodePoint.toChar?_eq_some, mapM_toChar?]

theorem toString?_eq_some {s : PyStr} {t : String} : s.toString? = some t ↔ s = ofString t := by
  rw [toString?, Option.map_eq_some_iff]
  constructor
  · rintro ⟨cs, hcs, rfl⟩
    rw [ofString, String.toList_ofList]
    exact mapM_toChar?.1 hcs
  · rintro rfl
    exact ⟨t.toList, mapM_toChar?.2 rfl, String.ofList_toList⟩

@[simp] theorem toString?_ofString (t : String) : (ofString t).toString? = some t :=
  toString?_eq_some.2 rfl

/-- No lone surrogate is in the string. -/
def isText (s : PyStr) : Bool := s.all fun c => c.toChar?.isSome

@[simp] theorem isText_nil : isText [] = true := rfl

@[simp] theorem isText_cons (c : CodePoint) (s : PyStr) :
    isText (c :: s) = (c.toChar?.isSome && isText s) := rfl

@[simp] theorem isText_append (s t : PyStr) : isText (s ++ t) = (isText s && isText t) :=
  List.all_append

@[simp] theorem toChar?_ofChar (c : Char) : (CodePoint.ofChar c).toChar? = some c :=
  CodePoint.toChar?_eq_some.2 rfl

@[simp] theorem isText_map_ofChar (cs : List Char) : isText (cs.map CodePoint.ofChar) = true := by
  simp [isText]

@[simp] theorem isText_ofString (t : String) : isText (ofString t) = true :=
  isText_map_ofChar t.toList

theorem isText_iff {s : PyStr} : isText s = true ↔ ∃ t, s = ofString t := by
  constructor
  · intro h
    induction s with
    | nil => exact ⟨"", rfl⟩
    | cons c s ih =>
      rw [isText_cons, Bool.and_eq_true, Option.isSome_iff_exists] at h
      obtain ⟨⟨d, hd⟩, hs⟩ := h
      obtain ⟨t, rfl⟩ := ih hs
      exact ⟨String.ofList (d :: t.toList), by
        simp [ofString, CodePoint.toChar?_eq_some.1 hd]⟩
  · rintro ⟨t, rfl⟩
    exact isText_ofString t

end PyStr

end Python
