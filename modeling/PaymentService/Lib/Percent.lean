import PaymentService.Lib.Numeral

/-!
# Percent-encoding

A byte is written as its character where a set of safe bytes has it, and as `%XX` elsewhere; a
reader takes `%XX` for its byte and any other character for its own UTF-8 bytes.
-/

namespace Percent

def hexChar (n : ℕ) : Char := (Nat.digitChar n).toUpper

def escapeByte (safe : UInt8 → Bool) (b : UInt8) : List Char :=
  if safe b then [Char.ofUInt8 b] else ['%', hexChar (b.toNat / 16), hexChar (b.toNat % 16)]

def encode (safe : UInt8 → Bool) (bytes : List UInt8) : List Char :=
  bytes.flatMap (escapeByte safe)

def hexByte? (hi lo : Char) : Option UInt8 := do
  let hi ← Numeral.digitVal hi
  let lo ← Numeral.digitVal lo
  return .ofNat (hi * 16 + lo)

/-- A `%` without two hexadecimal digits after it stands for itself. -/
def decode : List Char → List UInt8
  | [] => []
  | c :: hi :: lo :: cs =>
    match if c = '%' then hexByte? hi lo else none with
    | some b => b :: decode cs
    | none => String.utf8EncodeChar c ++ decode (hi :: lo :: cs)
  | c :: cs => String.utf8EncodeChar c ++ decode cs

/-- The text of the decoded bytes, if it is one. -/
def decodeText? (cs : List Char) : Option String := String.fromUTF8? (decode cs).toByteArray

/-- Safe bytes are ASCII, and `%` is not one of them. -/
def SafeBytes (safe : UInt8 → Bool) : Prop := ∀ b, safe b → b.toNat < 128 ∧ Char.ofUInt8 b ≠ '%'

/-! ## Decoding what was encoded -/

theorem digitVal_hexChar {n : ℕ} (h : n < 16) : Numeral.digitVal (hexChar n) = some n := by
  interval_cases n <;> decide

theorem hexByte?_hexChar (b : UInt8) :
    hexByte? (hexChar (b.toNat / 16)) (hexChar (b.toNat % 16)) = some b := by
  have hb := b.toNat_lt
  rw [hexByte?, digitVal_hexChar (by omega), digitVal_hexChar (by omega)]
  exact congrArg some (by rw [Nat.div_add_mod' b.toNat 16, UInt8.ofNat_toNat])

theorem toNat_ofUInt8 (b : UInt8) : (Char.ofUInt8 b).toNat = b.toNat := UInt8.toNat_toUInt32 b

theorem ofUInt8_injective : Function.Injective Char.ofUInt8 := fun a b h =>
  UInt8.toNat_inj.1 (by rw [← toNat_ofUInt8 a, h, toNat_ofUInt8])

theorem utf8EncodeChar_of_lt {c : Char} (h : c.toNat < 128) :
    String.utf8EncodeChar c = [.ofNat c.toNat] := if_pos (Nat.le_of_lt_succ h)

theorem utf8EncodeChar_ofUInt8 {b : UInt8} (h : b.toNat < 128) :
    String.utf8EncodeChar (Char.ofUInt8 b) = [b] := by
  rw [utf8EncodeChar_of_lt (by rwa [toNat_ofUInt8]), toNat_ofUInt8, UInt8.ofNat_toNat]

theorem le_toNat_ofNat {n : ℕ} (h : 128 ≤ n) (h' : n < 256) : 128 ≤ (UInt8.ofNat n).toNat := by
  rwa [UInt8.toNat_ofNat_of_lt' h']

/-- Beyond ASCII every byte of a character has its high bit set. -/
theorem le_of_mem_utf8EncodeChar {c : Char} (hc : 128 ≤ c.toNat) :
    ∀ b ∈ String.utf8EncodeChar c, 128 ≤ b.toNat := by
  have hv : 128 ≤ c.val.toNat := hc
  unfold String.utf8EncodeChar
  simp only []
  split_ifs with h1 h2 h3
  · omega
  all_goals
    simp only [List.forall_mem_cons, List.not_mem_nil, false_imp_iff, implies_true, and_true]
    and_intros <;> exact le_toNat_ofNat (by omega) (by omega)

theorem decode_cons {c : Char} (h : c ≠ '%') (cs : List Char) :
    decode (c :: cs) = String.utf8EncodeChar c ++ decode cs := by
  rcases cs with _ | ⟨hi, _ | ⟨lo, cs⟩⟩
  · rfl
  · rfl
  · rw [decode, if_neg h]

theorem decode_escape (hi lo : Char) (cs : List Char) {b : UInt8} (h : hexByte? hi lo = some b) :
    decode ('%' :: hi :: lo :: cs) = b :: decode cs := by
  rw [decode, if_pos rfl, h]

theorem decode_escapeByte {safe : UInt8 → Bool} (hsafe : SafeBytes safe) (b : UInt8)
    (cs : List Char) : decode (escapeByte safe b ++ cs) = b :: decode cs := by
  by_cases h : safe b
  · obtain ⟨hlt, hne⟩ := hsafe b h
    rw [escapeByte, if_pos h, List.singleton_append, decode_cons hne, utf8EncodeChar_ofUInt8 hlt]
    rfl
  · rw [escapeByte, if_neg h]
    exact decode_escape _ _ cs (hexByte?_hexChar b)

/-- Only safe bytes, `%` and hexadecimal digits stand in an encoding. -/
theorem mem_escapeByte {safe : UInt8 → Bool} {b : UInt8} {c : Char} (h : c ∈ escapeByte safe b) :
    (safe b ∧ c = Char.ofUInt8 b) ∨ c = '%' ∨ ∃ n < 16, c = hexChar n := by
  have hb := b.toNat_lt
  rw [escapeByte] at h
  split_ifs at h with hs
  · exact .inl ⟨hs, List.mem_singleton.1 h⟩
  · simp only [List.mem_cons, List.not_mem_nil, or_false] at h
    rcases h with rfl | rfl | rfl
    · exact .inr (.inl rfl)
    · exact .inr (.inr ⟨_, by omega, rfl⟩)
    · exact .inr (.inr ⟨_, by omega, rfl⟩)

/-- A code is read byte by byte where each code word is. -/
theorem decode_flatMap {word : UInt8 → List Char} {f : UInt8 → UInt8}
    (h : ∀ b cs, decode (word b ++ cs) = f b :: decode cs) :
    ∀ bytes : List UInt8, decode (bytes.flatMap word) = bytes.map f
  | [] => rfl
  | b :: bytes => by rw [List.flatMap_cons, h, decode_flatMap h bytes, List.map_cons]

theorem decode_encode {safe : UInt8 → Bool} (hsafe : SafeBytes safe) (bytes : List UInt8) :
    decode (encode safe bytes) = bytes :=
  (decode_flatMap (decode_escapeByte hsafe) bytes).trans (List.map_id' bytes)

/-! ## Texts -/

theorem utf8_eq_flatMap (t : String) :
    t.toUTF8.data.toList = t.toList.flatMap String.utf8EncodeChar := by
  rw [String.toUTF8_eq_toByteArray, ← String.utf8Encode_toList, List.utf8Encode,
    List.toList_data_toByteArray]

theorem decodeText?_eq_some {cs : List Char} {t : String} :
    decodeText? cs = some t ↔ decode cs = t.toUTF8.data.toList := by
  rw [decodeText?, String.fromUTF8?]
  constructor
  · intro h
    split_ifs at h with hv
    · rw [← Option.some.inj h]
      exact List.toList_data_toByteArray.symm
  · intro h
    have hb : (decode cs).toByteArray = t.toByteArray := by
      rw [h]
      exact ByteArray.ext (Array.toList_inj.1 List.toList_data_toByteArray)
    simp only [hb, dif_pos t.isValidUTF8]
    exact congrArg some (String.toByteArray_inj.1 rfl)

end Percent
