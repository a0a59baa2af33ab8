import PaymentService.Lib.Percent

/-!
# `urllib.parse.quote_plus`

`quote_plus` writes a space as `+`, as an HTML form does. A reader that only undoes the
percent-encoding gets the text with a `+` for every space.
-/

namespace Python

/-- What `quote` never escapes. -/
def isAlwaysSafe (c : Char) : Bool := c.isAlphanum || ['_', '.', '-', '~'].contains c

/-- What is not ASCII in `safe` has no effect. -/
def isSafe (safe : String) (b : UInt8) : Bool :=
  isAlwaysSafe (Char.ofUInt8 b) || (b.toNat < 128 && safe.toList.contains (Char.ofUInt8 b))

def quote (string safe : String) : String :=
  String.ofList (Percent.encode (isSafe safe) string.toUTF8.data.toList)

def plusForSpace (c : Char) : Char := if c = ' ' then '+' else c

def quotePlus (string : String) (safe : String := "") : String :=
  if ' ' ∈ string.toList then
    String.ofList ((quote string (safe ++ " ")).toList.map plusForSpace)
  else quote string safe

/-- What percent-decoding makes of a text that `quote_plus` wrote. -/
def withPluses (s : String) : String := String.ofList (s.toList.map plusForSpace)

theorem plusForSpace_of_ne {c : Char} (h : c ≠ ' ') : plusForSpace c = c := if_neg h

theorem map_plusForSpace_eq_self : ∀ {cs : List Char}, cs.map plusForSpace = cs ↔ ' ' ∉ cs
  | [] => by simp
  | c :: cs => by
    rw [List.map_cons, List.cons.injEq, map_plusForSpace_eq_self, List.mem_cons, not_or]
    refine and_congr_left fun _ => ⟨?_, fun h => plusForSpace_of_ne fun hc => h hc.symm⟩
    rintro h rfl
    cases h

theorem withPluses_eq_self {s : String} : withPluses s = s ↔ ' ' ∉ s.toList := by
  rw [← map_plusForSpace_eq_self, ← String.toList_inj, withPluses, String.toList_ofList]

/-! ## Safe characters -/

theorem toNat_lt_of_isAlphanum {c : Char} (h : c.isAlphanum) : c.toNat < 128 := by
  have hbound : ∀ d : Char, d.toNat < 128 → c.val ≤ d.val → c.toNat < 128 :=
    fun d hd hcd => (UInt32.le_iff_toNat_le.1 hcd).trans_lt hd
  rcases Bool.or_eq_true_iff.1 h with h | h
  · rcases Bool.or_eq_true_iff.1 h with h | h
    · exact hbound 'Z' (by decide) (of_decide_eq_true h).2
    · exact hbound 'z' (by decide) (of_decide_eq_true (Bool.and_eq_true_iff.1 h).2)
  · exact hbound '9' (by decide) (of_decide_eq_true (Bool.and_eq_true_iff.1 h).2)

theorem toNat_lt_of_isAlwaysSafe {c : Char} (h : isAlwaysSafe c) : c.toNat < 128 := by
  rw [isAlwaysSafe, Bool.or_eq_true, List.contains_iff_mem] at h
  rcases h with h | h
  · exact toNat_lt_of_isAlphanum h
  · simp only [List.mem_cons, List.not_mem_nil, or_false] at h
    rcases h with rfl | rfl | rfl | rfl <;> decide

theorem isAlwaysSafe_hexChar {n : ℕ} (h : n < 16) : isAlwaysSafe (Percent.hexChar n) := by
  interval_cases n <;> decide

theorem safeBytes_isSafe {safe : String} (h : '%' ∉ safe.toList) :
    Percent.SafeBytes (isSafe safe) := by
  intro b hb
  rw [isSafe, Bool.or_eq_true, Bool.and_eq_true, decide_eq_true_eq, List.contains_iff_mem] at hb
  rcases hb with hb | ⟨hlt, hmem⟩
  · refine ⟨Percent.toNat_ofUInt8 b ▸ toNat_lt_of_isAlwaysSafe hb, fun h => ?_⟩
    rw [h] at hb
    cases hb
  · exact ⟨hlt, fun heq => h (heq ▸ hmem)⟩

/-- Besides what is safe, only `%` and hexadecimal digits stand in a quoted text. -/
theorem mem_quote {string safe : String} {c : Char} (h : c ∈ (quote string safe).toList) :
    isAlwaysSafe c ∨ c ∈ safe.toList ∨ c = '%' := by
  rw [quote, String.toList_ofList, Percent.encode, List.mem_flatMap] at h
  obtain ⟨b, -, h⟩ := h
  rcases Percent.mem_escapeByte h with ⟨hb, rfl⟩ | rfl | ⟨n, hn, rfl⟩
  · rw [isSafe, Bool.or_eq_true, Bool.and_eq_true, List.contains_iff_mem] at hb
    exact hb.imp_right fun hb => .inl hb.2
  · exact .inr (.inr rfl)
  · exact .inl (isAlwaysSafe_hexChar hn)

theorem mem_quotePlus {string : String} {c : Char} (h : c ∈ (quotePlus string).toList) :
    isAlwaysSafe c ∨ c = '%' ∨ c = '+' := by
  rw [quotePlus] at h
  split_ifs at h
  · rw [String.toList_ofList, List.mem_map] at h
    obtain ⟨d, hd, rfl⟩ := h
    by_cases hspace : d = ' '
    · exact .inr (.inr (if_pos hspace))
    · rw [plusForSpace_of_ne hspace]
      rcases mem_quote hd with h | h | h
      · exact .inl h
      · exact absurd (List.mem_singleton.1 h) hspace
      · exact .inr (.inl h)
  · rcases mem_quote h with h | h | h
    · exact .inl h
    · cases h
    · exact .inr (.inl h)

/-! ## What is read back -/

section Decode

variable {safe : String}

theorem decodeText?_quote (h : '%' ∉ safe.toList) (string : String) :
    Percent.decodeText? (quote string safe).toList = some string := by
  rw [Percent.decodeText?_eq_some, quote, String.toList_ofList,
    Percent.decode_encode (safeBytes_isSafe h)]

def plusByte (b : UInt8) : UInt8 := if b = 32 then 43 else b

theorem decode_plusForSpace (h : '%' ∉ safe.toList) (b : UInt8) (cs : List Char) :
    Percent.decode ((Percent.escapeByte (isSafe (safe ++ " ")) b).map plusForSpace ++ cs)
      = plusByte b :: Percent.decode cs := by
  have hsafe : Percent.SafeBytes (isSafe (safe ++ " ")) := safeBytes_isSafe (by simpa using h)
  by_cases hb : b = 32
  -- A space is safe here, so it stands for itself until it is replaced.
  · have hspace : isSafe (safe ++ " ") b = true := by
      have hmem : Char.ofUInt8 b ∈ (safe ++ " ").toList := by
        rw [hb, String.toList_append]
        exact List.mem_append_right _ (List.mem_singleton.2 rfl)
      rw [isSafe, List.contains_iff_mem.2 hmem, hb]
      rfl
    rw [Percent.escapeByte, if_pos hspace, hb]
    show Percent.decode ('+' :: cs) = _
    rw [Percent.decode_cons (by decide)]
    rfl
  · have hid : (Percent.escapeByte (isSafe (safe ++ " ")) b).map plusForSpace
        = Percent.escapeByte (isSafe (safe ++ " ")) b := by
      refine map_plusForSpace_eq_self.2 fun hmem => ?_
      rcases Percent.mem_escapeByte hmem with ⟨-, h⟩ | h | ⟨n, hn, h⟩
      · exact hb (Percent.ofUInt8_injective h.symm)
      · cases h
      · have := isAlwaysSafe_hexChar hn
        rw [← h] at this
        cases this
    rw [hid, Percent.decode_escapeByte hsafe, plusByte, if_neg hb]

theorem map_plusByte_utf8EncodeChar (c : Char) :
    (String.utf8EncodeChar c).map plusByte = String.utf8EncodeChar (plusForSpace c) := by
  by_cases hc : c = ' '
  · rw [hc]
    rfl
  · rw [plusForSpace_of_ne hc]
    refine (List.map_congr_left fun b hb => if_neg ?_).trans (List.map_id _)
    -- An ASCII character is its one byte, and the others have no byte below 128.
    rintro rfl
    by_cases hlt : c.toNat < 128
    · rw [Percent.utf8EncodeChar_of_lt hlt, List.mem_singleton] at hb
      have h32 := congrArg UInt8.toNat hb
      rw [UInt8.toNat_ofNat_of_lt' (hlt.trans (by decide))] at h32
      exact hc (Char.toNat_inj.1 h32.symm)
    · exact absurd (Percent.le_of_mem_utf8EncodeChar (Nat.le_of_not_lt hlt) _ hb) (by decide)

theorem decodeText?_quotePlus (h : '%' ∉ safe.toList) (string : String) :
    Percent.decodeText? (quotePlus string safe).toList = some (withPluses string) := by
  rw [quotePlus]
  split_ifs with hspace
  · rw [Percent.decodeText?_eq_some, quote, String.toList_ofList, String.toList_ofList,
      Percent.encode, List.map_flatMap, Percent.decode_flatMap (decode_plusForSpace h),
      Percent.utf8_eq_flatMap, Percent.utf8_eq_flatMap, withPluses, String.toList_ofList,
      List.map_flatMap, List.flatMap_map]
    simp only [map_plusByte_utf8EncodeChar]
  · rw [decodeText?_quote h, withPluses_eq_self.2 hspace]

end Decode

end Python
