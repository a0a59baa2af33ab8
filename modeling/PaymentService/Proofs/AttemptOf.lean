import PaymentService.Proofs.RetryChain

/-!
# The number of an attempt is read from any header but an infinite double

`int` of a value of an AMQP table is an integer, or raises an exception that is caught; only for an
infinity it raises an `OverflowError`, which is not.
-/

namespace PaymentService

open Python

/-- A double without its sign bit is an infinity's. -/
def isInfinite (bits : BitVec 64) : Prop := bits.toNat % 2 ^ 63 = 2047 * 2 ^ 52

instance (bits : BitVec 64) : Decidable (isInfinite bits) := Nat.decEq _ _

theorem exponent_toNat (bits : BitVec 64) :
    (bits >>> 52 &&& 0x7FF#64).toNat = bits.toNat / 2 ^ 52 % 2 ^ 11 := by
  rw [BitVec.toNat_and, BitVec.toNat_ushiftRight, Nat.shiftRight_eq_div_pow]
  exact Nat.and_two_pow_sub_one_eq_mod _ 11

theorem fraction_toNat (bits : BitVec 64) :
    (bits &&& 0xFFFFFFFFFFFFF#64).toNat = bits.toNat % 2 ^ 52 := by
  rw [BitVec.toNat_and]
  exact Nat.and_two_pow_sub_one_eq_mod _ 52

theorem isInfinite_iff (bits : BitVec 64) :
    isInfinite bits ↔ (bits >>> 52 &&& 0x7FF#64).toNat = 2047
      ∧ (bits &&& 0xFFFFFFFFFFFFF#64).toNat = 0 := by
  rw [exponent_toNat, fraction_toNat, isInfinite]
  omega

theorem intOfDouble_infinite {bits : BitVec 64} (h : isInfinite bits) :
    intOfDouble bits = .error (.overflowError "cannot convert float infinity to integer") := by
  obtain ⟨hexponent, hfraction⟩ := (isInfinite_iff bits).1 h
  simp only [intOfDouble, if_pos hexponent, if_pos hfraction]

theorem intOfDouble_ok {bits : BitVec 64} (h : ¬ isInfinite bits) :
    ∃ i, intOfDouble bits = .ok i := by
  rw [isInfinite_iff, not_and] at h
  simp only [intOfDouble]
  split
  · rename_i hexponent
    exact ⟨none, if_neg (h hexponent)⟩
  · exact ⟨_, rfl⟩

/-- A value `int` raises an uncaught exception for. -/
def Overflows : HeaderValue → Prop
  | .double bits => isInfinite bits
  | _ => False

theorem intOfHeader_ok : ∀ {raw : HeaderValue}, ¬ Overflows raw → ∃ i, intOfHeader raw = .ok i
  | .double _, h => intOfDouble_ok h
  | .bytes _, _ => by
    simp only [intOfHeader]
    split <;> exact ⟨_, rfl⟩
  | .void, _ | .bool _, _ | .int _, _ | .decimal _, _ | .str _, _ | .timestamp _, _
  | .array _, _ | .table _, _ => ⟨_, rfl⟩

theorem intOfHeader_overflows : ∀ {raw : HeaderValue}, Overflows raw →
    intOfHeader raw = .error (.overflowError "cannot convert float infinity to integer")
  | .double _, h => intOfDouble_infinite h

theorem attemptOf_one_le {headers : Headers} {a : ℤ} (h : attemptOf headers = .ok a) : 1 ≤ a := by
  unfold attemptOf at h
  split at h
  · cases h
    exact le_rfl
  · rename_i raw hl
    rcases hi : intOfHeader raw with _ | _ | i
    · simp [hi, Except.map] at h
    · simp only [hi, Except.map, Except.ok.injEq] at h
      exact h.le
    · simp only [hi, Except.map, Except.ok.injEq] at h
      exact h ▸ le_max_right i 1

/-- What `attempt_of` promises: a number from one on, that of an integer header, and the one
`_to_retry` wrote. -/
structure ReadsAttempt (headers : Headers) : Prop where
  total : ∃ a, attemptOf headers = .ok a ∧ 1 ≤ a
  integer : ∀ v, headers.lookup ATTEMPT_HEADER = some (.int v) →
    attemptOf headers = .ok (max v 1)
  written : ∀ settings payload attempt error, 1 ≤ attempt →
    headers = (toRetry settings payload attempt error).message.headers →
    attemptOf headers = .ok (attempt + 1)

theorem readsAttempt_iff (headers : Headers) :
    ReadsAttempt headers ↔
      ∀ raw, headers.lookup ATTEMPT_HEADER = some raw → ¬ Overflows raw := by
  constructor
  · rintro ⟨⟨a, ha, -⟩, -, -⟩ raw hl hover
    simp [attemptOf, hl, intOfHeader_overflows hover, Except.map] at ha
  · intro h
    have hok : ∃ a, attemptOf headers = .ok a := by
      rcases hl : headers.lookup ATTEMPT_HEADER with _ | raw
      · exact ⟨1, by rw [attemptOf, hl]⟩
      · obtain ⟨i, hi⟩ := intOfHeader_ok (h raw hl)
        exact ⟨_, by rw [attemptOf, hl]; exact congrArg (Except.map _) hi⟩
    refine ⟨?_, ?_, ?_⟩
    · obtain ⟨a, ha⟩ := hok
      exact ⟨a, ha, attemptOf_one_le ha⟩
    · intro v hl
      simp [attemptOf, hl, intOfHeader, Except.map]
    · rintro settings payload attempt error h1 rfl
      exact attemptOf_failureHeaders (by omega) error

/-- An `x-attempt` of positive infinity. -/
def infiniteHeaders : Headers := [(ATTEMPT_HEADER, .double 0x7FF0000000000000#64)]

theorem attemptOf_infinite : ¬ ReadsAttempt infiniteHeaders := by
  rintro ⟨⟨a, ha, -⟩, -, -⟩
  cases ha

end PaymentService
