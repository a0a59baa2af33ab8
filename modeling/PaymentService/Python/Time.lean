import PaymentService.Lib.Numeral

/-!
# `datetime`

A datetime is a wall clock and, if it is aware, its offset from UTC; both in microseconds, the
clock counted from the start of 1970. The instant of an aware datetime is what a `timestamptz`
column keeps of it, and the column reads back in UTC.
-/

namespace Python

structure DateTime where
  clock : ℤ
  utcoffset : Option ℤ
deriving DecidableEq, Repr

namespace DateTime

def isAware (t : DateTime) : Bool := t.utcoffset.isSome

def instant (t : DateTime) : ℤ := t.clock - t.utcoffset.getD 0

/-- The datetime of an instant, in UTC. -/
def utc (instant : ℤ) : DateTime := ⟨instant, some 0⟩

@[simp]
theorem isAware_utc (i : ℤ) : (utc i).isAware := rfl

@[simp]
theorem instant_utc (i : ℤ) : (utc i).instant = i := by simp [instant, utc]

/-! ## `isoformat` -/

def pad (width n : ℕ) : String :=
  let ds := Numeral.toChars n
  String.ofList (List.replicate (width - ds.length) '0' ++ ds)

def second : ℤ := 1000000
def minute : ℤ := 60 * second
def hour : ℤ := 60 * minute
def day : ℤ := 24 * hour

/-- Year, month and day of the proleptic Gregorian calendar, from the days since 1970. -/
def civil (days : ℤ) : ℤ × ℕ × ℕ :=
  let z := days + 719468
  let era := z / 146097
  let doe := (z % 146097).toNat
  let yoe := (doe - doe / 1460 + doe / 36524 - doe / 146096) / 365
  let doy := doe - (365 * yoe + yoe / 4 - yoe / 100)
  let mp := (5 * doy + 2) / 153
  let month := if mp < 10 then mp + 3 else mp - 9
  (yoe + era * 400 + if month ≤ 2 then 1 else 0, month, doy - (153 * mp + 2) / 5 + 1)

def clockText (micros : ℤ) (seconds : Bool) : String :=
  let hm := pad 2 (micros / hour).toNat ++ ":" ++ pad 2 (micros % hour / minute).toNat
  let s := pad 2 (micros % minute / second).toNat
  let frac := (micros % second).toNat
  hm ++ (if seconds then ":" ++ s else "") ++ (if frac ≠ 0 then "." ++ pad 6 frac else "")

def offsetText : Option ℤ → String
  | none => ""
  | some o => (if o < 0 then "-" else "+")
      ++ clockText o.natAbs (decide ((o.natAbs : ℤ) % minute ≠ 0))

def isoformat (t : DateTime) : String :=
  let date := civil (t.clock / day)
  pad 4 date.1.toNat ++ "-" ++ pad 2 date.2.1 ++ "-" ++ pad 2 date.2.2 ++ "T"
    ++ clockText (t.clock % day) true ++ offsetText t.utcoffset

example : (utc 1786809557842180).isoformat = "2026-08-15T15:59:17.842180+00:00" := by decide
example : (⟨0, none⟩ : DateTime).isoformat = "1970-01-01T00:00:00" := by decide

end DateTime

end Python
