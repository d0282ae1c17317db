import Keyset.Calendar.Date

/-!
# Instants

A point of calendar time, what `DateTime` is in universal time: seconds from the start of 1970 and nanoseconds of that second. The
years run from -262143 to 262142. With nanoseconds from one billion up an instant is a leap second, an additional second after the
one that is counted, so instants compare by seconds and then nanoseconds. A leap second may follow any second; a clock shows it as
second 60 when it is at the end of a minute, and as the next second otherwise.
-/

namespace Keyset

/-- A point of calendar time; the proof fields keep it inside the calendar. -/
@[ext]
structure Instant where
  seconds : Int
  nanos : Nat
  first_le : -8334601228800 ≤ seconds
  le_last : seconds ≤ 8210266876799
  nanos_lt : nanos < 2000000000
  deriving DecidableEq

namespace Instant

/-- The instant with the given seconds and nanoseconds, if there is one. -/
def ofUnix? (seconds : Int) (nanos : Nat) : Option Instant :=
  if h : (-8334601228800 ≤ seconds ∧ seconds ≤ 8210266876799) ∧ nanos < 2000000000 then
    some ⟨seconds, nanos, h.1.1, h.1.2, h.2⟩
  else none

theorem ofUnix?_self (t : Instant) : ofUnix? t.seconds t.nanos = some t := by
  unfold ofUnix?
  rw [dif_pos ⟨⟨t.first_le, t.le_last⟩, t.nanos_lt⟩]

/-- The order of calendar time: a leap second comes after the second that it follows and before the next one. -/
def compare (a b : Instant) : Ordering :=
  (Ord.compare a.seconds b.seconds).then (Ord.compare a.nanos b.nanos)

/-- The instant without what is finer than a millisecond; a leap second stays one. -/
def toMillis (t : Instant) : Instant :=
  ⟨t.seconds, t.nanos / 1000000 * 1000000, t.first_le, t.le_last,
    Nat.lt_of_le_of_lt (Nat.div_mul_le_self ..) t.nanos_lt⟩

theorem toMillis_toMillis (t : Instant) : t.toMillis.toMillis = t.toMillis := by
  have h : t.nanos / 1000000 * 1000000 / 1000000 * 1000000 = t.nanos / 1000000 * 1000000 := by omega
  simp only [toMillis, h]

/-- An instant that a clock shows as no other: a leap second at most at the end of a minute. -/
def IsCivil (t : Instant) : Prop :=
  1000000000 ≤ t.nanos → t.seconds % 60 = 59

instance (t : Instant) : Decidable t.IsCivil :=
  inferInstanceAs (Decidable (_ → _))

/-- The day on which an instant falls. -/
def date (t : Instant) : Date :=
  Date.ofDayNumber (t.seconds / 86400)

/-- The second of its day. -/
def secondOfDay (t : Instant) : Nat :=
  (t.seconds % 86400).toNat

/-- The instant at a time of day given by hour, minute, second up to 60 for a leap second, and nanoseconds of the
second, shifted by an offset in seconds. -/
def ofCivil? (date : Date) (hour minute second nanos : Nat) (offset : Int) : Option Instant :=
  if date.IsValid ∧ hour ≤ 23 ∧ minute ≤ 59 ∧ second ≤ 60 ∧ nanos < 1000000000 then
    let clock : Nat := 3600 * hour + 60 * minute + min second 59
    ofUnix? (86400 * date.dayNumber + clock - offset) (if second = 60 then 1000000000 + nanos else nanos)
  else none

end Instant

end Keyset
