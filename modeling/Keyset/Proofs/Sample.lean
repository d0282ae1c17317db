import Keyset.Store

/-!
# Sample lists

The small definitions and rows on which the general statements are shown at work: people by name, books by title, works of which some
keys share a name, and readings of a gauge by time or by level. Some of the readings are taken around a leap second inside a minute.
-/

namespace Keyset.Sample

/-- People by name. -/
def people : Definition Unit where
  table := ⟨[()], fun _ => "name", fun _ => ⟨"name"⟩⟩
  identity := ⟨"id"⟩
  defaultSort := ⟨(), .asc⟩

/-- A person with a name and an identity. -/
def person (label : Nat) (name id : String) : Record :=
  ⟨label, [(⟨"name"⟩, .text name), (⟨"id"⟩, .text id)]⟩

/-- Books by title; the place on the shelf is a key that clients do not see. -/
def books (standard : Bool) : Definition Bool where
  table := ⟨[true], fun key => if key then "title" else "shelf", fun key => ⟨if key then "title" else "shelf"⟩⟩
  identity := ⟨"isbn"⟩
  defaultSort := ⟨standard, .asc⟩

/-- A book with a title and a number. -/
def book (label : Nat) (title isbn : String) : Record :=
  ⟨label, [(⟨"title"⟩, .text title), (⟨"isbn"⟩, .text isbn)]⟩

/-- Works by some of three keys, of which the last two go by one name. -/
def works (exposed : List (Fin 3)) : Definition (Fin 3) where
  table :=
    ⟨exposed, fun key => if key = 0 then "title" else "author",
      fun key => ⟨if key = 0 then "title" else if key = 1 then "author" else "editor"⟩⟩
  identity := ⟨"isbn"⟩
  defaultSort := ⟨0, .asc⟩

/-- Readings of a gauge by time or by level. -/
def readings : Definition Bool where
  table := ⟨[true, false], fun key => if key then "level" else "time", fun key => ⟨if key then "level" else "time"⟩⟩
  identity := ⟨"id"⟩
  defaultSort := ⟨false, .asc⟩

/-- A moment in the first second of 1970. -/
def moment (nanos : Fin 1000000000) : Instant :=
  ⟨0, nanos, by decide, by decide, by omega⟩

/-- A reading of a level at a moment. -/
def reading (label : Nat) (nanos : Fin 1000000000) (level : Number) (id : String) : Record :=
  ⟨label, [(⟨"time"⟩, .date (moment nanos)), (⟨"level"⟩, .number level), (⟨"id"⟩, .text id)]⟩

/-- A moment of the first day of 1970. -/
def dayMoment (second : Fin 86400) (nanos : Fin 2000000000) : Instant :=
  ⟨second, nanos, by omega, by omega, nanos.isLt⟩

/-- The leap second after 23:56:04, which is not at the end of a minute. -/
def leapSecond : Instant :=
  dayMoment 86164 1333000000

/-- A reading without a level. -/
def bareReading (label : Nat) (time : Instant) (id : String) : Record :=
  ⟨label, [(⟨"time"⟩, .date time), (⟨"id"⟩, .text id)]⟩

/-- Readings at the leap second, at the beginning of the second after it, and later. -/
def fromLeapSecond : List Record :=
  [bareReading 0 leapSecond "1", bareReading 1 (dayMoment 86165 100000000) "2", bareReading 2 (dayMoment 86166 0) "3"]

/-- Readings later than the leap second, at it, and before it. -/
def backToLeapSecond : List Record :=
  [bareReading 0 (dayMoment 86166 0) "3", bareReading 1 leapSecond "1", bareReading 2 (dayMoment 86163 100000000) "2"]

/-- The boundary of the reading at the leap second. -/
def leapBoundary : Boundary :=
  ⟨.date leapSecond, .text "1"⟩

/-- The boundary of the reading after it. -/
def laterBoundary : Boundary :=
  ⟨.date (dayMoment 86166 0), .text "3"⟩

end Keyset.Sample
