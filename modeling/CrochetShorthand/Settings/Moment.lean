import CrochetShorthand.Text.Decimal

/-!
# Dates and times

A date, a time of day, or both, the latter with or without an offset from universal time.  A
moment is read with some freedom (`t` or a blank for `T`, `z` for `Z`, any number of places of
a second) and written in one way.  A moment that stands for itself keeps to the clock; one that
is quoted in a text may also have the hour 24 and an offset of up to a day.
-/

namespace CrochetShorthand.Settings

structure Date where
  year : Nat
  month : Nat
  day : Nat
deriving DecidableEq, Repr

/-- A time of day.  A second of sixty stands for a leap second. -/
structure TimeOfDay where
  hour : Nat
  minute : Nat
  second : Nat
  nanosecond : Nat
deriving DecidableEq, Repr

/-- How far a clock is from universal time. -/
inductive Offset
  /-- The clock shows universal time. -/
  | zero
  /-- The clock is ahead by so many minutes, or behind by a negative number of them. -/
  | ahead (minutes : Int)
deriving DecidableEq, Repr

inductive Moment
  | date (date : Date)
  | time (time : TimeOfDay)
  | both (date : Date) (time : TimeOfDay) (offset : Option Offset)
deriving DecidableEq, Repr

/-- How far the numbers of a time go. -/
structure ClockBounds where
  hour : Nat
  offsetHour : Nat
  offsetMinute : Nat
deriving DecidableEq, Repr

namespace ClockBounds

/-- The bounds of a moment that stands for itself. -/
def clock : ClockBounds :=
  ⟨23, 23, 59⟩

/-- The bounds of a moment in a text.  An offset can be written in any way that does not come
to more than a day. -/
def quoted : ClockBounds :=
  ⟨24, 99, 99⟩

end ClockBounds

/-- The minutes of a day, which no offset exceeds. -/
def minutesOfDay : Nat :=
  1440

/-- A number of exactly `width` digits within bounds, and the text after it. -/
def fixed? (width least greatest : Nat) (t : Text) : Option (Nat × Text) :=
  let digits := t.take width
  match Decimal.value? digits with
  | none => none
  | some value =>
      if digits.length = width ∧ least ≤ value ∧ value ≤ greatest then some (value, t.drop width)
      else none

/-- The same, after a mark. -/
def markedFixed? (mark : Char) (width least greatest : Nat) : Text → Option (Nat × Text)
  | c :: rest => if c = mark then fixed? width least greatest rest else none
  | [] => none

/-- A number with zeros in front, up to `width` digits. -/
def padded (width n : Nat) : Text :=
  let digits := Decimal.ofNat n
  List.replicate (width - digits.length) '0' ++ digits

namespace Date

/-- Every fourth year is a leap year, and of the full centuries every fourth. -/
def isLeapYear (year : Nat) : Bool :=
  year % 4 = 0 && (year % 100 != 0 || year % 400 = 0)

def daysOf (year month : Nat) : Nat :=
  if month = 2 then if isLeapYear year then 29 else 28
  else if month ∈ [4, 6, 9, 11] then 30
  else 31

/-- A date such as `1979-05-27`, and the text after it. -/
def ofText? (t : Text) : Option (Date × Text) := do
  let (year, rest) ← fixed? 4 0 9999 t
  let (month, rest) ← markedFixed? '-' 2 1 12 rest
  let (day, rest) ← markedFixed? '-' 2 1 (daysOf year month) rest
  return (⟨year, month, day⟩, rest)

def text (date : Date) : Text :=
  padded 4 date.year ++ '-' :: padded 2 date.month ++ '-' :: padded 2 date.day

end Date

namespace TimeOfDay

/-- The nanoseconds after a point, and the text after all their digits.  Digits beyond the
ninth are dropped. -/
def nanoseconds (t : Text) : Nat × Text :=
  match t with
  | '.' :: rest =>
      let digits := rest.takeWhile Char.isDigit
      if digits.isEmpty then (0, t)
      else
        let nine := (digits ++ List.replicate 9 '0').take 9
        ((Decimal.value? nine).getD 0, rest.dropWhile Char.isDigit)
  | _ => (0, t)

/-- A time of day such as `07:32:00.5`, and the text after it. -/
def ofText? (bounds : ClockBounds) (t : Text) : Option (TimeOfDay × Text) := do
  let (hour, rest) ← fixed? 2 0 bounds.hour t
  let (minute, rest) ← markedFixed? ':' 2 0 59 rest
  let (second, rest) ← markedFixed? ':' 2 0 60 rest
  let (nanosecond, rest) := nanoseconds rest
  return (⟨hour, minute, second, nanosecond⟩, rest)

/-- The time to the second, and the places that are needed below it. -/
def text (time : TimeOfDay) : Text :=
  let clock := padded 2 time.hour ++ ':' :: padded 2 time.minute ++ ':' :: padded 2 time.second
  let places := ((padded 9 time.nanosecond).reverse.dropWhile (· == '0')).reverse
  if places.isEmpty then clock else clock ++ '.' :: places

end TimeOfDay

namespace Offset

/-- The hours and minutes of an offset after its sign, as minutes. -/
def minutes? (bounds : ClockBounds) (t : Text) : Option (Nat × Text) := do
  let (hours, rest) ← fixed? 2 0 bounds.offsetHour t
  let (minutes, rest) ← markedFixed? ':' 2 0 bounds.offsetMinute rest
  if 60 * hours + minutes ≤ minutesOfDay then return (60 * hours + minutes, rest) else none

/-- An offset such as `Z` or `-07:00`, and the text after it. -/
def ofText? (bounds : ClockBounds) : Text → Option (Offset × Text)
  | 'Z' :: rest => some (.zero, rest)
  | 'z' :: rest => some (.zero, rest)
  | '+' :: rest => (minutes? bounds rest).map fun found => (.ahead found.1, found.2)
  | '-' :: rest => (minutes? bounds rest).map fun found => (.ahead (-(found.1 : Int)), found.2)
  | _ => none

def text : Offset → Text
  | .zero => ['Z']
  | .ahead minutes =>
      (if minutes < 0 then '-' else '+') ::
        padded 2 (minutes.natAbs / 60) ++ ':' :: padded 2 (minutes.natAbs % 60)

end Offset

namespace Moment

/-- Whether a character may stand between a date and a time. -/
def isSeparator (c : Char) : Bool :=
  c == 'T' || c == 't' || c == ' '

/-- The time of day after a date, with the offset if there is one, and the text after them. -/
def clockAfter? (bounds : ClockBounds) : Text → Option (TimeOfDay × Option Offset × Text)
  | c :: rest =>
      if isSeparator c then
        (TimeOfDay.ofText? bounds rest).map fun (clock, after) =>
          match Offset.ofText? bounds after with
          | some (offset, last) => (clock, some offset, last)
          | none => (clock, none, after)
      else none
  | [] => none

/-- The moment that a text starts with, and the text after it. -/
def startOf? (bounds : ClockBounds) (t : Text) : Option (Moment × Text) :=
  match Date.ofText? t with
  | some (day, rest) =>
      match clockAfter? bounds rest with
      | some (clock, offset, after) => some (.both day clock offset, after)
      | none => some (.date day, rest)
  | none => (TimeOfDay.ofText? bounds t).map fun (clock, rest) => (.time clock, rest)

/-- The moment that a whole text quotes. -/
def ofText? (t : Text) : Option Moment :=
  match startOf? .quoted t with
  | some (moment, []) => some moment
  | _ => none

def text : Moment → Text
  | .date day => day.text
  | .time clock => clock.text
  | .both day clock offset =>
      day.text ++ 'T' :: clock.text ++ (offset.map Offset.text).getD []

end Moment

end CrochetShorthand.Settings
