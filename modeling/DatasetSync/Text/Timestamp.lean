import DatasetSync.Text.Blank
import DatasetSync.Text.Digits

/-!
# Points in time

A time is carried as text. A text that claims to be a point in time is read by the rules of
RFC 3339 in a lenient form: a date, a clock reading with an optional fraction, and an offset
from UTC. White space may stand in front of every part, leading zeros may be missing, and a
sign allows a year of any length. The point is then written in one way: in UTC, to the
second, with the letter `Z`.

The module reads no clock. Whoever needs the present time is given it.
-/

open DatasetSync.Text (decimal? padded isWhiteSpace)

namespace DatasetSync

/-- A point in time in its written form. -/
abbrev Timestamp := String

namespace Timestamp

/-- Whether a year of the Gregorian calendar has a 29th of February. -/
def isLeap (year : Int) : Bool := year % 4 = 0 && (year % 100 ≠ 0 || year % 400 = 0)

/-- The number of days of a month, counted from one. -/
def daysIn (year : Int) (month : Nat) : Nat :=
  if month = 2 then (if isLeap year then 29 else 28)
  else if month = 4 || month = 6 || month = 9 || month = 11 then 30 else 31

/-- Whether the calendar of documents reaches to a year. -/
def inCalendar (year : Int) : Bool := -262143 ≤ year && year ≤ 262142

/-- A date and a time of day in one time zone. -/
structure Civil where
  year : Int
  month : Nat
  day : Nat
  hour : Nat
  minute : Nat
  second : Nat
deriving DecidableEq, Repr

/-- Whether every part lies in its range; a minute may have a leap second. -/
def Civil.valid (civil : Civil) : Bool :=
  inCalendar civil.year && 1 ≤ civil.month && civil.month ≤ 12
    && 1 ≤ civil.day && civil.day ≤ daysIn civil.year civil.month
    && civil.hour ≤ 23 && civil.minute ≤ 59 && civil.second ≤ 60

/-- The following day, at the same time of day. -/
def Civil.nextDay (civil : Civil) : Civil :=
  if civil.day < daysIn civil.year civil.month then { civil with day := civil.day + 1 }
  else if civil.month < 12 then { civil with month := civil.month + 1, day := 1 }
  else { civil with year := civil.year + 1, month := 1, day := 1 }

/-- The preceding day, at the same time of day. -/
def Civil.previousDay (civil : Civil) : Civil :=
  if 1 < civil.day then { civil with day := civil.day - 1 }
  else if 1 < civil.month then
    { civil with month := civil.month - 1, day := daysIn civil.year (civil.month - 1) }
  else { civil with year := civil.year - 1, month := 12, day := 31 }

/-- The same point in time in UTC, given how many minutes the zone is ahead of it. An
    offset is shorter than a day, so at most one midnight lies between the two. -/
def Civil.toUtc (civil : Civil) (ahead : Int) : Civil :=
  let minutes : Int := (civil.hour * 60 + civil.minute : Nat) - ahead
  let shifted := minutes.emod 1440
  let moved := { civil with hour := (shifted / 60).toNat, minute := (shifted % 60).toNat }
  if minutes < 0 then moved.previousDay
  else if 1440 ≤ minutes then moved.nextDay
  else moved

/-- The written form of a year. One that does not have four digits bears a sign. -/
def writtenYear (year : Int) : String :=
  if year < 0 then "-" ++ padded 4 year.natAbs
  else if 9999 < year then "+" ++ padded 4 year.natAbs
  else padded 4 year.natAbs

/-- The written form of a time of day in UTC. -/
def Civil.write (civil : Civil) : Timestamp :=
  writtenYear civil.year ++ "-" ++ padded 2 civil.month ++ "-" ++ padded 2 civil.day ++ "T"
    ++ padded 2 civil.hour ++ ":" ++ padded 2 civil.minute ++ ":" ++ padded 2 civil.second ++ "Z"

/-- Leave out white space. -/
def dropSpace (text : List Char) : List Char := text.dropWhile isWhiteSpace

/-- The number at the beginning of a text that at least one and at most a number of digits
    write, and what follows it. -/
def digits? (most : Nat) (text : List Char) : Option (Nat × List Char) :=
  let digits := (text.take most).takeWhile Char.isDigit
  (decimal? digits).map (·, text.drop digits.length)

/-- A part of two digits. -/
def pair? (text : List Char) : Option (Nat × List Char) := digits? 2 (dropSpace text)

/-- What follows a mark between two parts. -/
def behind? (mark : Char) (text : List Char) : Option (List Char) :=
  match dropSpace text with
  | [] => none
  | character :: rest => if character = mark then some rest else none

/-- A year: up to four digits, or a sign and any number of them. -/
def year? (text : List Char) : Option (Int × List Char) :=
  match dropSpace text with
  | '-' :: rest => (digits? rest.length rest).map fun (year, rest) => (-(year : Int), rest)
  | '+' :: rest => (digits? rest.length rest).map fun (year, rest) => (↑year, rest)
  | rest => (digits? 4 rest).map fun (year, rest) => (↑year, rest)

/-- Leave out a fraction of a second: a point and at least one digit. -/
def dropFraction? : List Char → Option (List Char)
  | '.' :: rest =>
    if (rest.takeWhile Char.isDigit).isEmpty then none else some (rest.dropWhile Char.isDigit)
  | rest => some rest

/-- How many minutes an offset is, from behind its sign on: hours and minutes of two digits
    each. Colons and white space may stand between them. -/
def minutes? (text : List Char) : Option (Nat × List Char) :=
  match text with
  | h1 :: h2 :: rest =>
    match rest.dropWhile fun character => character = ':' || isWhiteSpace character with
    | m1 :: m2 :: rest => do
      let hours ← decimal? [h1, h2]
      let minutes ← decimal? [m1, m2]
      if hours ≤ 23 && minutes ≤ 59 then some (hours * 60 + minutes, rest) else none
    | _ => none
  | _ => none

/-- How many minutes an offset is ahead of UTC. The sign of a negative one is a hyphen or a
    minus sign. -/
def offset? (text : List Char) : Option (Int × List Char) :=
  match dropSpace text with
  | [] => none
  | sign :: rest =>
    if ((sign :: rest).take 3).map Char.toUpper = ['U', 'T', 'C'] then some (0, rest.drop 2)
    else if sign = 'Z' || sign = 'z' then some (0, rest)
    else if sign = '+' then (minutes? rest).map fun (ahead, rest) => (↑ahead, rest)
    else if sign = '-' || sign = '\u2212' then
      (minutes? rest).map fun (behind, rest) => (-(behind : Int), rest)
    else none

/-- The letter between date and time of day, or a space in its place. -/
def isSeparator (character : Char) : Bool :=
  character = 'T' || character = 't' || character = ' '

/-- Read a point in time and write it in its one form. -/
def ofRfc3339? (text : String) : Option Timestamp := do
  let (year, rest) ← year? text.toList
  let (month, rest) ← pair? (← behind? '-' rest)
  let (day, rest) ← pair? (← behind? '-' rest)
  if !rest.head?.any isSeparator then none
  let (hour, rest) ← pair? rest.tail
  let (minute, rest) ← pair? (← behind? ':' rest)
  let (second, rest) ← pair? (← behind? ':' rest)
  let (ahead, rest) ← offset? (← dropFraction? rest)
  let civil : Civil := { year, month, day, hour, minute, second }
  let utc := civil.toUtc ahead
  if rest.all isWhiteSpace && civil.valid && inCalendar utc.year then some utc.write else none

end Timestamp

end DatasetSync
