import Jarsmith.Text.Split

/-!
# Moments

Dates with a time of day in coordinated universal time, down to nanoseconds. A moment inside a leap
second has a fraction of one second or more.

* `Moment.parse?` reads a moment with its offset; blanks may stand around the marks between numbers.
* `Moment.render` writes it with as many groups of three decimals as it takes.
-/

namespace Jarsmith

/-- A day of the calendar. -/
structure Date where
  year : Int
  month : Nat
  day : Nat
  deriving DecidableEq, Repr

namespace Date

/-- Whether a year has a day more. -/
def isLeapYear (year : Int) : Bool := year % 4 == 0 && (year % 100 != 0 || year % 400 == 0)

/-- The number of days of a month. -/
def daysIn (year : Int) (month : Nat) : Nat :=
  match month with
  | 2 => if isLeapYear year then 29 else 28
  | 4 | 6 | 9 | 11 => 30
  | _ => 31

/-- The first and the last year of the calendar. -/
def firstYear : Int := -262143
def lastYear : Int := 262142

/-- The day with these numbers, if there is one. -/
def ofNumbers? (year : Int) (month day : Nat) : Option Date :=
  if firstYear ≤ year ∧ year ≤ lastYear ∧ 1 ≤ month ∧ month ≤ 12 ∧ 1 ≤ day ∧ day ≤ daysIn year month
  then some ⟨year, month, day⟩ else none

/-- The day after. -/
def next? (d : Date) : Option Date :=
  if d.day < daysIn d.year d.month then some { d with day := d.day + 1 }
  else if d.month < 12 then some ⟨d.year, d.month + 1, 1⟩
  else ofNumbers? (d.year + 1) 1 1

/-- The day before. -/
def previous? (d : Date) : Option Date :=
  if 1 < d.day then some { d with day := d.day - 1 }
  else if 1 < d.month then some ⟨d.year, d.month - 1, daysIn d.year (d.month - 1)⟩
  else ofNumbers? (d.year - 1) 12 31

end Date

/-- A moment in coordinated universal time. -/
structure Moment where
  date : Date
  /-- The seconds since midnight. -/
  second : Nat
  /-- The nanoseconds since the last whole second. -/
  nano : Nat
  deriving DecidableEq, Repr

namespace Moment

/-- The number of seconds of a day. -/
def secondsPerDay : Int := 86400

/-- The number of nanoseconds in a second. -/
def nanosPerSecond : Nat := 1000000000

-- ---------------------------------------------------------------------------
-- Reading
-- ---------------------------------------------------------------------------

/-- What is left to read. -/
abbrev Scan := StateT (List Char) Option

/-- Passes over blanks. -/
def blanks : Scan Unit := modify fun text => text.dropWhile Text.isBlank

/-- Passes over a mark and the blanks around it. -/
def mark (c : Char) : Scan Unit := do
  blanks
  match ← get with
  | d :: rest => if c = d then set rest else failure
  | [] => failure
  blanks

/-- The value of digits. -/
def valueOf (digits : List Char) : Nat :=
  digits.foldl (fun n c => 10 * n + (c.toNat - '0'.toNat)) 0

/-- Reads one digit or more, up to `limit` of them. -/
def digits (limit : Nat) : Scan (List Char) := do
  let text ← get
  let found := (text.take limit).takeWhile Char.isDigit
  if found.isEmpty then failure
  set (text.drop found.length)
  pure found

/-- Reads a number of one or two digits. -/
def number : Scan Nat := do
  blanks
  valueOf <$> digits 2

/-- Reads a year: four digits at most, or any number of them behind a sign. -/
def year : Scan Int := do
  blanks
  let text ← get
  let signed (rest : List Char) : Scan Nat := do
    set rest
    valueOf <$> digits rest.length
  match text with
  | '-' :: rest => return -((← signed rest : Nat) : Int)
  | '+' :: rest => return ((← signed rest : Nat) : Int)
  | _ => return ((valueOf (← digits 4) : Nat) : Int)

/-- Reads the decimals behind a point; those behind the ninth do not count. -/
def fraction : Scan Nat := do
  match ← get with
  | '.' :: rest =>
    set rest
    let found ← digits 9
    modify fun text => text.dropWhile Char.isDigit
    pure (valueOf (found ++ List.replicate (9 - found.length) '0'))
  | _ => pure 0

/-- Reads two digits of an offset. -/
def twoDigits : Scan Nat := do
  let found ← digits 2
  if found.length = 2 then pure (valueOf found) else failure

/-- Reads hours and minutes as seconds. -/
def distance : Scan Int := do
  let hours ← twoDigits
  modify fun text => text.dropWhile fun c => c == ':' || Text.isBlank c
  let minutes ← twoDigits
  if minutes < 60 then pure (((hours * 60 + minutes) * 60 : Nat) : Int) else failure

/-- The sign that typography has for minus. -/
def typographicMinus : Char := Char.ofNat 0x2212

/-- Reads the offset from coordinated universal time, in seconds. -/
def offset : Scan Int := do
  blanks
  match ← get with
  | c :: rest =>
    if c = 'Z' ∨ c = 'z' then
      set rest
      pure 0
    else if c = '+' then
      set rest
      distance
    else if c = '-' ∨ c = typographicMinus then
      set rest
      return -(← distance)
    else if Text.equalsIgnoringCase (String.ofList ((c :: rest).take 3)) "UTC" then
      set (rest.drop 2)
      pure 0
    else failure
  | [] => failure

/-- The moment at which a clock that is ahead by `ahead` seconds shows `second` seconds since the
midnight of `date`. -/
def ofClock? (date : Date) (second nano : Nat) (ahead : Int) : Option Moment :=
  let universal := (second : Int) - ahead
  if universal < 0 then
    date.previous?.map fun d => ⟨d, (universal + secondsPerDay).toNat, nano⟩
  else if secondsPerDay ≤ universal then
    date.next?.map fun d => ⟨d, (universal - secondsPerDay).toNat, nano⟩
  else some ⟨date, universal.toNat, nano⟩

/-- Reads a moment. -/
def scan : Scan Moment := do
  let y ← year
  mark '-'
  let m ← number
  blanks
  mark '-'
  let d ← number
  match ← get with
  | c :: rest => if c = 'T' ∨ c = 't' ∨ c = ' ' then set rest else failure
  | [] => failure
  let hour ← number
  mark ':'
  let minute ← number
  mark ':'
  let second ← number
  let nano ← fraction
  let ahead ← offset
  if 24 ≤ hour ∨ 60 ≤ minute ∨ 61 ≤ second then failure
  if secondsPerDay ≤ ahead.natAbs then failure
  let date ← liftM (Date.ofNumbers? y m d)
  let time := (hour * 60 + minute) * 60
  liftM (if second = 60 then ofClock? date (time + 59) (nano + nanosPerSecond) ahead
    else ofClock? date (time + second) nano ahead)

/-- The moment that a text names. -/
def parse? (text : String) : Option Moment :=
  match scan.run text.toList with
  | some (m, rest) => if rest.all Text.isBlank then some m else none
  | none => none

-- ---------------------------------------------------------------------------
-- Writing
-- ---------------------------------------------------------------------------

/-- A number with zeros in front up to a width. -/
def padded (width n : Nat) : String :=
  let digits := toString n
  String.ofList (List.replicate (width - digits.length) '0') ++ digits

/-- The written form of a year; years of more than four digits and years before 0 have a sign. -/
def renderYear (y : Int) : String :=
  if 0 ≤ y ∧ y ≤ 9999 then padded 4 y.toNat
  else (if y < 0 then "-" else "+") ++ padded 4 y.natAbs

/-- The written form of a fraction of a second. -/
def renderFraction (nano : Nat) : String :=
  if nano = 0 then ""
  else if nano % 1000000 = 0 then "." ++ padded 3 (nano / 1000000)
  else if nano % 1000 = 0 then "." ++ padded 6 (nano / 1000)
  else "." ++ padded 9 nano

/-- The written form, with `zone` for coordinated universal time. -/
def renderIn (zone : String) (m : Moment) : String :=
  renderYear m.date.year ++ "-" ++ padded 2 m.date.month ++ "-" ++ padded 2 m.date.day ++ "T"
    ++ padded 2 (m.second / 3600) ++ ":" ++ padded 2 (m.second / 60 % 60) ++ ":"
    ++ padded 2 (m.second % 60 + m.nano / nanosPerSecond)
    ++ renderFraction (m.nano % nanosPerSecond) ++ zone

/-- The written form in documents. -/
def render (m : Moment) : String := renderIn "Z" m

end Moment

end Jarsmith
