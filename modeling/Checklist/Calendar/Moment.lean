import Checklist.Calendar.IsoDate
import Checklist.Number.Rounding

/-!
# Moments — time stamps as seconds since the start of 1970

A note store stamps its lines in one of two forms: fourteen digits `YYYYMMDDHHMMSS`, or ISO 8601
with an optional time of day and offset from UTC. `secondsOf` gives the seconds since the start of
1970, rounded to the precision of a binary floating-point number; a stamp that cannot be read counts
as the start of 1970. `isoOfStamp` goes the other way, to whole microseconds.
-/

namespace Checklist

/-- A time of day, to the microsecond. -/
structure TimeOfDay where
  hour : Nat
  minute : Nat
  second : Nat
  micro : Nat
  deriving DecidableEq

/-- Whether the hands can stand like this. -/
def TimeOfDay.isValid (t : TimeOfDay) : Bool := t.hour < 24 && t.minute < 60 && t.second < 60

/-- The whole seconds since midnight. -/
def TimeOfDay.seconds (t : TimeOfDay) : Nat := 3600 * t.hour + 60 * t.minute + t.second

/-- The first midnight. -/
def TimeOfDay.midnight : TimeOfDay := ⟨0, 0, 0, 0⟩

/-- The time with the fields that were read, the missing ones being zero. -/
def TimeOfDay.ofFields (fields : List Nat) (micro : Nat) : TimeOfDay :=
  ⟨fields.getD 0 0, fields.getD 1 0, fields.getD 2 0, micro⟩

/-- A time of day as it is read, and whether the text was read to its end. -/
abbrev TimeReading := TimeOfDay × Bool

/-- Read the fraction of a second: up to six digits count and further ones are passed over. A NUL
behind them ends the text. -/
def takeFraction? (fields : List Nat) (s : Text) : Option TimeReading :=
  let width := (s.take 6).length
  (takeDigits? width s).map fun (n, rest) =>
    (.ofFields fields (n * Nat.pow 10 (6 - width)),
      (rest.dropWhile fun c => (Text.asciiDigit? c).isSome).head?.all (· = '\x00'))

/-- Read up to `missing` more fields of two digits, then a fraction. A colon after the hour asks for
colons between all fields; without it the fields follow one another directly. Behind the last field,
and behind any field with a point or comma, stands the fraction. One last ASCII character that
belongs to nothing is left over, unless it is NUL. -/
def takeFields? : (missing : Nat) → (colons : Bool) → List Nat → Text → Option TimeReading
  | 0, _, fields, s => takeFraction? fields s
  | missing + 1, colons, fields, s =>
    match takeDigits? 2 s with
    | none => none
    | some (v, []) => some (.ofFields (fields ++ [v]) 0, true)
    | some (v, [c]) =>
      if c.toNat < 128 then some (.ofFields (fields ++ [v]) 0, c = '\x00') else none
    | some (v, c :: rest) =>
      let colons := if fields.isEmpty then c = ':' else colons
      if colons ∧ c = ':' then takeFields? missing colons (fields ++ [v]) rest
      else if c = '.' ∨ c = ',' then takeFraction? (fields ++ [v]) rest
      else if colons then none
      else takeFields? missing colons (fields ++ [v]) (c :: rest)

/-- The time of day at the start of the text. -/
def TimeOfDay.read? (s : Text) : Option TimeReading := takeFields? 3 false [] s

/-- The offset from UTC in microseconds, which is less than a day; a whole number of zero seconds
means UTC itself. -/
def readOffset? (sign : Int) (s : Text) : Option Int :=
  match TimeOfDay.read? s with
  | some (t, true) =>
    if t.seconds = 0 then some 0
    else if t.seconds < 86400 then some (sign * (t.seconds * 1000000 + t.micro))
    else none
  | _ => none

/-- A day and a time of day, with the offset from UTC if one is known. -/
structure Moment where
  date : Date
  time : TimeOfDay
  /-- The offset from UTC in microseconds. -/
  offset? : Option Int

namespace Moment

/-- The time of day and the offset that follow the date. What stands behind `Z` and a NUL is passed
over. -/
def ofTime? (date : Date) (s : Text) : Option Moment := do
  let isZone (c : Char) : Bool := c = '+' || c = '-' || c = 'Z'
  let (time, complete) ← TimeOfDay.read? (s.takeWhile (!isZone ·))
  if !time.isValid then none
  match s.dropWhile (!isZone ·) with
  | [] => if complete then some ⟨date, time, none⟩ else none
  | 'Z' :: rest => if rest.head?.all (· = '\x00') then some ⟨date, time, some 0⟩ else none
  | c :: rest => (readOffset? (if c = '-' then -1 else 1) rest).map fun o => ⟨date, time, some o⟩

/-- How many characters of the text are the date. A week date may go on with a weekday: after a
hyphen two digits are taken for a time of day, and without hyphens an odd count of digits after the
week means that the first of them is the weekday. -/
def dateWidth (s : Text) : Nat :=
  let c (i : Nat) : Char := s.getD i '\x00'
  let isDigit (c : Char) : Bool := (Text.asciiDigit? c).isSome
  if s.length = 7 then 7
  else if c 4 = '-' then
    if c 5 = 'W' then
      if c 8 = '-' then (if isDigit (c 10) then 8 else 10) else 8
    else 10
  else if c 4 = 'W' then
    let digits := ((s.drop 7).takeWhile isDigit).length
    if digits < 2 then 7 + digits else if digits % 2 = 1 then 7 else 8
  else 8

/-- The moment in ISO 8601: a date alone, or a date, any one character, and a time of day. -/
def ofIso? (s : Text) : Option Moment := do
  let width := dateWidth s
  let (date, rest) ← Date.take? (s.take width)
  if !rest.isEmpty then none
  match s.drop width with
  | [] => some ⟨date, .midnight, none⟩
  | _ :: time => ofTime? date time

/-- Two digits, of which the second may be of any script where `wide` allows the first. -/
def pair? (wide : Nat → Bool) (a b : Char) : Option Nat := do
  let tens ← Text.asciiDigit? a
  let ones ← if wide tens then Text.digitValue? b else Text.asciiDigit? b
  some (10 * tens + ones)

/-- The moment in fourteen digits, `YYYYMMDDHHMMSS`. -/
def ofCompact? : Text → Option Moment
  | [y₁, y₂, y₃, y₄, m₁, m₂, d₁, d₂, h₁, h₂, n₁, n₂, s₁, s₂] => do
    let year ← [y₁, y₂, y₃, y₄].foldlM (fun n c => (Text.digitValue? c).map (10 * n + ·)) 0
    let month ← pair? (fun _ => false) m₁ m₂
    let day ← pair? (fun tens => tens = 1 || tens = 2) d₁ d₂
    let hour ← pair? (· < 2) h₁ h₂
    let minute ← pair? (fun _ => true) n₁ n₂
    let second ← pair? (· < 6) s₁ s₂
    let date ← Date.of? year month day
    let time : TimeOfDay := ⟨hour, minute, second, 0⟩
    if time.isValid then some ⟨date, time, none⟩ else none
  | _ => none

/-- The moment that a stamp names: fourteen digits are taken as the compact form, all else as ISO
8601. -/
def ofText? (s : Text) : Option Moment :=
  if s.length = 14 ∧ s.all Text.isDigit then ofCompact? s else ofIso? s

/-- The number of the first day of 1970. -/
def epochDay : Nat := 719163

/-- Seconds from the start of 1970 to the moment as its clock shows it, without the fraction. -/
def wallSeconds (m : Moment) : Int :=
  ((m.date.ordinal : Int) - epochDay) * 86400 + m.time.seconds

/-- Seconds from the start of 1970 to the moment. A clock without an offset is taken as UTC, and its
fraction is rounded before it is added; it cannot be placed on the very first day. -/
def seconds? (m : Moment) : Option Rat :=
  match m.offset? with
  | some offset =>
    let micros : Int := m.wallSeconds * 1000000 + m.time.micro - offset
    some (Rounding.nearestBinary (micros / 1000000))
  | none =>
    if m.date = Date.first then none
    else some (Rounding.nearestBinary
      (m.wallSeconds + Rounding.nearestBinary ((m.time.micro : Rat) / 1000000)))

end Moment

/-- The seconds since the start of 1970 that a stamp names, zero when it names none. -/
def secondsOf (stamp : Option Text) : Rat :=
  ((stamp.bind Moment.ofText?).bind Moment.seconds?).getD 0

/-- Why a count of seconds is no moment of the calendar. -/
inductive StampError where
  /-- The year lies outside the calendar. -/
  | yearOutOfRange (year : Int)
  /-- The year does not fit into the system's broken-down time. -/
  | yearOverflow
  /-- The seconds do not fit into the system's count of seconds. -/
  | secondsOverflow
  deriving DecidableEq

/-- The wording of the error. -/
def StampError.message : StampError → Text
  | .yearOutOfRange year =>
    "year ".toList ++ Text.signedDecimal year ++ " is out of range".toList
  | .yearOverflow => "[Errno 75] Value too large for defined data type".toList
  | .secondsOverflow => "timestamp out of range for platform time_t".toList

/-- Split seconds into whole seconds and microseconds, the latter rounded from the fraction. -/
def splitStamp (stamp : Rat) : Int × Nat :=
  if stamp.den = 1 then (stamp.num, 0)
  else
    let value := Rounding.nearestBinary stamp
    let whole : Int := if 0 ≤ value then value.floor else -(-value).floor
    let micros := Rounding.nearestInt (Rounding.nearestBinary ((value - whole) * 1000000))
    if 1000000 ≤ micros then (whole + 1, (micros - 1000000).toNat)
    else if micros < 0 then (whole - 1, (micros + 1000000).toNat)
    else (whole, micros.toNat)

/-- The year of the day with this number, also outside the calendar. -/
def yearOfDay (n : Int) : Int :=
  400 * ((n - 1) / 146097) + Date.yearOfOrdinal (((n - 1) % 146097).toNat + 1)

/-- The first count of seconds that is too large for the system's sixty-four bits. -/
def secondsBound : Int := 0x8000000000000000

/-- The first count of years since 1900 that is too large for the system's thirty-two bits. -/
def yearBound : Int := 0x80000000

/-- The moment so many seconds after the start of 1970, in ISO 8601 with the offset of UTC;
microseconds are written when they are not zero. -/
def isoOfStamp (stamp : Rat) : Except StampError Text :=
  let (seconds, micros) := splitStamp stamp
  if seconds < -secondsBound ∨ secondsBound ≤ seconds then .error .secondsOverflow
  else
    let day := seconds / 86400 + Moment.epochDay
    let clock := (seconds % 86400).toNat
    match Date.ofOrdinal? day.toNat with
    | some date =>
      let two := Text.fixedDigits 10 2
      .ok (date.iso ++ ['T'] ++ two (clock / 3600) ++ [':'] ++ two (clock / 60 % 60) ++ [':'] ++
        two (clock % 60) ++
        (if micros = 0 then [] else '.' :: Text.fixedDigits 10 6 micros) ++ "+00:00".toList)
    | none =>
      let year := yearOfDay day
      if year - 1900 < -yearBound ∨ yearBound ≤ year - 1900 then .error .yearOverflow
      else .error (.yearOutOfRange (Int.bmod year 0x100000000))

end Checklist
