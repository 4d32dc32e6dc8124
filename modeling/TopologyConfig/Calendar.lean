/-!
Dates and timestamps: their validity, their ISO text, and their place on the time line.
-/
namespace TopologyConfig

structure Date where
  year : Nat
  month : Nat
  day : Nat
deriving DecidableEq, Inhabited

structure Timestamp where
  date : Date
  hour : Nat
  minute : Nat
  second : Nat
  microsecond : Nat
  offset : Option Int
deriving DecidableEq, Inhabited

namespace Calendar

inductive RangeFault where
  | year (n : Nat)
  | month
  | day
  | hour
  | minute
  | second
  | offset (microseconds : Int)
deriving DecidableEq

def isLeap (year : Nat) : Bool :=
  year % 4 == 0 && (year % 100 != 0 || year % 400 == 0)

def daysIn (year month : Nat) : Nat :=
  if month = 2 then (if isLeap year then 29 else 28)
  else if month = 4 || month = 6 || month = 9 || month = 11 then 30 else 31

def padded (width n : Nat) : String :=
  let s := toString n
  String.ofList (List.replicate (width - s.length) '0') ++ s

/-- Days from the first day of year one, by the Gregorian rules throughout. -/
def daysBefore (d : Date) : Nat :=
  let y := d.year - 1
  y * 365 + y / 4 - y / 100 + y / 400 +
    (List.range (d.month - 1)).foldl (fun days m => days + daysIn d.year (m + 1)) 0 + (d.day - 1)

def dayInMonths (year rest : Nat) : List Nat → Nat × Nat
  | [] => (12, rest + 1)
  | m :: months =>
    if rest < daysIn year m then (m, rest + 1) else dayInMonths year (rest - daysIn year m) months

def dateAfter (n : Nat) : Date :=
  let cycles := n / 146097
  let inCycle := n % 146097
  let centuries := min (inCycle / 36524) 3
  let inCentury := inCycle - centuries * 36524
  let inFour := inCentury % 1461
  let years := min (inFour / 365) 3
  let year := cycles * 400 + centuries * 100 + inCentury / 1461 * 4 + years + 1
  let (month, day) := dayInMonths year (inFour - years * 365) ((List.range 12).map (· + 1))
  ⟨year, month, day⟩

def epochDay : Int := 719162

/-- The Gregorian rules repeat after 400 years. -/
def secondsPerCycle : Int := 12622780800

def timestampAfter (seconds : Int) : Timestamp :=
  let inDay := (seconds % 86400).toNat
  ⟨dateAfter (seconds / 86400 + epochDay).toNat, inDay / 3600, inDay / 60 % 60, inDay % 60, 0, none⟩

def microsecondsPerDay : Int := 86400000000

def spanParts (microseconds : Int) : Int × Int × Int :=
  let rest := microseconds % microsecondsPerDay
  (microseconds / microsecondsPerDay, rest / 1000000, rest % 1000000)

def spanText (microseconds : Int) : String :=
  let (days, seconds, micros) := spanParts microseconds
  let part (name : String) (n : Int) : List String := if n = 0 then [] else [name ++ "=" ++ toString n]
  let parts := part "days" days ++ part "seconds" seconds ++ part "microseconds" micros
  "datetime.timedelta(" ++ (if parts.isEmpty then "0" else ", ".intercalate parts) ++ ")"

def RangeFault.message : RangeFault → String
  | .year n => "year " ++ toString n ++ " is out of range"
  | .month => "month must be in 1..12"
  | .day => "day is out of range for month"
  | .hour => "hour must be in 0..23"
  | .minute => "minute must be in 0..59"
  | .second => "second must be in 0..59"
  | .offset n =>
    "offset must be a timedelta strictly between -timedelta(hours=24) and timedelta(hours=24), not " ++
      spanText n ++ "."

end Calendar

namespace Date

open Calendar

def fault? (d : Date) : Option RangeFault :=
  if d.year < 1 || d.year > 9999 then some (.year d.year)
  else if d.month < 1 || d.month > 12 then some .month
  else if d.day < 1 || d.day > daysIn d.year d.month then some .day
  else none

def iso (d : Date) : String :=
  padded 4 d.year ++ "-" ++ padded 2 d.month ++ "-" ++ padded 2 d.day

def fields (d : Date) : List Nat := [d.year, d.month, d.day]

def shown (d : Date) : String :=
  "datetime.date(" ++ ", ".intercalate (d.fields.map toString) ++ ")"

def precedes (a b : Date) : Bool := daysBefore a < daysBefore b

end Date

namespace Timestamp

open Calendar

def fault? (t : Timestamp) : Option RangeFault :=
  match t.date.fault? with
  | some f => some f
  | none =>
    if t.hour > 23 then some .hour
    else if t.minute > 59 then some .minute
    else if t.second > 59 then some .second
    else none

/-- The time of day, with microseconds only when there are any. -/
def clock (t : Timestamp) : String :=
  padded 2 t.hour ++ ":" ++ padded 2 t.minute ++ ":" ++ padded 2 t.second ++
    (if t.microsecond = 0 then "" else "." ++ padded 6 t.microsecond)

def offsetText (microseconds : Int) : String :=
  let n := microseconds.natAbs
  let seconds := n / 1000000
  let micros := n % 1000000
  (if microseconds < 0 then "-" else "+") ++ padded 2 (seconds / 3600) ++ ":" ++
    padded 2 (seconds / 60 % 60) ++
    (if seconds % 60 = 0 && micros = 0 then "" else ":" ++ padded 2 (seconds % 60)) ++
    (if micros = 0 then "" else "." ++ padded 6 micros)

def isoWith (separator : String) (t : Timestamp) : String :=
  t.date.iso ++ separator ++ t.clock ++ (t.offset.map offsetText).getD ""

def zoneShown (microseconds : Int) : String :=
  if microseconds = 0 then "datetime.timezone.utc"
  else "datetime.timezone(" ++ spanText microseconds ++ ")"

def shown (t : Timestamp) : String :=
  let tail :=
    if t.microsecond ≠ 0 then [t.second, t.microsecond]
    else if t.second ≠ 0 then [t.second]
    else []
  let numbers := (t.date.fields ++ [t.hour, t.minute] ++ tail).map toString
  let zone := (t.offset.map (fun o => ["tzinfo=" ++ zoneShown o])).getD []
  "datetime.datetime(" ++ ", ".intercalate (numbers ++ zone) ++ ")"

/-- Microseconds on the time line of its own clock, or of universal time when the offset is known. -/
def instant (t : Timestamp) : Int :=
  let seconds := ((daysBefore t.date * 24 + t.hour) * 60 + t.minute) * 60 + t.second
  Int.ofNat (seconds * 1000000 + t.microsecond) - t.offset.getD 0

def comparable (a b : Timestamp) : Bool := a.offset.isSome == b.offset.isSome

def sameInstant (a b : Timestamp) : Bool := a.comparable b && a.instant == b.instant

end Timestamp

namespace Calendar

def twoDigits? : List Char → Option (Nat × List Char)
  | a :: b :: rest =>
    if a.isDigit && b.isDigit then some ((a.toNat - 48) * 10 + (b.toNat - 48), rest) else none
  | _ => none

def fourDigits? (cs : List Char) : Option (Nat × List Char) := do
  let (high, cs) ← twoDigits? cs
  let (low, cs) ← twoDigits? cs
  pure (high * 100 + low, cs)

def expect? (c : Char) : List Char → Option (List Char)
  | d :: rest => if c = d then some rest else none
  | [] => none

def readDate? (cs : List Char) : Option (Date × List Char) := do
  let (year, cs) ← fourDigits? cs
  let (month, cs) ← twoDigits? (← expect? '-' cs)
  let (day, cs) ← twoDigits? (← expect? '-' cs)
  pure (⟨year, month, day⟩, cs)

def readFraction (cs : List Char) : Nat × List Char :=
  match cs with
  | '.' :: rest =>
    let ds := (rest.takeWhile Char.isDigit ++ List.replicate 6 '0').take 6
    (ds.foldl (fun n c => n * 10 + (c.toNat - 48)) 0, rest.dropWhile Char.isDigit)
  | _ => (0, cs)

def readSeconds? (cs : List Char) : Option (Nat × Nat × List Char) :=
  match cs with
  | ':' :: rest => do
    let (s, rest) ← twoDigits? rest
    let (micros, rest) := readFraction rest
    pure (s, micros, rest)
  | _ => some (0, 0, cs)

def readOffset? (cs : List Char) : Option (Option Int) :=
  match cs with
  | [] => some none
  | sign :: rest => do
    let (h, rest) ← twoDigits? rest
    let (m, rest) ← twoDigits? (← expect? ':' rest)
    let (s, micros, rest) ← readSeconds? rest
    let n : Int := Int.ofNat (((h * 60 + m) * 60 + s) * 1000000 + micros)
    if rest.isEmpty then pure (some (if sign = '-' then -n else n)) else none

end Calendar

def Date.ofIso? (s : String) : Option Date :=
  match Calendar.readDate? s.toList with
  | some (d, []) => some d
  | _ => none

def Timestamp.ofIso? (s : String) : Option Timestamp := do
  let (date, cs) ← Calendar.readDate? s.toList
  match cs with
  | _ :: cs =>
    let (hour, cs) ← Calendar.twoDigits? cs
    let (minute, cs) ← Calendar.twoDigits? (← Calendar.expect? ':' cs)
    let (second, micros, cs) ← Calendar.readSeconds? cs
    let offset ← Calendar.readOffset? cs
    pure ⟨date, hour, minute, second, micros, offset⟩
  | [] => none

end TopologyConfig
