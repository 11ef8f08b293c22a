import BindingRelease.Text.Digit
/-!
Calendar dates and points in time, as they occur in data files. A date is checked against the
Gregorian calendar when it is built; an offset from universal time is kept in minutes.
-/
namespace BindingRelease
open Text

structure Date where
  year : Nat
  month : Nat
  day : Nat
  deriving DecidableEq, Repr

structure Moment where
  date : Date
  hour : Nat
  minute : Nat
  second : Nat
  microsecond : Nat
  zone : Option Int
  deriving DecidableEq, Repr

namespace Date

def isLeap (year : Nat) : Bool :=
  year % 4 == 0 && (year % 100 != 0 || year % 400 == 0)

def daysIn (year month : Nat) : Nat :=
  if month = 2 then (if isLeap year then 29 else 28)
  else if month = 4 || month = 6 || month = 9 || month = 11 then 30
  else 31

def valid? (year month day : Nat) : Option Date :=
  if 1 ≤ year && year ≤ 9999 && 1 ≤ month && month ≤ 12 && 1 ≤ day && day ≤ daysIn year month
  then some ⟨year, month, day⟩ else none

def text (d : Date) : String :=
  paddedText 4 d.year ++ "-" ++ paddedText 2 d.month ++ "-" ++ paddedText 2 d.day

def literal (d : Date) : String :=
  "datetime.date(" ++ ", ".intercalate [decimalText d.year, decimalText d.month,
    decimalText d.day] ++ ")"

def ordinal (d : Date) : Nat :=
  let y := d.year - 1
  365 * y + y / 4 - y / 100 + y / 400 + d.day +
    (List.range d.month).foldl (fun n m => if m = 0 then n else n + daysIn d.year m) 0

end Date

namespace Moment

def offsetText (minutes : Int) : String :=
  let n := minutes.natAbs
  (if minutes < 0 then "-" else "+") ++ paddedText 2 (n / 60) ++ ":" ++ paddedText 2 (n % 60)

def text (m : Moment) : String :=
  m.date.text ++ " " ++ paddedText 2 m.hour ++ ":" ++ paddedText 2 m.minute ++ ":" ++
    paddedText 2 m.second ++
    (if m.microsecond = 0 then "" else "." ++ paddedText 6 m.microsecond) ++
    (match m.zone with | none => "" | some z => offsetText z)

def offsetLiteral (minutes : Int) : String :=
  if minutes = 0 then "datetime.timezone.utc"
  else
    let seconds := minutes * 60
    let days := seconds.fdiv 86400
    let left := seconds.fmod 86400
    let parts := (if days = 0 then [] else ["days=" ++ integerText days]) ++
      (if left = 0 then [] else ["seconds=" ++ integerText left])
    "datetime.timezone(datetime.timedelta(" ++ ", ".intercalate parts ++ "))"

def literal (m : Moment) : String :=
  let base := [m.date.year, m.date.month, m.date.day, m.hour, m.minute]
  let fine := if m.microsecond ≠ 0 then [m.second, m.microsecond]
    else if m.second ≠ 0 then [m.second] else []
  "datetime.datetime(" ++ ", ".intercalate ((base ++ fine).map decimalText) ++
    (match m.zone with | none => "" | some z => ", tzinfo=" ++ offsetLiteral z) ++ ")"

def instant (m : Moment) : Int :=
  let minutes : Int := (m.date.ordinal * 24 + m.hour) * 60 + m.minute - m.zone.getD 0
  (minutes * 60 + m.second) * 1000000 + m.microsecond

/-- Two moments are the same when both name a zone and denote one instant, or neither does and
they read alike. -/
def same (a b : Moment) : Bool :=
  a.zone.isSome == b.zone.isSome && a.instant == b.instant

end Moment
end BindingRelease
