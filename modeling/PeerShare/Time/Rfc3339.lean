import PeerShare.Text.Basic
import PeerShare.Time.Instant

/-!
Instants as text. `Instant.render` writes `YYYY-MM-DDTHH:MM:SS[.f]Z` with 0, 3, 6 or 9 fraction
digits, and years outside 0 to 9999 with a sign. `Instant.read` takes the same form and a relaxed
one: blanks around the parts, a blank or a lower-case `t` between date and time, a zone offset
with or without a colon, and a fraction of any length, of which nine digits count.

Dates are of the proleptic Gregorian calendar: `dayOf` counts the days from 1970-01-01 to a date,
`dateOf` finds the date of a day. Years are counted from March, so that a leap day ends its year.
-/

namespace PeerShare.Calendar

structure Date where
  year : Int
  month : Nat
  day : Nat
  deriving DecidableEq, Repr

def isLeap (y : Int) : Bool := y % 4 == 0 && (y % 100 != 0 || y % 400 == 0)

def monthLength (y : Int) (m : Nat) : Nat :=
  match m with
  | 2 => if isLeap y then 29 else 28
  | 4 | 6 | 9 | 11 => 30
  | _ => 31

def Date.Valid (d : Date) : Prop :=
  1 ≤ d.month ∧ d.month ≤ 12 ∧ 1 ≤ d.day ∧ d.day ≤ monthLength d.year d.month

instance (d : Date) : Decidable d.Valid := inferInstanceAs (Decidable (_ ∧ _ ∧ _ ∧ _))

def daysBefore (k : Nat) : Nat := (153 * k + 2) / 5

def dayOf (d : Date) : Int :=
  let y := if d.month ≤ 2 then d.year - 1 else d.year
  let k := (d.month + 9) % 12
  let era := y / 400
  let yoe := y % 400
  era * 146097 + yoe * 365 + yoe / 4 - yoe / 100 + (daysBefore k : Int) + ((d.day : Int) - 1)
    - 719468

def dateOf (n : Int) : Date :=
  let z := n + 719468
  let era := z / 146097
  let doe := (z % 146097).toNat
  let yoe := (doe - doe / 1460 + doe / 36524 - doe / 146096) / 365
  let doy := doe - (365 * yoe + yoe / 4 - yoe / 100)
  let k := (5 * doy + 2) / 153
  let m := if k < 10 then k + 3 else k - 9
  let y := era * 400 + (yoe : Int)
  ⟨if m ≤ 2 then y + 1 else y, m, doy - daysBefore k + 1⟩

end PeerShare.Calendar

namespace PeerShare.Instant
open Text

def renderYear (y : Int) : String :=
  if 0 ≤ y ∧ y ≤ 9999 then padLeft 4 y.toNat
  else if y < 0 then "-" ++ padLeft 4 y.natAbs
  else "+" ++ padLeft 4 y.toNat

def renderFraction (n : Nat) : String :=
  if n = 0 then ""
  else if n % 1000000 = 0 then "." ++ padLeft 3 (n / 1000000)
  else if n % 1000 = 0 then "." ++ padLeft 6 (n / 1000)
  else "." ++ padLeft 9 n

/-- A leap second has the number after that of the second it follows. -/
def render (t : Instant) : String :=
  let date := Calendar.dateOf (t.second / 86400)
  let time := (t.second % 86400).toNat
  let shown := time % 60 + t.fraction / 1000000000
  renderYear date.year ++ "-" ++ padLeft 2 date.month ++ "-" ++ padLeft 2 date.day ++ "T" ++
    padLeft 2 (time / 3600) ++ ":" ++ padLeft 2 (time / 60 % 60) ++ ":" ++ padLeft 2 shown ++
    renderFraction (t.fraction % 1000000000) ++ "Z"

/-- A year: a sign and any number of digits, or up to four digits. -/
def readYear (s : List Char) : Option (Int × List Char) :=
  match trimLeft s with
  | '-' :: r => (takeDigits 1 r.length r).map fun (ds, r) => (-(ofDigits ds : Int), r)
  | '+' :: r => (takeDigits 1 r.length r).map fun (ds, r) => ((ofDigits ds : Int), r)
  | r => (takeDigits 1 4 r).map fun (ds, r) => ((ofDigits ds : Int), r)

def readPair (s : List Char) : Option (Nat × List Char) :=
  (takeDigits 1 2 (trimLeft s)).map fun (ds, r) => (ofDigits ds, r)

def readMark (c : Char) (s : List Char) : Option (List Char) :=
  match trimLeft s with
  | d :: r => if d = c then some r else none
  | [] => none

def readFraction (s : List Char) : Option (Nat × List Char) :=
  match s with
  | '.' :: r => do
    let (ds, r) ← takeDigits 1 9 r
    return (ofDigits ds * Nat.pow 10 (9 - ds.length), r.dropWhile isDigit)
  | r => some (0, r)

def readOffsetMinutes (s : List Char) : Option (Nat × List Char) :=
  match s.dropWhile (fun c => c == ':' || isBlank c) with
  | a :: b :: r =>
    if '0' ≤ a && a ≤ '5' && isDigit b then some (digitValue a * 10 + digitValue b, r) else none
  | _ => none

def readOffsetFrom (sign : Int) (s : List Char) : Option (Int × List Char) := do
  let (hh, r) ← takeDigits 2 2 s
  let (mm, r) ← readOffsetMinutes r
  return (sign * ((ofDigits hh * 3600 + mm * 60 : Nat) : Int), r)

def readOffset (s : List Char) : Option (Int × List Char) :=
  match s with
  | 'Z' :: r | 'z' :: r => some (0, r)
  | '+' :: r => readOffsetFrom 1 r
  | '-' :: r | '\u2212' :: r => readOffsetFrom (-1) r
  | a :: b :: c :: r =>
    if [a, b, c].map Char.toUpper = ['U', 'T', 'C'] then some (0, r) else none
  | _ => none

def readDate (s : List Char) : Option (Calendar.Date × List Char) := do
  let (y, r) ← readYear s
  let r ← readMark '-' r
  let (m, r) ← readPair r
  let r ← readMark '-' r
  let (d, r) ← readPair r
  return (⟨y, m, d⟩, r)

def readTime (s : List Char) : Option ((Nat × Nat) × List Char) := do
  let (h, r) ← readPair s
  let r ← readMark ':' r
  let (m, r) ← readPair r
  let r ← readMark ':' r
  let (sec, r) ← readPair r
  let (f, r) ← readFraction r
  let minute := h * 3600 + m * 60
  if 23 < h ∨ 59 < m ∨ 60 < sec then none
  else if sec = 60 then return ((minute + 59, 1000000000 + f), r)
  else return ((minute + sec, f), r)

/-- The time at the place of the text must be an instant as well as that in UTC. -/
def read (text : List Char) : Option Instant := do
  let (date, r) ← readDate text
  let r ← match r with
    | c :: r => if c = 't' ∨ c = 'T' ∨ c = ' ' then some r else none
    | [] => none
  let ((time, fraction), r) ← readTime r
  let (offset, r) ← readOffset (trimLeft r)
  if trimLeft r = [] ∧ date.Valid ∧ offset.natAbs < 86400 then
    let here ← of? (Calendar.dayOf date * 86400 + time) fraction
    of? (here.second - offset) fraction
  else none

end PeerShare.Instant
