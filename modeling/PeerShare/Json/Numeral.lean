import PeerShare.Json.Value

/-!
Numbers in JSON text. A `Numeral` is the text split into its parts; its value is a whole number
where it fits 64 bits, and else a binary fraction: the digits that fit 64 bits, rounded, times or
over a rounded power of ten.
-/

namespace PeerShare.Json

open Text Decimal

structure Numeral where
  negative : Bool
  whole : List Char
  fraction : List Char
  exponent : Option (Bool × List Char)
  deriving Repr

namespace Numeral

def readWhole (s : List Char) : Option (List Char × List Char) :=
  match s.takeWhile isDigit with
  | [] => none
  | '0' :: _ :: _ => none
  | ds => some (ds, s.drop ds.length)

def readFraction (s : List Char) : Option (List Char × List Char) :=
  match s with
  | '.' :: r =>
    let ds := r.takeWhile isDigit
    if ds = [] then none else some (ds, r.drop ds.length)
  | _ => some ([], s)

def readExponentDigits (negative : Bool) (s : List Char) :
    Option (Option (Bool × List Char) × List Char) :=
  let ds := s.takeWhile isDigit
  if ds = [] then none else some (some (negative, ds), s.drop ds.length)

def readExponent (s : List Char) : Option (Option (Bool × List Char) × List Char) :=
  match s with
  | e :: r =>
    if e = 'e' ∨ e = 'E' then
      match r with
      | '-' :: r => readExponentDigits true r
      | '+' :: r => readExponentDigits false r
      | r => readExponentDigits false r
    else some (none, s)
  | [] => some (none, s)

def read (s : List Char) : Option (Numeral × List Char) := do
  let (negative, s) := match s with
    | '-' :: r => (true, r)
    | r => (false, r)
  let (whole, s) ← readWhole s
  let (fraction, s) ← readFraction s
  let (exponent, s) ← readExponent s
  return (⟨negative, whole, fraction, exponent⟩, s)

/-- The digits up to the first that no longer fits 64 bits, and how many are left. -/
def gather (n : Nat) : List Char → Nat × Nat
  | [] => (n, 0)
  | d :: ds =>
    let m := n * 10 + digitValue d
    if m < UInt64.size then gather m ds else (n, ds.length + 1)

/-- `n * 10 ^ e` in at most three roundings, none if it is too large. -/
def scale (x : Binary) : (steps : Nat) → Int → Option Binary
  | 0, _ => some (Binary.zero x.negative)
  | steps + 1, e =>
    if e.natAbs ≤ 308 then
      if 0 ≤ e then x.timesPowerOfTen e.natAbs else some (x.overPowerOfTen e.natAbs)
    else if x.mant = 0 then some x
    else if 0 ≤ e then none
    else scale (x.overPowerOfTen 308) steps (e + 308)

/-- An exponent that no longer fits 31 bits makes zero, or a number that is too large. -/
def float (negative : Bool) (n : Nat) (e : Int) (exponent : Option (Bool × List Char)) :
    Option Binary :=
  match exponent with
  | none => scale (Binary.ofNat negative n) 4 e
  | some (down, ds) =>
    let k := ofDigits ds
    if UInt32.size / 2 ≤ k then
      if n ≠ 0 ∧ ¬ down then none else some (Binary.zero negative)
    else scale (Binary.ofNat negative n) 4 (if down then e - k else e + k)

def value (x : Numeral) : Option Number :=
  let (n, left) := gather 0 x.whole
  if left = 0 ∧ x.fraction = [] ∧ x.exponent = none then
    if ¬ x.negative then some (.nat (UInt64.ofNat n))
    else if n ≠ 0 ∧ n ≤ UInt64.size / 2 then some (.neg n)
    else some (.float (Binary.ofNat true n))
  else
    let (m, rest) := gather n x.fraction
    let used : Int := (x.fraction.length : Int) - rest
    (float x.negative m ((left : Int) - used) x.exponent).map .float

end Numeral

end PeerShare.Json
