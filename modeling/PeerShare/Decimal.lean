/-!
Binary fractions of 53 significant bits: the number `mant * 2 ^ exp` with a sign. `ofRatio` rounds
a quotient to the nearest of them, a tie going to the even one; a quotient too large has none.
`shortest` finds the fewest decimal digits that read back as a given fraction, and the nearest such
digits. `render` writes them positionally where the decimal exponent is small, and otherwise with an
exponent, which always has a sign.
-/

namespace PeerShare.Decimal

structure Binary where
  negative : Bool
  mant : Nat
  exp : Int
  deriving DecidableEq, Repr, Inhabited

namespace Binary

def zero (negative : Bool) : Binary := ⟨negative, 0, 0⟩

def scaled (num den : Nat) (exp : Int) : Nat × Nat :=
  if exp < 0 then (num * Nat.pow 2 exp.natAbs, den) else (num, den * Nat.pow 2 exp.natAbs)

def roundEven (num den : Nat) : Nat :=
  let q := num / den
  let r := num % den
  if 2 * r < den then q else if den < 2 * r then q + 1 else q + q % 2

/-- The exponent at which the quotient has 53 bits, but not below that of the smallest number. -/
def exponentOf (num den : Nat) : Int :=
  let e : Int := (num.log2 : Int) - (den.log2 : Int) - 52
  let (n, d) := scaled num den e
  max (if n < d * Nat.pow 2 52 then e - 1 else e) (-1074)

def maxExponent : Int := 971

def ofRatio (negative : Bool) (num den : Nat) : Option Binary :=
  if num = 0 then some (zero negative)
  else
    let e := exponentOf num den
    let (n, d) := scaled num den e
    let m := roundEven n d
    let (m, e) := if m = Nat.pow 2 53 then (Nat.pow 2 52, e + 1) else (m, e)
    if maxExponent < e then none else some ⟨negative, m, e⟩

def ofNat (negative : Bool) (n : Nat) : Binary := (ofRatio negative n 1).getD (zero negative)

def ratio (x : Binary) : Nat × Nat :=
  if x.exp < 0 then (x.mant, Nat.pow 2 x.exp.natAbs) else (x.mant * Nat.pow 2 x.exp.natAbs, 1)

/-- The rounded product with a power of ten that is itself rounded; none if it is too large. -/
def timesPowerOfTen (x : Binary) (k : Nat) : Option Binary := do
  let p ← ofRatio false (Nat.pow 10 k) 1
  let (a, b) := x.ratio
  let (c, d) := p.ratio
  ofRatio x.negative (a * c) (b * d)

def overPowerOfTen (x : Binary) (k : Nat) : Binary :=
  match ofRatio false (Nat.pow 10 k) 1 with
  | none => zero x.negative
  | some p =>
    let (a, b) := x.ratio
    let (c, d) := p.ratio
    (ofRatio x.negative (a * d) (b * c)).getD (zero x.negative)

/-! ### Shortest digits -/

/-- Quarters of the last place down to the halfway point below, which is nearer at a power of
two. -/
def lowerGap (x : Binary) : Nat := if x.mant = Nat.pow 2 52 ∧ -1074 < x.exp then 1 else 2

/-- Whether `c * 10 ^ k` reads back as `x`: it lies between the halfway points to the neighbours,
which belong to `x` if its last bit is zero. -/
def readsBack (x : Binary) (c : Nat) (k : Int) : Bool :=
  let (cn, cd) := if k < 0 then (c, Nat.pow 10 k.natAbs) else (c * Nat.pow 10 k.natAbs, 1)
  let (sn, sd) := if x.exp < 0 then (1, Nat.pow 2 x.exp.natAbs) else (Nat.pow 2 x.exp.natAbs, 1)
  let v := 4 * cn * sd
  let low := (4 * x.mant - x.lowerGap) * sn * cd
  let high := (4 * x.mant + 2) * sn * cd
  if x.mant % 2 = 0 then low ≤ v && v ≤ high else low < v && v < high

def leadingPower (x : Binary) : Int :=
  let (n, d) := x.ratio
  if d ≤ n then ((Nat.toDigits 10 (n / d)).length : Int) - 1
  else
    let zeros := (List.range 330).find? fun z => d ≤ n * Nat.pow 10 (z + 1)
    Int.negSucc (zeros.getD 0)

def onGrid (x : Binary) (digits : Nat) : Option (Nat × Int) :=
  let k := x.leadingPower - (digits - 1 : Nat)
  let (n, d) := x.ratio
  let (n, d) := if k < 0 then (n * Nat.pow 10 k.natAbs, d) else (n, d * Nat.pow 10 k.natAbs)
  let c := n / d
  let below := x.readsBack c k
  let above := x.readsBack (c + 1) k
  if below && above then
    let r := 2 * (n % d)
    some (if r < d || (r = d && c % 2 = 0) then c else c + 1, k)
  else if below then some (c, k)
  else if above then some (c + 1, k)
  else none

def shortest (x : Binary) : Nat × Int :=
  match (List.range 17).findSome? fun i => x.onGrid (i + 1) with
  | some (c, k) => strip 17 c k
  | none => (0, 0)
where
  strip : Nat → Nat → Int → Nat × Int
    | 0, c, k => (c, k)
    | n + 1, c, k => if c ≠ 0 ∧ c % 10 = 0 then strip n (c / 10) (k + 1) else (c, k)

def zeros (n : Nat) : List Char := List.replicate n '0'

def positional (ds : List Char) (p : Int) : List Char :=
  if p ≤ 0 then ['0', '.'] ++ zeros p.natAbs ++ ds
  else if ds.length ≤ p.toNat then ds ++ zeros (p.toNat - ds.length) ++ ['.', '0']
  else ds.take p.toNat ++ '.' :: ds.drop p.toNat

def scientific (ds : List Char) (e : Int) : List Char :=
  let frac := match ds with
    | d :: (r@(_ :: _)) => d :: '.' :: r
    | r => r
  frac ++ ['e', if e < 0 then '-' else '+'] ++ Nat.toDigits 10 e.natAbs

def render (x : Binary) : String :=
  let text :=
    if x.mant = 0 then ['0', '.', '0']
    else
      let (c, k) := x.shortest
      let ds := Nat.toDigits 10 c
      let e := k + (ds.length : Int) - 1
      if -5 ≤ e ∧ e < 16 then positional ds (e + 1) else scientific ds e
  String.ofList (if x.negative then '-' :: text else text)

end Binary

end PeerShare.Decimal
