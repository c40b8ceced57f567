/-!
Digits and white space. Runs of decimal digits are read, and numbers are written with at least a
given width; `trim` takes white space from both ends of a text, which is what the Unicode property
`White_Space` says and more than the ASCII blanks.
-/

namespace PeerShare.Text

def isDigit (c : Char) : Bool := '0' ≤ c && c ≤ '9'

def digitValue (c : Char) : Nat := c.toNat - '0'.toNat

def ofDigits (s : List Char) : Nat := s.foldl (fun n c => n * 10 + digitValue c) 0

def unsigned? (s : List Char) : Option Nat :=
  let ds := if s.head? = some '+' then s.drop 1 else s
  if ds != [] && ds.all isDigit then some (ofDigits ds) else none

def signed? (s : List Char) : Option Int :=
  match s with
  | '-' :: s => if s.head? = some '+' then none else (unsigned? s).map fun n => -(n : Int)
  | s => (unsigned? s).map Int.ofNat

def takeDigits (least most : Nat) (s : List Char) : Option (List Char × List Char) :=
  let ds := (s.take most).takeWhile isDigit
  if ds.length < least then none else some (ds, s.drop ds.length)

def padLeft (width : Nat) (n : Nat) : String :=
  let s := toString n
  String.ofList (List.replicate (width - s.length) '0') ++ s

def hexDigit (n : Nat) : Char :=
  if n < 10 then Char.ofNat ('0'.toNat + n) else Char.ofNat ('a'.toNat + (n - 10))

def hexDigits (width n : Nat) : List Char :=
  (List.range width).reverse.map fun i => hexDigit (n / Nat.pow 16 i % 16)

def hexValue (c : Char) : Option Nat :=
  if isDigit c then some (digitValue c)
  else if 'a' ≤ c && c ≤ 'f' then some (c.toNat - 'a'.toNat + 10)
  else if 'A' ≤ c && c ≤ 'F' then some (c.toNat - 'A'.toNat + 10)
  else none

/-- The twenty-five characters of the property `White_Space`. -/
def isBlank (c : Char) : Bool :=
  let n := c.toNat
  (9 ≤ n && n ≤ 13) || n == 0x20 || n == 0x85 || n == 0xA0 || n == 0x1680 ||
    (0x2000 ≤ n && n ≤ 0x200A) || n == 0x2028 || n == 0x2029 || n == 0x202F || n == 0x205F ||
    n == 0x3000

def trimLeft (s : List Char) : List Char := s.dropWhile isBlank

def trimRight (s : List Char) : List Char := (s.reverse.dropWhile isBlank).reverse

def trim (s : List Char) : List Char := trimRight (trimLeft s)

end PeerShare.Text
