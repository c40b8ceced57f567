import PeerShare.Json.Value
import PeerShare.Yaml.Node

/-!
What a scalar means. A field of text takes any scalar as it stands; a number must be plain, an
absent value plain and empty, `~` or `null`. Scalars without a field to say what they are mean what
their tag says; plain ones without a tag mean null, a truth value, a number or text, in this order.
-/

namespace PeerShare.Yaml

open Decimal

def isNullText (s : List Char) : Bool :=
  ["null", "Null", "NULL", "~"].any fun w => w.toList == s

def boolOfText? (s : List Char) : Option Bool :=
  if ["true", "True", "TRUE"].any fun w => w.toList == s then some true
  else if ["false", "False", "FALSE"].any fun w => w.toList == s then some false
  else none

def digitIn (radix : Nat) (c : Char) : Option Nat := (Text.hexValue c).filter (· < radix)

def ofRadix? (radix : Nat) (s : List Char) : Option Nat :=
  if s = [] then none
  else (s.mapM (digitIn radix)).map fun ds => ds.foldl (fun n d => n * radix + d) 0

def dropSign (s : List Char) : List Char :=
  match s with
  | '+' :: r | '-' :: r => r
  | r => r

def isZeroLed (s : List Char) : Bool :=
  match dropSign s with
  | '0' :: d :: r => (d :: r).all Text.isDigit
  | _ => false

def magnitude? (s : List Char) : Option Nat :=
  match s with
  | '0' :: 'x' :: r => ofRadix? 16 r
  | '0' :: 'o' :: r => ofRadix? 8 r
  | '0' :: 'b' :: r => ofRadix? 2 r
  | r => if isZeroLed r then none else ofRadix? 10 r

def unsigned? (s : List Char) : Option Nat :=
  match s with
  | '+' :: r => magnitude? r
  | r => magnitude? r

def negative? (s : List Char) : Option Nat :=
  match s with
  | '-' :: r => magnitude? r
  | _ => none

def fractionParts? (s : List Char) : Option (Nat × Int) := do
  let whole := s.takeWhile Text.isDigit
  let r := s.drop whole.length
  let (frac, r) := match r with
    | '.' :: r => (r.takeWhile Text.isDigit, r.dropWhile Text.isDigit)
    | r => ([], r)
  if whole = [] ∧ frac = [] then none
  else
    let e : Int ← match r with
      | [] => some 0
      | m :: r =>
        if m = 'e' ∨ m = 'E' then
          match r with
          | '-' :: ds => (ofRadix? 10 ds).map fun n => -(n : Int)
          | '+' :: ds => (ofRadix? 10 ds).map fun n => (n : Int)
          | ds => (ofRadix? 10 ds).map fun n => (n : Int)
        else none
    return (Text.ofDigits (whole ++ frac), e - frac.length)

def roundScaled (minus : Bool) (n : Nat) (e : Int) : Option Binary :=
  let top : Int := (Nat.toDigits 10 n).length + e
  if n = 0 ∨ top < -400 then some (Binary.zero minus)
  else if 400 < top then none
  else if e < 0 then Binary.ofRatio minus n (Nat.pow 10 e.natAbs)
  else Binary.ofRatio minus (n * Nat.pow 10 e.natAbs) 1

def finite? (s : List Char) : Option Binary :=
  match s with
  | '+' :: r => (fractionParts? r).bind fun (n, e) => roundScaled false n e
  | '-' :: r => (fractionParts? r).bind fun (n, e) => roundScaled true n e
  | r => (fractionParts? r).bind fun (n, e) => roundScaled false n e

def isInfiniteOrNan (s : List Char) : Bool :=
  [".inf", ".Inf", ".INF", "+.inf", "+.Inf", "+.INF", "-.inf", "-.Inf", "-.INF", ".nan", ".NaN",
    ".NAN"].any fun w => w.toList == s

def fraction? (s : List Char) : Option Json :=
  if isInfiniteOrNan s then some .null else (finite? s).map fun x => .num (.float x)

inductive Whole
  | small (n : Json.Number)
  | vast

def whole? (s : List Char) : Option Whole :=
  let wide := UInt64.size * UInt64.size
  match unsigned? s, negative? s with
  | some n, _ =>
    if n < UInt64.size then some (.small (.nat (UInt64.ofNat n)))
    else if n < wide then some .vast
    else none
  | none, some n =>
    if n = 0 then some (.small (.nat 0))
    else if n ≤ UInt64.size / 2 then some (.small (.neg n))
    else if n ≤ wide / 2 then some .vast
    else none
  | none, none => none

def Whole.json? : Whole → Option Json
  | .small n => some (.num n)
  | .vast => none

def textJson (s : List Char) : Json := .str (String.ofList s)

def plainJson? (s : List Char) : Option Json :=
  if s = [] ∨ isNullText s then some .null
  else match boolOfText? s, whole? s with
    | some b, _ => some (.bool b)
    | none, some n => n.json?
    | none, none => some (if isZeroLed s then textJson s else (fraction? s).getD (textJson s))

def coreTag (name : String) : Tag := coreStart ++ Text.bytes name

def ownMark : UInt8 := '!'.toUInt8

def ownName? : Option Tag → Option (List Char)
  | some (b :: name) => if b = ownMark then (Text.decode name).toOption else none
  | _ => none

/-- What a scalar stands for. A tag of one's own has no meaning in JSON, and another one that is
not known makes a text. -/
def scalarJson? (tag : Option Tag) (style : Style) (s : List Char) : Option Json :=
  match tag with
  | none => if style = .plain then plainJson? s else some (textJson s)
  | some t =>
    if (ownName? tag).isSome then none
    else if t = coreTag "bool" then (boolOfText? s).map .bool
    else if t = coreTag "int" then (whole? s).bind Whole.json?
    else if t = coreTag "float" then fraction? s
    else if t = coreTag "null" then if isNullText s then some .null else none
    else if t.head? = some ownMark ∧ style = .plain then plainJson? s
    else some (textJson s)

namespace Node

def text? : Node → Option String
  | .scalar _ _ s => some (String.ofList s)
  | _ => none

def unsigned? (limit : Nat) : Node → Option Nat
  | .scalar tag style s =>
    if style = .plain ∨ (style = .literal ∧ tag = some (coreTag "int")) then
      (Yaml.unsigned? s).filter (· < limit)
    else none
  | _ => none

def optionalText? : Node → Option (Option String)
  | .scalar tag style s =>
    let here := some (some (String.ofList s))
    if style ≠ .plain then here
    else match tag with
      | some t => if t ≠ coreTag "null" then here else if isNullText s then some none else none
      | none => if s = [] ∨ isNullText s then some none else here
  | _ => none

def name? : Node → Option String
  | .scalar tag style s =>
    match ownName? tag with
    | none => some (String.ofList s)
    | some name =>
      if style = .plain ∧ (s = [] ∨ isNullText s) then some (String.ofList name) else none
  | _ => none

def isEmptyPlain : Node → Bool
  | .scalar _ .plain [] => true
  | _ => false

end Node

namespace Document

def items? (d : Document) (n : Node) : Option (List Node) :=
  match n with
  | .sequence _ ns => some (ns.map d.follow)
  | n => if n.isEmptyPlain then some [] else none

def fieldsOf (d : Document) (wanted : List String) :
    List (Node × Node) → Option (List (String × Node))
  | [] => some []
  | (k, v) :: ps => do
    let name ← (d.follow k).text?
    let fields ← fieldsOf d wanted ps
    if ¬ wanted.contains name then return fields
    else if fields.any (·.1 == name) then none
    else return (name, d.follow v) :: fields

def fields? (d : Document) (wanted : List String) (n : Node) : Option (List (String × Node)) :=
  match n with
  | .mapping _ ps => d.fieldsOf wanted ps
  | n => if n.isEmptyPlain then some [] else none

def rootFields? (d : Document) (wanted : List String) : Option (List (String × Node)) :=
  d.fields? wanted (d.follow d.root)

def followCounted (d : Document) (n : Node) : StateT Nat Option Node :=
  match n with
  | .alias _ => do
    match ← get with
    | 0 => failure
    | left + 1 => set left
    return d.follow n
  | n => return d.follow n

/-- The JSON value that a node stands for; names of members are texts. `depth` is how many
collections it may still open. -/
def jsonOf (d : Document) : (depth : Nat) → Node → StateT Nat Option Json
  | depth, n => do
    match ← d.followCounted n with
    | .scalar tag style s => liftM (scalarJson? tag style s)
    | .sequence tag ns =>
      match depth with
      | 0 => failure
      | depth + 1 => if (ownName? tag).isSome then failure else .arr <$> ns.mapM (d.jsonOf depth)
    | .mapping tag ps =>
      match depth with
      | 0 => failure
      | depth + 1 =>
        if (ownName? tag).isSome then failure
        else
          let members ← ps.foldlM (fun done (k, v) => do
            let name ← liftM (← d.followCounted k).text?
            return Json.insert name (← d.jsonOf depth v) done) []
          return .obj members
    | .anchored .. | .alias _ => failure

def depthLimit : Nat := 128

/-- The value of a document. Following aliases more than a hundred times as often as the document
has parts counts as a fault. -/
def json? (d : Document) : Option Json :=
  ((d.jsonOf depthLimit d.root).run (d.root.size * 100)).map (·.1)

end Document

end PeerShare.Yaml
