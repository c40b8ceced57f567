import PeerShare.Yaml.Typed

/-!
Writing a text as a YAML scalar: plain where a plain scalar means that text, in single quotes where
it would mean something else, as a literal block if it has a line feed, and in double quotes if
nothing else can hold it. Lines are never folded.
-/

namespace PeerShare.Yaml

def isPrintable (c : Char) : Bool :=
  let n := c.toNat
  n == 0x0A || (0x20 ≤ n && n ≤ 0x7E) || (0xA0 ≤ n && n ≤ 0xD7FF) ||
    (0xE000 ≤ n && n ≤ 0xFFFD && n != 0xFEFF) || 0x10000 ≤ n

structure Survey where
  marks : Bool := false
  breaks : Bool := false
  special : Bool := false
  leadingSpace : Bool := false
  trailingSpace : Bool := false
  leadingBreak : Bool := false
  trailingBreak : Bool := false
  breakSpace : Bool := false
  spaceBreak : Bool := false

/-- Marks at the beginning of a text, `next` being the character after the first. -/
def isLeadingMark (c next : Char) : Bool :=
  "#,[]\x7b\x7d&*!|>\x27\x22%@\x60".toList.contains c ||
    ("?:-".toList.contains c && isBlankOrEnd next)

def isInnerMark (last c next : Char) : Bool :=
  (c == ':' && isBlankOrEnd next) || (c == '#' && isBlankOrEnd last)

def Survey.ofChar (last : Option Char) (c : Char) (next : Option Char) : Survey :=
  let after := next.getD '\x00'
  { marks := match last with
      | none => isLeadingMark c after
      | some l => isInnerMark l c after
    breaks := isBreak c
    special := !isPrintable c
    leadingSpace := c == ' ' && last.isNone
    trailingSpace := c == ' ' && next.isNone
    leadingBreak := isBreak c && last.isNone
    trailingBreak := isBreak c && next.isNone
    breakSpace := c == ' ' && last.any isBreak
    spaceBreak := isBreak c && last == some ' ' }

def Survey.or (a b : Survey) : Survey :=
  { marks := a.marks || b.marks
    breaks := a.breaks || b.breaks
    special := a.special || b.special
    leadingSpace := a.leadingSpace || b.leadingSpace
    trailingSpace := a.trailingSpace || b.trailingSpace
    leadingBreak := a.leadingBreak || b.leadingBreak
    trailingBreak := a.trailingBreak || b.trailingBreak
    breakSpace := a.breakSpace || b.breakSpace
    spaceBreak := a.spaceBreak || b.spaceBreak }

def surveyFrom (last : Option Char) : List Char → Survey
  | [] => {}
  | c :: r => (Survey.ofChar last c r.head?).or (surveyFrom (some c) r)

def startsLikeMarker (s : List Char) : Bool :=
  "---".toList.isPrefixOf s || "...".toList.isPrefixOf s

def survey (s : List Char) : Survey :=
  (surveyFrom none s).or { marks := startsLikeMarker s }

def Survey.allowsPlain (v : Survey) : Bool :=
  !(v.marks || v.breaks || v.special || v.leadingSpace || v.trailingSpace || v.breakSpace ||
    v.spaceBreak)

def Survey.allowsSingle (v : Survey) : Bool := !(v.special || v.breakSpace || v.spaceBreak)

def Survey.allowsBlock (v : Survey) : Bool := !(v.special || v.spaceBreak || v.trailingSpace)

def readsAsText (s : List Char) : Bool :=
  match plainJson? s with
  | some (.str _) => !isZeroLed s
  | _ => false

def chooseStyle (s : List Char) : Style :=
  let v := survey s
  if s.contains '\n' then (if v.allowsBlock then .literal else .doubleQuoted)
  else if readsAsText s && v.allowsPlain then .plain
  else if v.allowsSingle then .singleQuoted
  else .doubleQuoted

def upperHex (width n : Nat) : List Char := (Text.hexDigits width n).map Char.toUpper

def escapeChar (c : Char) : List Char :=
  let n := c.toNat
  '\\' :: match n with
    | 0x00 => ['0']
    | 0x07 => ['a']
    | 0x08 => ['b']
    | 0x09 => ['t']
    | 0x0A => ['n']
    | 0x0B => ['v']
    | 0x0C => ['f']
    | 0x0D => ['r']
    | 0x1B => ['e']
    | 0x22 => ['\x22']
    | 0x5C => ['\\']
    | 0x85 => ['N']
    | 0xA0 => ['_']
    | 0x2028 => ['L']
    | 0x2029 => ['P']
    | _ =>
      if n ≤ 0xFF then 'x' :: upperHex 2 n
      else if n ≤ 0xFFFF then 'u' :: upperHex 4 n
      else 'U' :: upperHex 8 n

def doubleQuotedChar (c : Char) : List Char :=
  if !isPrintable c || isBreak c || c == '\x22' || c == '\\' then escapeChar c else [c]

def doubleQuoted (s : List Char) : List Char :=
  '\x22' :: s.flatMap doubleQuotedChar ++ ['\x22']

def blanks (n : Nat) : List Char := List.replicate n ' '

def singleQuotedFrom (indent : Nat) (afterBreak : Bool) : List Char → List Char
  | [] => if afterBreak then blanks indent else []
  | c :: r =>
    if isBreak c then c :: singleQuotedFrom indent true r
    else (if afterBreak then blanks indent else []) ++
      (if c = '\x27' then ['\x27', '\x27'] else [c]) ++ singleQuotedFrom indent false r

def singleQuoted (indent : Nat) (s : List Char) : List Char :=
  '\x27' :: singleQuotedFrom indent false s ++ ['\x27']

def chompMark (s : List Char) : List Char :=
  match s.reverse with
  | [] => ['-']
  | a :: r =>
    if ¬ isBreak a then ['-']
    else match r with
      | [] => ['+']
      | b :: _ => if isBreak b then ['+'] else []

def step : Nat := 2

def indentMark (s : List Char) : List Char :=
  match s with
  | c :: _ => if c == ' ' || isBreak c then Nat.toDigits 10 step else []
  | [] => []

def literalFrom (indent : Nat) (afterBreak : Bool) : List Char → List Char
  | [] => []
  | c :: r =>
    if isBreak c then c :: literalFrom indent true r
    else (if afterBreak then blanks indent else []) ++ c :: literalFrom indent false r

def literal (indent : Nat) (s : List Char) : List Char :=
  '|' :: indentMark s ++ chompMark s ++ '\n' :: literalFrom indent true s

/-- A scalar in a block at a column; its further lines stand one step in. A literal block ends its
last line itself if the text does. -/
def scalarText (column : Nat) (s : List Char) : List Char :=
  match chooseStyle s with
  | .plain => s
  | .singleQuoted => singleQuoted (column + step) s
  | .literal | .folded => literal (column + step) s
  | .doubleQuoted => doubleQuoted s

def endsLine (s : List Char) : Bool := chooseStyle s == .literal && s.getLast?.any isBreak

def memberLine (column : Nat) (name : String) (s : List Char) : List Char :=
  name.toList ++ ':' :: ' ' :: scalarText column s ++ (if endsLine s then [] else ['\n'])

end PeerShare.Yaml
