import PeerShare.Text.Basic
import PeerShare.Yaml.Cursor

/-!
The four ways to write a scalar: plain, in single or double quotes, and as a block. Each reader
gives the text that is meant, lines folded and escapes resolved, or nothing if it is ill formed.
-/

namespace PeerShare.Yaml

inductive Style
  | plain
  | singleQuoted
  | doubleQuoted
  | literal
  | folded
  deriving DecidableEq, Repr

structure Gap where
  spaces : List Char := []
  firstBreak : List Char := []
  moreBreaks : List Char := []
  broken : Bool := false

def Gap.text (g : Gap) : List Char :=
  if ¬ g.broken then g.spaces
  else if g.firstBreak = ['\n'] then (if g.moreBreaks = [] then [' '] else g.moreBreaks)
  else g.firstBreak ++ g.moreBreaks

/-- A tab must not stand in a continuation line before the column `tabsFrom`. -/
def readGap (tabsFrom : Nat) : (fuel : Nat) → Gap → Cursor → Option (Gap × Cursor)
  | 0, _, _ => none
  | fuel + 1, g, c =>
    if isBlank c.peek then
      if g.broken then
        if c.peek = '\t' ∧ c.column < tabsFrom then none else readGap tabsFrom fuel g c.skip
      else readGap tabsFrom fuel { g with spaces := g.spaces ++ [c.peek] } c.skip
    else if isBreak c.peek then
      let (b, c) := c.readBreak
      if g.broken then readGap tabsFrom fuel { g with moreBreaks := g.moreBreaks ++ b } c
      else readGap tabsFrom fuel { g with spaces := [], firstBreak := b, broken := true } c
    else some (g, c)

/-! ### Plain scalars -/

def isFlowMark (c : Char) : Bool := c == ',' || c == '[' || c == ']' || c == '\x7b' ||
  c == '\x7d'

def readPlainWord (inFlow : Bool) : (fuel : Nat) → Cursor → Option (List Char × Cursor)
  | 0, _ => none
  | fuel + 1, c =>
    let x := c.peek
    let y := c.peekAt 1
    if isBlankOrEnd x then some ([], c)
    else if inFlow && x == ':' && (isFlowMark y || y == '?') then none
    else if (x == ':' && isBlankOrEnd y) || (inFlow && isFlowMark x) then some ([], c)
    else (readPlainWord inFlow fuel c.skip).map fun (w, c) => (x :: w, c)

/-- Words and gaps; `gap` is what stands before the next word. The flag tells whether the scalar
ended after a line break. -/
def readPlainFrom (inFlow : Bool) (indent : Int) :
    (fuel : Nat) → Gap → Cursor → Option (List Char × Bool × Cursor)
  | 0, _, _ => none
  | fuel + 1, gap, c =>
    if c.atDocumentMark || c.peek == '#' then some ([], gap.broken, c)
    else do
      let (word, d) ← readPlainWord inFlow (c.bound + 1) c
      let before := if word = [] then [] else gap.text
      let broken := word = [] && gap.broken
      if isBlank d.peek || isBreak d.peek then
        let (gap, e) ← readGap indent.toNat (d.bound + 1) {} d
        if !inFlow && (e.column : Int) < indent then return (before ++ word, gap.broken, e)
        else
          let (more, broken, c) ← readPlainFrom inFlow indent fuel gap e
          return (before ++ word ++ more, broken, c)
      else return (before ++ word, broken, d)

def readPlain (inFlow : Bool) (indent : Int) (c : Cursor) : Option (List Char × Bool × Cursor) :=
  readPlainFrom inFlow (indent + 1) (c.bound + 1) {} c

/-! ### Quoted scalars -/

def escapeOf (c : Char) : Option Char :=
  match c with
  | '0' => some '\x00'
  | 'a' => some '\x07'
  | 'b' => some '\x08'
  | 't' | '\t' => some '\t'
  | 'n' => some '\n'
  | 'v' => some '\x0b'
  | 'f' => some '\x0c'
  | 'r' => some '\r'
  | 'e' => some '\x1b'
  | ' ' => some ' '
  | '\x22' => some '\x22'
  | '/' => some '/'
  | '\\' => some '\\'
  | 'N' => some '\u0085'
  | '_' => some '\u00a0'
  | 'L' => some '\u2028'
  | 'P' => some '\u2029'
  | _ => none

def hexLength (c : Char) : Option Nat :=
  match c with
  | 'x' => some 2
  | 'u' => some 4
  | 'U' => some 8
  | _ => none

def readHex (digits : Nat) (c : Cursor) : Option (Char × Cursor) := do
  let ds ← (c.rest.take digits).mapM Text.hexValue
  let n := ds.foldl (fun n d => n * 16 + d) 0
  if ds.length = digits ∧ n.isValidChar then return (Char.ofNat n, c.skipMany digits) else none

def readEscape (c : Cursor) : Option (Char × Cursor) :=
  match hexLength c.peek with
  | some n => readHex n c.skip
  | none => (escapeOf c.peek).map fun e => (e, c.skip)

def readQuotedWord (single : Bool) : (fuel : Nat) → Cursor → Option (List Char × Bool × Cursor)
  | 0, _ => none
  | fuel + 1, c =>
    let x := c.peek
    if isBlankOrEnd x then some ([], false, c)
    else if single then
      if x == '\x27' then
        if c.peekAt 1 == '\x27' then
          (readQuotedWord single fuel (c.skipMany 2)).map fun (w, r) => ('\x27' :: w, r)
        else some ([], false, c)
      else (readQuotedWord single fuel c.skip).map fun (w, r) => (x :: w, r)
    else if x == '\x22' then some ([], false, c)
    else if x == '\\' then
      if isBreak (c.peekAt 1) then some ([], true, c.skip.skipBreak)
      else match readEscape c.skip with
        | some (e, c) => (readQuotedWord single fuel c).map fun (w, r) => (e :: w, r)
        | none => none
    else (readQuotedWord single fuel c.skip).map fun (w, r) => (x :: w, r)

def readQuotedFrom (single : Bool) : (fuel : Nat) → Cursor → Option (List Char × Cursor)
  | 0, _ => none
  | fuel + 1, c =>
    if c.atDocumentMark || c.atEnd then none
    else do
      let (word, cut, c) ← readQuotedWord single (c.bound + 1) c
      if ¬ cut ∧ c.peek = (if single then '\x27' else '\x22') then return (word, c.skip)
      else
        let (gap, c) ← readGap 0 (c.bound + 1) { broken := cut } c
        let (more, c) ← readQuotedFrom single fuel c
        return (word ++ gap.text ++ more, c)

def readQuoted (single : Bool) (c : Cursor) : Option (List Char × Cursor) :=
  readQuotedFrom single (c.bound + 1) c

/-! ### Block scalars -/

inductive Chomp
  | strip
  | clip
  | keep
  deriving DecidableEq

def readChomp (c : Cursor) : Option Chomp × Cursor :=
  match c.peek with
  | '+' => (some .keep, c.skip)
  | '-' => (some .strip, c.skip)
  | _ => (none, c)

def readIncrement (c : Cursor) : Option (Option Nat × Cursor) :=
  if c.peek = '0' then none
  else if Text.isDigit c.peek then some (some (Text.digitValue c.peek), c.skip)
  else some (none, c)

def readBlockHeader (c : Cursor) : Option (Chomp × Option Nat × Cursor) := do
  match readChomp c with
  | (some chomp, c) =>
    let (n, c) ← readIncrement c
    return (chomp, n, c)
  | (none, c) =>
    let (n, c) ← readIncrement c
    let (chomp, c) := if n.isSome then readChomp c else (none, c)
    return (chomp.getD .clip, n, c)

/-- Empty lines, and the largest column reached in them. -/
def readBlockBreaks (indent : Option Nat) :
    (fuel : Nat) → List Char → Nat → Cursor → Option (List Char × Nat × Cursor)
  | 0, _, _, _ => none
  | fuel + 1, breaks, widest, c =>
    let inside (c : Cursor) := indent.all fun n => decide (c.column < n)
    let blanks := (c.rest.takeWhile (· == ' ')).length
    let c := c.skipMany (match indent with
      | some n => min blanks (n - c.column)
      | none => blanks)
    let widest := max widest c.column
    if inside c && c.peek == '\t' then none
    else if isBreak c.peek then
      let (b, c) := c.readBreak
      readBlockBreaks indent fuel (breaks ++ b) widest c
    else some (breaks, widest, c)

/-- Lines at the column of the block. `last` is the break of the line before, `breaks` the empty
lines after it, `wasBlank` whether that line began with a blank. -/
def readBlockLines (literal : Bool) (indent : Nat) :
    (fuel : Nat) → (last breaks : List Char) → (wasBlank : Bool) → Cursor →
      Option (List Char × List Char × List Char × Cursor)
  | 0, _, _, _, _ => none
  | fuel + 1, last, breaks, wasBlank, c =>
    if c.column = indent ∧ ¬ c.atEnd then do
      let isBlankNow := isBlank c.peek
      let joined :=
        if ¬ literal ∧ last = ['\n'] ∧ ¬ wasBlank ∧ ¬ isBlankNow then
          (if breaks = [] then [' '] else breaks)
        else last ++ breaks
      let (line, c) := c.takeWhile (!isBreak ·)
      let (last, c) := c.readBreak
      let (breaks, _, c) ← readBlockBreaks (some indent) (c.bound + 1) [] 0 c
      let (more, last, breaks, c) ← readBlockLines literal indent fuel last breaks isBlankNow c
      return (joined ++ line ++ more, last, breaks, c)
    else some ([], last, breaks, c)

def readBlock (literal : Bool) (parent : Int) (c : Cursor) : Option (List Char × Cursor) := do
  let (chomp, increment, c) ← readBlockHeader c
  let c ← c.skipToNextLine?
  let given := increment.map fun n => if 0 ≤ parent then parent.toNat + n else n
  let (breaks, widest, c) ← readBlockBreaks given (c.bound + 1) [] 0 c
  let indent := given.getD (max widest (max (parent + 1).toNat 1))
  let (text, last, breaks, c) ← readBlockLines literal indent (c.bound + 1) [] breaks false c
  let last := if chomp = .strip then [] else last
  let breaks := if chomp = .keep then breaks else []
  return (text ++ last ++ breaks, c)

end PeerShare.Yaml
