import PeerShare.Text.Utf8

/-!
A place in a YAML text: the characters left, with the line and column reached and the bytes read.
The end of the text is seen as the character NUL, which a text cannot hold.
-/

namespace PeerShare.Yaml

structure Cursor where
  rest : List Char
  /-- The length of the whole text, which bounds every loop over what is left. -/
  bound : Nat
  offset : Nat := 0
  line : Nat := 0
  column : Nat := 0

def isBreak (c : Char) : Bool :=
  c == '\n' || c == '\r' || c == '\u0085' || c == '\u2028' || c == '\u2029'

def isBlank (c : Char) : Bool := c == ' ' || c == '\t'

def isBreakOrEnd (c : Char) : Bool := isBreak c || c == '\x00'

def isBlankOrEnd (c : Char) : Bool := isBlank c || isBreakOrEnd c

def isWordChar (c : Char) : Bool :=
  ('0' ≤ c && c ≤ '9') || ('A' ≤ c && c ≤ 'Z') || ('a' ≤ c && c ≤ 'z') || c == '_' || c == '-'

def isAllowed (c : Char) : Bool :=
  let n := c.toNat
  n == 0x09 || n == 0x0A || n == 0x0D || (0x20 ≤ n && n ≤ 0x7E) || n == 0x85 ||
    (0xA0 ≤ n && n ≤ 0xD7FF) || (0xE000 ≤ n && n ≤ 0xFFFD) || 0x10000 ≤ n

namespace Cursor

def start (text : List Char) : Cursor := { rest := text, bound := text.length }

def peekAt (c : Cursor) (n : Nat) : Char := c.rest[n]?.getD '\x00'

def peek (c : Cursor) : Char := c.peekAt 0

def atEnd (c : Cursor) : Bool := c.rest.isEmpty

def offsetAfter (c : Cursor) (n : Nat) : Nat :=
  (c.rest.take n).foldl (fun k x => k + (Text.encodeChar x).length) c.offset

def skipMany (c : Cursor) (n : Nat) : Cursor :=
  { c with rest := c.rest.drop n, offset := c.offsetAfter n, column := c.column + n }

def skip (c : Cursor) : Cursor := c.skipMany 1

def skipWhile (c : Cursor) (p : Char → Bool) : Cursor := c.skipMany (c.rest.takeWhile p).length

def takeWhile (c : Cursor) (p : Char → Bool) : List Char × Cursor :=
  (c.rest.takeWhile p, c.skipWhile p)

def toNextLine (c : Cursor) (n : Nat) : Cursor :=
  { c with
    rest := c.rest.drop n
    offset := c.offsetAfter n
    line := c.line + 1
    column := 0 }

/-- A line break, if one is next: all but the two Unicode separators count as a line feed. -/
def readBreak (c : Cursor) : List Char × Cursor :=
  match c.rest with
  | '\r' :: '\n' :: _ => (['\n'], c.toNextLine 2)
  | b :: _ =>
    if b = '\u2028' ∨ b = '\u2029' then ([b], c.toNextLine 1)
    else if isBreak b then (['\n'], c.toNextLine 1)
    else ([], c)
  | [] => ([], c)

def skipBreak (c : Cursor) : Cursor := c.readBreak.2

/-- Passes over blanks, a comment after them, and the line break after that. -/
def skipToNextLine? (c : Cursor) : Option Cursor :=
  let c := c.skipWhile isBlank
  let c := if c.peek = '#' then c.skipWhile (!isBreak ·) else c
  if isBreakOrEnd c.peek then some c.skipBreak else none

def atMarker (c : Cursor) (mark : Char) : Bool :=
  c.column == 0 && c.peek == mark && c.peekAt 1 == mark && c.peekAt 2 == mark &&
    isBlankOrEnd (c.peekAt 3)

def atDocumentMark (c : Cursor) : Bool := c.atMarker '-' || c.atMarker '.'

end Cursor

end PeerShare.Yaml
