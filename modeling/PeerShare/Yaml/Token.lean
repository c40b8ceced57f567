import PeerShare.Yaml.Scalar

/-!
The tokens of a YAML text. Brackets of blocks come from indentation, and a key is recognised only
at the colon after it: the scanner remembers where a key may have begun and puts the tokens that
open it in front of that place. `scan` gives all tokens of a text, or nothing if it is ill formed.
-/

namespace PeerShare.Yaml

inductive Token
  | version (major minor : Nat)
  | tagPrefixOf (handle : List Char) (start : Bytes)
  | documentStart
  | documentEnd
  | blockSequenceStart
  | blockMappingStart
  | blockEnd
  | flowSequenceStart
  | flowSequenceEnd
  | flowMappingStart
  | flowMappingEnd
  | blockEntry
  | flowEntry
  | key
  | value
  | alias (name : List Char)
  | anchor (name : List Char)
  | tag (handle : List Char) (suffix : Bytes)
  | scalar (text : List Char) (style : Style)
  deriving DecidableEq, Repr

structure PendingKey where
  required : Bool
  position : Nat
  offset : Nat
  line : Nat
  column : Nat

structure Scanner where
  cursor : Cursor
  flow : Nat := 0
  indent : Int := -1
  outer : List Int := []
  keyAllowed : Bool := true
  keys : List (Option PendingKey) := [none]
  tokens : List Token := []
  count : Nat := 0

namespace Scanner

def emit (s : Scanner) (t : Token) : Scanner :=
  { s with tokens := t :: s.tokens, count := s.count + 1 }

def emitAt (s : Scanner) (position : Nat) (t : Token) : Scanner :=
  let after := s.count - position
  { s with
    tokens := s.tokens.take after ++ t :: s.tokens.drop after
    count := s.count + 1 }

def inFlow (s : Scanner) : Bool := s.flow != 0

/-- A key must end on its line and within 1024 bytes. -/
def isStale (s : Scanner) (k : PendingKey) : Bool :=
  k.line < s.cursor.line || k.offset + 1024 < s.cursor.offset

def dropStale (s : Scanner) : Option Scanner :=
  if s.keys.any fun k => k.any fun k => k.required && s.isStale k then none
  else some { s with keys := s.keys.map fun k => k.filter fun k => !s.isStale k }

def dropKey (s : Scanner) : Option Scanner :=
  match s.keys with
  | some k :: ks => if k.required then none else some { s with keys := none :: ks }
  | _ => some s

def noteKey (s : Scanner) : Option Scanner :=
  if s.keyAllowed then do
    let s ← s.dropKey
    let k : PendingKey :=
      ⟨!s.inFlow && s.indent == (s.cursor.column : Int), s.count, s.cursor.offset,
        s.cursor.line, s.cursor.column⟩
    return { s with keys := some k :: s.keys.drop 1 }
  else some s

def openBlock (s : Scanner) (column position : Nat) (t : Token) : Scanner :=
  if !s.inFlow && s.indent < (column : Int) then
    { s.emitAt position t with indent := column, outer := s.indent :: s.outer }
  else s

def closeBlocks (s : Scanner) (column : Int) : Scanner :=
  if s.inFlow then s else go s.outer s
where
  go : List Int → Scanner → Scanner
    | [], s => s
    | i :: outer, s =>
      if column < s.indent then go outer { s.emit .blockEnd with indent := i, outer := outer }
      else s

/-- Passes over blanks, comments and line breaks. Tabs count as blanks where no key can begin. A
byte order mark may begin a line, and takes a column of it. -/
def skipSpace : (fuel : Nat) → Scanner → Scanner
  | 0, s => s
  | fuel + 1, s =>
    let c := s.cursor
    let c := if c.column = 0 ∧ c.peek = '\ufeff' then c.skip else c
    let c := c.skipWhile fun x => x == ' ' || (x == '\t' && (s.inFlow || !s.keyAllowed))
    let c := if c.peek = '#' then c.skipWhile (!isBreak ·) else c
    if isBreak c.peek then
      skipSpace fuel { s with cursor := c.skipBreak, keyAllowed := s.keyAllowed || !s.inFlow }
    else { s with cursor := c }

def skipMark (s : Scanner) (t : Token) (keyAllowed : Bool) : Scanner :=
  { s.emit t with cursor := s.cursor.skip, keyAllowed := keyAllowed }

/-! ### Directives -/

def readVersionNumber (c : Cursor) : Option (Nat × Cursor) :=
  let (ds, c) := c.takeWhile Text.isDigit
  if ds = [] ∨ 9 < ds.length then none else some (Text.ofDigits ds, c)

def readTagHandle (isDirective : Bool) (c : Cursor) : Option (List Char × Cursor) :=
  if c.peek ≠ '!' then none
  else
    let (word, c) := c.skip.takeWhile isWordChar
    if c.peek = '!' then some ('!' :: word ++ ['!'], c.skip)
    else if isDirective ∧ word ≠ [] then none
    else some ('!' :: word, c)

def isUriChar (verbatim : Bool) (c : Char) : Bool :=
  isWordChar c || ";/?:@&=+$.!~*\x27()%".toList.contains c || (verbatim && ",[]".toList.contains c)

def readOctet (c : Cursor) : Option (UInt8 × Cursor) := do
  if c.peek ≠ '%' then none
  else
    let a ← Text.hexValue (c.peekAt 1)
    let b ← Text.hexValue (c.peekAt 2)
    return (UInt8.ofNat (a * 16 + b), c.skipMany 3)

def readTailOctets : Nat → Cursor → Option (Bytes × Cursor)
  | 0, c => some ([], c)
  | k + 1, c => do
    let (b, c) ← readOctet c
    if ¬ Text.isTail b then none
    else
      let (bs, c) ← readTailOctets k c
      return (b :: bs, c)

def readUriEscape (c : Cursor) : Option (Bytes × Cursor) := do
  let (a, c) ← readOctet c
  let tails ←
    if a.toNat < 0x80 then some 0
    else if a.toNat / 32 = 6 then some 1
    else if a.toNat / 16 = 14 then some 2
    else if a.toNat / 8 = 30 then some 3
    else none
  let (bs, c) ← readTailOctets tails c
  return (a :: bs, c)

def readUri (verbatim : Bool) : (fuel : Nat) → Cursor → Option (Bytes × Cursor)
  | 0, c => some ([], c)
  | fuel + 1, c =>
    if ¬ isUriChar verbatim c.peek then some ([], c)
    else if c.peek = '%' then do
      let (x, c) ← readUriEscape c
      let (xs, c) ← readUri verbatim fuel c
      return (x ++ xs, c)
    else (readUri verbatim fuel c.skip).map fun (xs, d) => (Text.encodeChar c.peek ++ xs, d)

def untilZero (b : Bytes) : Bytes := b.takeWhile (· != 0)

def readSomeUri (verbatim : Bool) (c : Cursor) : Option (Bytes × Cursor) := do
  let (uri, c) ← readUri verbatim (c.bound + 1) c
  if uri = [] then none else some (untilZero uri, c)

def readDirective (c : Cursor) : Option (Token × Cursor) := do
  let (name, c) := c.skip.takeWhile isWordChar
  if ¬ isBlankOrEnd c.peek then none
  else if name = "YAML".toList then
    let (major, c) ← readVersionNumber (c.skipWhile isBlank)
    if c.peek ≠ '.' then none
    else
      let (minor, c) ← readVersionNumber c.skip
      return (.version major minor, ← c.skipToNextLine?)
  else if name = "TAG".toList then
    let (handle, c) ← readTagHandle true (c.skipWhile isBlank)
    if ¬ isBlank c.peek then none
    else
      let (start, c) ← readSomeUri true (c.skipWhile isBlank)
      if ¬ isBlankOrEnd c.peek then none
      else return (.tagPrefixOf handle start, ← c.skipToNextLine?)
  else none

/-! ### Tags and anchors -/

def readAnchorName (c : Cursor) : Option (List Char × Cursor) :=
  let (name, c) := c.skip.takeWhile isWordChar
  if name ≠ [] ∧ (isBlankOrEnd c.peek || "?:,]\x7d%@\x60".toList.contains c.peek) then
    some (name, c)
  else none

def readTag (inFlow : Bool) (c : Cursor) : Option (Token × Cursor) := do
  let (t, c) ←
    if c.peekAt 1 = '<' then do
      let (uri, c) ← readSomeUri true (c.skipMany 2)
      if c.peek = '>' then some (Token.tag [] uri, c.skip) else none
    else do
      let (handle, c) ← readTagHandle false c
      if 2 ≤ handle.length ∧ handle.getLast? = some '!' then
        let (uri, c) ← readSomeUri false c
        some (Token.tag handle uri, c)
      else
        let (uri, c) ← readUri false (c.bound + 1) c
        let suffix := untilZero (Text.encode (handle.drop 1) ++ uri)
        if suffix = [] then some (Token.tag [] (Text.encode ['!']), c)
        else some (Token.tag ['!'] suffix, c)
  if (inFlow && c.peek == ',') || isBlankOrEnd c.peek then some (t, c) else none

/-! ### One token after the other -/

def maybeKey (s : Scanner) (read : Cursor → Option (Token × Cursor)) : Option Scanner := do
  let s ← s.noteKey
  let (t, c) ← read s.cursor
  return { s.emit t with cursor := c, keyAllowed := false }

def startMarker (s : Scanner) : Option Scanner := do
  let s ← (s.closeBlocks (-1)).dropKey
  return { s with keyAllowed := false }

def openFlow (s : Scanner) (t : Token) : Option Scanner := do
  let s ← s.noteKey
  return { s.skipMark t true with keys := none :: s.keys, flow := s.flow + 1 }

def closeFlow (s : Scanner) (t : Token) : Option Scanner := do
  let s ← s.dropKey
  let s := if s.inFlow then { s with keys := s.keys.drop 1, flow := s.flow - 1 } else s
  return s.skipMark t false

def blockEntry (s : Scanner) : Option Scanner := do
  if ¬ s.inFlow ∧ ¬ s.keyAllowed then none
  else
    let s ← (s.openBlock s.cursor.column s.count .blockSequenceStart).dropKey
    return s.skipMark .blockEntry true

def explicitKey (s : Scanner) : Option Scanner := do
  if ¬ s.inFlow ∧ ¬ s.keyAllowed then none
  else
    let s ← (s.openBlock s.cursor.column s.count .blockMappingStart).dropKey
    return s.skipMark .key (!s.inFlow)

def value (s : Scanner) : Option Scanner :=
  match s.keys with
  | some k :: ks =>
    let s := s.emitAt k.position .key
    let s := s.openBlock k.column k.position .blockMappingStart
    some { s.skipMark .value false with keys := none :: ks }
  | _ =>
    if ¬ s.inFlow ∧ ¬ s.keyAllowed then none
    else
      let s := s.openBlock s.cursor.column s.count .blockMappingStart
      some (s.skipMark .value (!s.inFlow))

def block (s : Scanner) (literal : Bool) : Option Scanner := do
  let s ← s.dropKey
  let (text, c) ← readBlock literal s.indent s.cursor.skip
  let t := Token.scalar text (if literal then .literal else .folded)
  return { s.emit t with cursor := c, keyAllowed := true }

def quoted (s : Scanner) (single : Bool) : Option Scanner :=
  s.maybeKey fun c => do
    let (text, c) ← readQuoted single c.skip
    return (.scalar text (if single then .singleQuoted else .doubleQuoted), c)

def canStartPlain (s : Scanner) : Bool :=
  let x := s.cursor.peek
  let y := s.cursor.peekAt 1
  (!isBlankOrEnd x && !"-?:,[]\x7b\x7d#&*!|>\x27\x22%@\x60".toList.contains x) ||
    (x == '-' && !isBlank y) || (!s.inFlow && (x == '?' || x == ':') && !isBlankOrEnd y)

def plain (s : Scanner) : Option Scanner := do
  let s ← s.noteKey
  let (text, broken, c) ← readPlain s.inFlow s.indent s.cursor
  return { s.emit (.scalar text .plain) with cursor := c, keyAllowed := broken }

def next (s : Scanner) : Option Scanner :=
  let c := s.cursor
  let alone := isBlankOrEnd (c.peekAt 1)
  if c.column == 0 && c.peek == '%' then do
    let s ← s.startMarker
    let (t, c) ← readDirective s.cursor
    return { s.emit t with cursor := c }
  else if c.atMarker '-' then do
    let s ← s.startMarker
    return { s.emit .documentStart with cursor := s.cursor.skipMany 3 }
  else if c.atMarker '.' then do
    let s ← s.startMarker
    return { s.emit .documentEnd with cursor := s.cursor.skipMany 3 }
  else match c.peek with
    | '[' => s.openFlow .flowSequenceStart
    | '\x7b' => s.openFlow .flowMappingStart
    | ']' => s.closeFlow .flowSequenceEnd
    | '\x7d' => s.closeFlow .flowMappingEnd
    | ',' => s.dropKey.map fun s => s.skipMark .flowEntry true
    | '*' => s.maybeKey fun c => (readAnchorName c).map fun (n, c) => (.alias n, c)
    | '&' => s.maybeKey fun c => (readAnchorName c).map fun (n, c) => (.anchor n, c)
    | '!' => s.maybeKey (readTag s.inFlow)
    | '\x27' => s.quoted true
    | '\x22' => s.quoted false
    | x =>
      if x == '-' && alone then s.blockEntry
      else if x == '?' && (s.inFlow || alone) then s.explicitKey
      else if x == ':' && (s.inFlow || alone) then s.value
      else if x == '|' && !s.inFlow then s.block true
      else if x == '>' && !s.inFlow then s.block false
      else if s.canStartPlain then s.plain
      else none

def finish (s : Scanner) : Option (List Token) :=
  ((s.closeBlocks (-1)).dropKey).map (·.tokens.reverse)

def run : (fuel : Nat) → Scanner → Option (List Token)
  | 0, _ => none
  | fuel + 1, s => do
    let s ← (s.skipSpace (s.cursor.bound + 1)).dropStale
    let s := s.closeBlocks s.cursor.column
    if s.cursor.atEnd then s.finish else run fuel (← s.next)

end Scanner

def scan (text : List Char) : Option (List Token) :=
  if text.all isAllowed then Scanner.run (text.length + 1) { cursor := .start text } else none

end PeerShare.Yaml
