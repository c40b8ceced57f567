import PeerShare.Collection
import PeerShare.Yaml.Token

/-!
The tree that the tokens of a YAML text describe. An anchor has a number, the count of the names
that anchors before it had, and an alias has the number of the last anchor of its name. The number
stands for the last node of the document that bears it, so that a name that is defined again may
share its number with a later name. A text holds at most one document.
-/

namespace PeerShare.Yaml

abbrev Tag := Bytes

inductive Node
  | scalar (tag : Option Tag) (style : Style) (text : List Char)
  | sequence (tag : Option Tag) (items : List Node)
  | mapping (tag : Option Tag) (pairs : List (Node × Node))
  | anchored (number : Nat) (n : Node)
  | alias (number : Nat)
  deriving Inhabited

def Node.empty : Node := .scalar none .plain []

abbrev Anchors := List (List Char × Nat)

abbrev Handles := List (List Char × Bytes)

def coreStart : Bytes := Text.bytes "tag:yaml.org,2002:"

def standardHandles : Handles := [(['!'], Text.bytes "!"), (['!', '!'], coreStart)]

structure Properties where
  anchor : Option (List Char) := none
  tag : Option (List Char × Bytes) := none

def Properties.isEmpty (p : Properties) : Bool := p.anchor.isNone && p.tag.isNone

def readProperties : List Token → Properties × List Token
  | .anchor a :: .tag h s :: ts => (⟨some a, some (h, s)⟩, ts)
  | .tag h s :: .anchor a :: ts => (⟨some a, some (h, s)⟩, ts)
  | .anchor a :: ts => (⟨some a, none⟩, ts)
  | .tag h s :: ts => (⟨none, some (h, s)⟩, ts)
  | ts => ({}, ts)

def resolveTag (handles : Handles) : Option (List Char × Bytes) → Option (Option Tag)
  | none => some none
  | some ([], suffix) => some (some suffix)
  | some (handle, suffix) =>
    match Keyed.get? handle handles with
    | some start => some (some (start ++ suffix))
    | none => none

def Anchors.define (anchors : Anchors) (name : List Char) : Nat × Anchors :=
  (anchors.length, Keyed.put name anchors.length anchors)

def endsBlockItem : List Token → Bool
  | .blockEntry :: _ | .blockEnd :: _ => true
  | _ => false

def endsPart : List Token → Bool
  | .blockEntry :: _ | .key :: _ | .value :: _ | .blockEnd :: _ => true
  | _ => false

def endsBlockPart : List Token → Bool
  | .key :: _ | .value :: _ | .blockEnd :: _ => true
  | _ => false

def endsFlow (closing : Token) : List Token → Bool
  | t :: _ => t == .flowEntry || t == closing
  | [] => false

def endsFlowKey (closing : Token) (ts : List Token) : Bool :=
  ts.head? == some .value || endsFlow closing ts

/-- An empty node, taking no tokens. A reader of tokens gives the anchors known after it and the
tokens left with its result. -/
def emptyNode (anchors : Anchors) (ts : List Token) : Option (Node × Anchors × List Token) :=
  some (.empty, anchors, ts)

/-- Where a node stands: in a block, directly below a key of a block, or in flow brackets. -/
inductive Place
  | block
  | blockValue
  | flow
  deriving DecidableEq

mutual

/-- A node. `fuel` bounds the depth of the readers. -/
def readNode (handles : Handles) (place : Place) :
    (fuel : Nat) → Anchors → List Token → Option (Node × Anchors × List Token)
  | 0, _, _ => none
  | _ + 1, anchors, .alias name :: ts =>
    (Keyed.get? name anchors).map fun number => (.alias number, anchors, ts)
  | fuel + 1, anchors, ts => do
    let (properties, ts) := readProperties ts
    let tag ← resolveTag handles properties.tag
    match properties.anchor with
    | none => readContent handles place properties.isEmpty tag fuel anchors ts
    | some name =>
      let (number, anchors) := anchors.define name
      let (n, r) ← readContent handles place false tag fuel anchors ts
      return (.anchored number n, r)

def readContent (handles : Handles) (place : Place) (bare : Bool) (tag : Option Tag) :
    (fuel : Nat) → Anchors → List Token → Option (Node × Anchors × List Token)
  | 0, _, _ => none
  | fuel + 1, anchors, ts =>
    match place, ts with
    | .blockValue, .blockEntry :: _ =>
      (readOpenItems handles fuel anchors ts).map fun (ns, r) => (.sequence tag ns, r)
    | _, .scalar text style :: ts => some (.scalar tag style text, anchors, ts)
    | _, .flowSequenceStart :: ts =>
      (readFlowItems handles true fuel anchors ts).map fun (ns, r) => (.sequence tag ns, r)
    | _, .flowMappingStart :: ts =>
      (readFlowPairs handles true fuel anchors ts).map fun (ps, r) => (.mapping tag ps, r)
    | .flow, _ => if bare then none else some (.scalar tag .plain [], anchors, ts)
    | _, .blockSequenceStart :: ts =>
      (readItems handles fuel anchors ts).map fun (ns, r) => (.sequence tag ns, r)
    | _, .blockMappingStart :: ts =>
      (readPairs handles fuel anchors ts).map fun (ps, r) => (.mapping tag ps, r)
    | _, _ => if bare then none else some (.scalar tag .plain [], anchors, ts)

def readItems (handles : Handles) :
    (fuel : Nat) → Anchors → List Token → Option (List Node × Anchors × List Token)
  | 0, _, _ => none
  | fuel + 1, anchors, .blockEntry :: ts => do
    let (n, anchors, ts) ←
      if endsBlockItem ts then emptyNode anchors ts
      else readNode handles .block fuel anchors ts
    let (ns, r) ← readItems handles fuel anchors ts
    return (n :: ns, r)
  | _ + 1, anchors, .blockEnd :: ts => some ([], anchors, ts)
  | _ + 1, _, _ => none

def readOpenItems (handles : Handles) :
    (fuel : Nat) → Anchors → List Token → Option (List Node × Anchors × List Token)
  | 0, _, _ => none
  | fuel + 1, anchors, .blockEntry :: ts => do
    let (n, anchors, ts) ←
      if endsPart ts then emptyNode anchors ts else readNode handles .block fuel anchors ts
    let (ns, r) ← readOpenItems handles fuel anchors ts
    return (n :: ns, r)
  | _ + 1, anchors, ts => some ([], anchors, ts)

def readPairs (handles : Handles) :
    (fuel : Nat) → Anchors → List Token → Option (List (Node × Node) × Anchors × List Token)
  | 0, _, _ => none
  | fuel + 1, anchors, .key :: ts => do
    let (k, anchors, ts) ←
      if endsBlockPart ts then emptyNode anchors ts
      else readNode handles .blockValue fuel anchors ts
    let (v, anchors, ts) ←
      match ts with
      | .value :: ts =>
        if endsBlockPart ts then emptyNode anchors ts
        else readNode handles .blockValue fuel anchors ts
      | ts => emptyNode anchors ts
    let (ps, r) ← readPairs handles fuel anchors ts
    return ((k, v) :: ps, r)
  | _ + 1, anchors, .blockEnd :: ts => some ([], anchors, ts)
  | _ + 1, _, _ => none

/-- The items in square brackets; an item with a key is a mapping of one pair. -/
def readFlowItems (handles : Handles) (first : Bool) :
    (fuel : Nat) → Anchors → List Token → Option (List Node × Anchors × List Token)
  | 0, _, _ => none
  | _ + 1, anchors, .flowSequenceEnd :: ts => some ([], anchors, ts)
  | fuel + 1, anchors, ts => do
    let ts ←
      if first then some ts
      else match ts with
        | .flowEntry :: ts => some ts
        | _ => none
    match ts with
    | .flowSequenceEnd :: ts => return ([], anchors, ts)
    | .key :: ts =>
      let (k, anchors, ts) ←
        if endsFlowKey .flowSequenceEnd ts then emptyNode anchors (ts.drop 1)
        else readNode handles .flow fuel anchors ts
      let (v, anchors, ts) ←
        match ts with
        | .value :: ts =>
          if endsFlow .flowSequenceEnd ts then emptyNode anchors ts
          else readNode handles .flow fuel anchors ts
        | ts => emptyNode anchors ts
      let (ns, r) ← readFlowItems handles false fuel anchors ts
      return (.mapping none [(k, v)] :: ns, r)
    | ts =>
      let (n, anchors, ts) ← readNode handles .flow fuel anchors ts
      let (ns, r) ← readFlowItems handles false fuel anchors ts
      return (n :: ns, r)

def readFlowPairs (handles : Handles) (first : Bool) :
    (fuel : Nat) → Anchors → List Token → Option (List (Node × Node) × Anchors × List Token)
  | 0, _, _ => none
  | _ + 1, anchors, .flowMappingEnd :: ts => some ([], anchors, ts)
  | fuel + 1, anchors, ts => do
    let ts ←
      if first then some ts
      else match ts with
        | .flowEntry :: ts => some ts
        | _ => none
    match ts with
    | .flowMappingEnd :: ts => return ([], anchors, ts)
    | .key :: ts =>
      let (k, anchors, ts) ←
        if endsFlowKey .flowMappingEnd ts then emptyNode anchors ts
        else readNode handles .flow fuel anchors ts
      let (v, anchors, ts) ←
        match ts with
        | .value :: ts =>
          if endsFlow .flowMappingEnd ts then emptyNode anchors ts
          else readNode handles .flow fuel anchors ts
        | ts => emptyNode anchors ts
      let (ps, r) ← readFlowPairs handles false fuel anchors ts
      return ((k, v) :: ps, r)
    | ts =>
      let (k, anchors, ts) ← readNode handles .flow fuel anchors ts
      let (ps, r) ← readFlowPairs handles false fuel anchors ts
      return ((k, .empty) :: ps, r)

end

mutual

def Node.anchors : Node → List (Nat × Node)
  | .scalar .. | .alias _ => []
  | .sequence _ ns => anchorsOfItems ns
  | .mapping _ ps => anchorsOfPairs ps
  | .anchored number n => (number, n) :: n.anchors

def anchorsOfItems : List Node → List (Nat × Node)
  | [] => []
  | n :: ns => n.anchors ++ anchorsOfItems ns

def anchorsOfPairs : List (Node × Node) → List (Nat × Node)
  | [] => []
  | (k, v) :: ps => k.anchors ++ v.anchors ++ anchorsOfPairs ps

end

mutual

def Node.size : Node → Nat
  | .scalar .. | .alias _ => 1
  | .sequence _ ns => sizeOfItems ns + 2
  | .mapping _ ps => sizeOfPairs ps + 2
  | .anchored _ n => n.size

def sizeOfItems : List Node → Nat
  | [] => 0
  | n :: ns => n.size + sizeOfItems ns

def sizeOfPairs : List (Node × Node) → Nat
  | [] => 0
  | (k, v) :: ps => k.size + v.size + sizeOfPairs ps

end

structure Document where
  root : Node
  anchored : List (Nat × Node)

def Document.ofRoot (n : Node) : Document := ⟨n, n.anchors.reverse⟩

def Document.follow (d : Document) : Node → Node
  | .alias number => (Keyed.get? number d.anchored).getD .empty
  | .anchored _ n => n
  | n => n

def readDirectives : List Token → (version : Bool) → Handles → Option (Handles × List Token)
  | .version major minor :: ts, version, handles =>
    if version || major != 1 || (minor != 1 && minor != 2) then none
    else readDirectives ts true handles
  | .tagPrefixOf handle start :: ts, version, handles =>
    if handles.any (·.1 == handle) then none
    else readDirectives ts version ((handle, start) :: handles)
  | ts, _, handles => some (handles, ts)

def withStandard (handles : Handles) : Handles := handles ++ standardHandles

def startsExplicitly : List Token → Bool
  | .version .. :: _ | .tagPrefixOf .. :: _ | .documentStart :: _ => true
  | _ => false

def onlyEnds (ts : List Token) : Bool := ts.all (· == .documentEnd)

def readRoot (handles : Handles) (ts : List Token) : Option Document := do
  let (n, _, ts) ← readNode (withStandard handles) .block (3 * ts.length + 3) [] ts
  if onlyEnds ts then return .ofRoot n else none

/-- A text without any content or mark of a document is an empty node. -/
def Document.ofTokens (ts : List Token) : Option Document :=
  if ts = [] then some (.ofRoot .empty)
  else if startsExplicitly ts then
    match readDirectives ts false [] with
    | some (handles, .documentStart :: ts) =>
      if onlyEnds ts then some (.ofRoot .empty) else readRoot handles ts
    | _ => none
  else readRoot [] ts

def Document.read (text : List Char) : Option Document := do
  Document.ofTokens (← scan text)

end PeerShare.Yaml
