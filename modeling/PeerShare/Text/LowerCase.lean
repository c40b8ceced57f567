import PeerShare.Text.CaseTable

/-!
The lower-case form of a text. Each character has one or two lower-case characters; capital sigma
becomes a final sigma where it ends a word: a cased character stands before it and none after it,
characters that case ignores being passed over on both sides.
-/

namespace PeerShare.Text

def isCased (c : Char) : Bool := inRanges casedRanges c.toNat

def isCaseIgnorable (c : Char) : Bool := inRanges caseIgnorableRanges c.toNat

def CaseRun.image? (n : Nat) : CaseRun → Option Nat
  | (first, last, step, shift) =>
    if first ≤ n ∧ n ≤ last ∧ (n - first) % step = 0 then some (n + shift).toNat else none

def lowerChar (c : Char) : List Char :=
  if c.toNat = 0x130 then ['i', '\u0307']
  else match lowerRuns.findSome? (CaseRun.image? c.toNat) with
    | some n => [Char.ofNat n]
    | none => [c]

def startsCased (s : List Char) : Bool :=
  match s.dropWhile isCaseIgnorable with
  | c :: _ => isCased c
  | [] => false

/-- `before` holds the characters read so far, the last one first. -/
def lowerFrom (before : List Char) : List Char → List Char
  | [] => []
  | c :: rest =>
    (if c = 'Σ' then [if startsCased before && !startsCased rest then 'ς' else 'σ']
      else lowerChar c) ++ lowerFrom (c :: before) rest

def lower (s : List Char) : List Char := lowerFrom [] s

def isInfix [BEq α] (needle : List α) : List α → Bool
  | [] => needle.isEmpty
  | c :: rest => needle.isPrefixOf (c :: rest) || isInfix needle rest

end PeerShare.Text
