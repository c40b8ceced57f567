import PeerShare.Json.Fault
import PeerShare.Json.Numeral

/-!
Reading JSON text. A reader takes the characters left and gives a result with the characters after
it. `readMembers` and `readItems` walk an object or an array with a reader for its parts, so that
the first fault in the order of the text is the one reported.

A strict reader refuses lone surrogates, numbers out of range and deep nesting; a lenient one, for
values that are passed over, looks at the grammar alone.
-/

namespace PeerShare.Json

abbrev Step (α : Type) := Except Fault (α × List Char)

def skipBlanks (s : List Char) : List Char :=
  s.dropWhile fun c => c == ' ' || c == '\n' || c == '\t' || c == '\r'

def readWord (word : List Char) (a : α) (s : List Char) : Step α :=
  if word.isPrefixOf s then .ok (a, s.drop word.length) else .error .malformed

inductive StringState
  | plain
  | escape
  /-- `left` digits are missing; `high` is a first surrogate that waits for its second. -/
  | hex (left point : Nat) (high : Option Nat)
  | pair (high : Nat)
  | pairMark (high : Nat)

def shortEscape (c : Char) : Option Char :=
  match c with
  | '\x22' => some '\x22'
  | '\\' => some '\\'
  | '/' => some '/'
  | 'b' => some '\x08'
  | 'f' => some '\x0c'
  | 'n' => some '\n'
  | 'r' => some '\r'
  | 't' => some '\t'
  | _ => none

def finishHex (strict : Bool) (point : Nat) (high : Option Nat) : Option (Char ⊕ Nat) :=
  match high with
  | some h =>
    if 0xDC00 ≤ point ∧ point < 0xE000 then
      some (.inl (Char.ofNat (0x10000 + (h - 0xD800) * 0x400 + (point - 0xDC00))))
    else none
  | none =>
    if ¬ strict then some (.inl (Char.ofNat point))
    else if 0xDC00 ≤ point ∧ point < 0xE000 then none
    else if 0xD800 ≤ point ∧ point < 0xDC00 then some (.inr point)
    else some (.inl (Char.ofNat point))

def readStringFrom (strict : Bool) : StringState → List Char → Step (List Char)
  | _, [] => .error .malformed
  | .plain, c :: r =>
    if c = '\x22' then .ok ([], r)
    else if c = '\\' then readStringFrom strict .escape r
    else if c.toNat < 0x20 then .error .malformed
    else (readStringFrom strict .plain r).map fun (s, r) => (c :: s, r)
  | .escape, c :: r =>
    if c = 'u' then readStringFrom strict (.hex 4 0 none) r
    else match shortEscape c with
      | some e => (readStringFrom strict .plain r).map fun (s, r) => (e :: s, r)
      | none => .error .malformed
  | .hex left point high, c :: r =>
    match Text.hexValue c with
    | none => .error .malformed
    | some v =>
      if 1 < left then readStringFrom strict (.hex (left - 1) (point * 16 + v) high) r
      else match finishHex strict (point * 16 + v) high with
        | none => .error .malformed
        | some (.inl e) => (readStringFrom strict .plain r).map fun (s, r) => (e :: s, r)
        | some (.inr h) => readStringFrom strict (.pair h) r
  | .pair h, c :: r =>
    if c = '\\' then readStringFrom strict (.pairMark h) r else .error .malformed
  | .pairMark h, c :: r =>
    if c = 'u' then readStringFrom strict (.hex 4 0 (some h)) r else .error .malformed

def readString (s : List Char) : Step String :=
  (readStringFrom true .plain s).map fun (cs, r) => (String.ofList cs, r)

def readNumber (strict : Bool) (s : List Char) : Step Number :=
  match Numeral.read s with
  | none => .error .malformed
  | some (x, r) =>
    match x.value with
    | some n => .ok (n, r)
    | none => if strict then .error .malformed else .ok (.nat 0, r)

def afterComma (first : Bool) (s : List Char) : Except Fault (List Char) :=
  if first then .ok s
  else match s with
    | ',' :: r => .ok (skipBlanks r)
    | _ => .error .malformed

/-- The items of an array whose bracket has been seen. `fuel` bounds their number. -/
def readItems (item : σ → List Char → Step σ) :
    (fuel : Nat) → Bool → σ → List Char → Except Fault (σ × List Char)
  | 0, _, _, _ => .error .malformed
  | fuel + 1, first, state, s =>
    match skipBlanks s with
    | ']' :: r => .ok (state, r)
    | s => do
      let s ← afterComma first s
      if s.head? = some ']' then throw .malformed
      let (state, s) ← item state s
      readItems item fuel false state s

def readColon (s : List Char) : Except Fault (List Char) :=
  match skipBlanks s with
  | ':' :: r => .ok r
  | _ => .error .malformed

def readMembers (strict : Bool) (member : σ → String → List Char → Step σ) :
    (fuel : Nat) → Bool → σ → List Char → Except Fault (σ × List Char)
  | 0, _, _, _ => .error .malformed
  | fuel + 1, first, state, s =>
    match skipBlanks s with
    | '\x7d' :: r => .ok (state, r)
    | s => do
      match ← afterComma first s with
      | '\x22' :: r =>
        let (name, s) ← readStringFrom strict .plain r
        let (state, s) ← member state (String.ofList name) s
        readMembers strict member fuel false state s
      | _ => .error .malformed

def depthLimit : Nat := 127

/-- A value; `depth` is how many arrays and objects it may still open. Members keep the order of
the text. -/
def readValue (strict : Bool) (depth : Nat) (s : List Char) : Step Json :=
  match skipBlanks s with
  | 'n' :: r => readWord "ull".toList .null r
  | 't' :: r => readWord "rue".toList (.bool true) r
  | 'f' :: r => readWord "alse".toList (.bool false) r
  | '\x22' :: r =>
    (readStringFrom strict .plain r).map fun (cs, r) => (.str (String.ofList cs), r)
  | '[' :: r =>
    match depth with
    | 0 => .error .malformed
    | depth + 1 =>
      (readItems (fun vs s => (readValue strict depth s).map fun (v, r) => (v :: vs, r))
        (r.length + 1) true [] r).map fun (vs, r) => (.arr vs.reverse, r)
  | '\x7b' :: r =>
    match depth with
    | 0 => .error .malformed
    | depth + 1 =>
      let member (ms : List (String × Json)) (n : String) (s : List Char) :=
        (readColon s).bind fun s => (readValue strict depth s).map fun (v, r) => ((n, v) :: ms, r)
      (readMembers strict member (r.length + 1) true [] r).map fun (ms, r) => (.obj ms.reverse, r)
  | s => (readNumber strict s).map fun (n, r) => (.num n, r)

def skipValue (s : List Char) : Step Unit :=
  (readValue false s.length s).map fun (_, r) => ((), r)

mutual

def sorted : Json → Json
  | .arr vs => .arr (sortedItems vs)
  | .obj ms => .obj (sortedMembers ms [])
  | v => v

def sortedItems : List Json → List Json
  | [] => []
  | v :: vs => v.sorted :: sortedItems vs

def sortedMembers : List (String × Json) → List (String × Json) → List (String × Json)
  | [], done => done
  | (n, v) :: ms, done => sortedMembers ms (insert n v.sorted done)

end

def mismatch (expected : String) (s : List Char) : Fault :=
  match skipBlanks s with
  | '[' :: _ => .invalidType .sequence expected
  | '\x7b' :: _ => .invalidType .map expected
  | s =>
    match readValue true 0 s with
    | .ok (v, _) => .invalidType (found v) expected
    | .error f => f

def atEnd (result : Step α) : Except Fault α :=
  match result with
  | .ok (a, r) => if skipBlanks r = [] then .ok a else .error .malformed
  | .error f => .error f

def read (text : List Char) : Except Fault Json :=
  (atEnd (readValue true depthLimit text)).map sorted

end PeerShare.Json
