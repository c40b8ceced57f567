import PeerShare.Decimal
import PeerShare.Text.Basic

/-!
JSON values and their text. Members stand in the order in which they are to be written; `insert`
keeps them in the order of their names, a later value replacing an earlier one.
-/

namespace PeerShare

/-- Whole numbers of 64 bits are exact, all others are binary fractions. -/
inductive Json.Number
  | nat (n : UInt64)
  | neg (n : Nat)
  | float (x : Decimal.Binary)
  deriving DecidableEq, Repr

inductive Json
  | null
  | bool (b : Bool)
  | num (n : Json.Number)
  | str (s : String)
  | arr (items : List Json)
  | obj (members : List (String × Json))
  deriving Repr, Inhabited

namespace Json

def nat (n : UInt64) : Json := .num (.nat n)

def count (n : Nat) : Json := .num (.nat (UInt64.ofNat n))

def Number.text : Number → List Char
  | .nat n => Nat.toDigits 10 n.toNat
  | .neg n => '-' :: Nat.toDigits 10 n
  | .float x => x.render.toList

def escapeChar (c : Char) : List Char :=
  match c.toNat with
  | 0x22 => ['\\', '\x22']
  | 0x5C => ['\\', '\\']
  | 0x08 => ['\\', 'b']
  | 0x09 => ['\\', 't']
  | 0x0A => ['\\', 'n']
  | 0x0C => ['\\', 'f']
  | 0x0D => ['\\', 'r']
  | n => if n < 0x20 then '\\' :: 'u' :: Text.hexDigits 4 n else [c]

def stringText (s : String) : List Char := '\x22' :: s.toList.flatMap escapeChar ++ ['\x22']

def insert (name : String) (v : Json) : List (String × Json) → List (String × Json)
  | [] => [(name, v)]
  | (n, w) :: r =>
    if n = name then (name, v) :: r
    else if name < n then (name, v) :: (n, w) :: r
    else (n, w) :: insert name v r

def member? (name : String) : Json → Option Json
  | .obj members => (members.find? (·.1 == name)).map (·.2)
  | _ => none

mutual

def chars : Json → List Char
  | .null => "null".toList
  | .bool true => "true".toList
  | .bool false => "false".toList
  | .num n => n.text
  | .str s => stringText s
  | .arr [] => ['[', ']']
  | .arr (v :: vs) => '[' :: v.chars ++ charsItems vs ++ [']']
  | .obj [] => ['\x7b', '\x7d']
  | .obj ((n, v) :: ms) => '\x7b' :: stringText n ++ ':' :: v.chars ++ charsMembers ms ++ ['\x7d']

def charsItems : List Json → List Char
  | [] => []
  | v :: vs => ',' :: v.chars ++ charsItems vs

def charsMembers : List (String × Json) → List Char
  | [] => []
  | (n, v) :: ms => ',' :: stringText n ++ ':' :: v.chars ++ charsMembers ms

end

def render (v : Json) : String := String.ofList v.chars

def newline (depth : Nat) : List Char := '\n' :: List.replicate (2 * depth) ' '

mutual

def charsIndented (depth : Nat) : Json → List Char
  | .null => "null".toList
  | .bool true => "true".toList
  | .bool false => "false".toList
  | .num n => n.text
  | .str s => stringText s
  | .arr [] => ['[', ']']
  | .arr (v :: vs) =>
    '[' :: newline (depth + 1) ++ v.charsIndented (depth + 1) ++ indentedItems (depth + 1) vs ++
      newline depth ++ [']']
  | .obj [] => ['\x7b', '\x7d']
  | .obj ((n, v) :: ms) =>
    '\x7b' :: newline (depth + 1) ++ stringText n ++ ':' :: ' ' :: v.charsIndented (depth + 1) ++
      indentedMembers (depth + 1) ms ++ newline depth ++ ['\x7d']

def indentedItems (depth : Nat) : List Json → List Char
  | [] => []
  | v :: vs => ',' :: newline depth ++ v.charsIndented depth ++ indentedItems depth vs

def indentedMembers (depth : Nat) : List (String × Json) → List Char
  | [] => []
  | (n, v) :: ms =>
    ',' :: newline depth ++ stringText n ++ ':' :: ' ' :: v.charsIndented depth ++
      indentedMembers depth ms

end

def renderIndented (v : Json) : String := String.ofList (v.charsIndented 0)

end Json

end PeerShare
