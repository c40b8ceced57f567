import PeerShare.Json.Value

/-!
Making JSON values and looking into them. What is missing or of another kind counts as empty, zero
or false.
-/

namespace PeerShare.Json

def option (encode : α → Json) : Option α → Json
  | some a => encode a
  | none => .null

def extend (v : Json) (more : List (String × Json)) : Json :=
  match v with
  | .obj members => .obj (members ++ more)
  | v => v

def field (v : Json) (name : String) : Json := (v.member? name).getD .null

def has (v : Json) (name : String) : Bool := (v.member? name).isSome

def asText : Json → String
  | .str s => s
  | _ => ""

def asNat : Json → Nat
  | .num (.nat n) => n.toNat
  | _ => 0

def asList : Json → List Json
  | .arr vs => vs
  | _ => []

def text (v : Json) (name : String) : String := (v.field name).asText

def textOr (v : Json) (name standard : String) : String :=
  if v.has name then v.text name else standard

def number (v : Json) (name : String) : Nat := (v.field name).asNat

def numberOr (v : Json) (name : String) (standard : Nat) : Nat :=
  if v.has name then v.number name else standard

def items (v : Json) (name : String) : List Json := (v.field name).asList

def texts (v : Json) (name : String) : List String := (v.items name).map asText

def flag (v : Json) (name : String) : Bool :=
  match v.field name with
  | .bool b => b
  | _ => false

end PeerShare.Json
