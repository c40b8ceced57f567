import PeerShare.Json.Fault

/-!
Members that are texts or whole numbers of a fixed width. Reading a value as one of them fails with
what was found there, and with a number out of range apart from a value of another kind.
-/

namespace PeerShare.Json

inductive Kind
  | text
  | port
  | id
  deriving DecidableEq, Repr

inductive Scalar
  | text (s : String)
  | port (n : UInt16)
  | id (n : UInt64)
  deriving DecidableEq, Repr

def Scalar.json : Scalar → Json
  | .text s => .str s
  | .port n => .num (.nat n.toUInt64)
  | .id n => .num (.nat n)

def Kind.expected : Kind → String
  | .text => "a string"
  | .port => "u16"
  | .id => "u64"

def Kind.read : Kind → Json → Except Fault Scalar
  | .text, .str s => .ok (.text s)
  | .port, .num (.nat n) =>
    if n.toNat < UInt16.size then .ok (.port n.toUInt16)
    else .error (.invalidValue (.num (.nat n)) "u16")
  | .id, .num (.nat n) => .ok (.id n)
  | .port, .num (.neg n) => .error (.invalidValue (.num (.neg n)) "u16")
  | .id, .num (.neg n) => .error (.invalidValue (.num (.neg n)) "u64")
  | k, v => .error (.invalidType (found v) k.expected)

abbrev Fields := List (String × Kind)

def readMembersOf (fields : Fields) (done : List (String × Scalar)) :
    List (String × Json) → Except Fault (List (String × Scalar))
  | [] => .ok done
  | (name, v) :: rest =>
    match fields.find? (·.1 == name) with
    | none => readMembersOf fields done rest
    | some (_, kind) =>
      if done.any (·.1 == name) then .error (.duplicateField name)
      else do
        let x ← kind.read v
        readMembersOf fields (done ++ [(name, x)]) rest

def arrange (done : List (String × Scalar)) : Fields → Except Fault (List Scalar)
  | [] => .ok []
  | (name, _) :: fields =>
    match done.find? (·.1 == name) with
    | none => .error (.missingField name)
    | some (_, x) => (arrange done fields).map (x :: ·)

def readFieldsByName (fields : Fields) (members : List (String × Json)) :
    Except Fault (List Scalar) := do
  arrange (← readMembersOf fields [] members) fields

/-- The first items, one for each field; `position` counts those that are done. -/
def readFieldsInOrder (record : String) (position : Nat) :
    Fields → List Json → Except Fault (List Scalar)
  | [], _ => .ok []
  | _ :: _, [] => .error (.invalidLength position record)
  | (_, kind) :: fields, v :: vs => do
    let x ← kind.read v
    return x :: (← readFieldsInOrder record (position + 1) fields vs)

def countOf (n : Nat) (noun : String) : String :=
  if n = 1 then s!"1 {noun}" else s!"{n} {noun}s"

end PeerShare.Json
