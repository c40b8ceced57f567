import PeerShare.Json.Reader
import PeerShare.Registry.Error

/-!
Answers of the registry, one JSON object each: `ok`, and the data, or the words and the class of a
failure. An answer is also read from an array of its four members.
-/

namespace PeerShare

inductive ErrorCode
  | unavailable
  | invalidFileName
  | badRequest
  deriving DecidableEq, Repr

namespace ErrorCode

def all : List ErrorCode := [.unavailable, .invalidFileName, .badRequest]

def name : ErrorCode → String
  | .unavailable => "unavailable"
  | .invalidFileName => "invalid_file_name"
  | .badRequest => "bad_request"

def ofName (name : String) : Except Json.Fault ErrorCode :=
  match all.find? (·.name == name) with
  | some c => .ok c
  | none => .error (.unknownVariant name (all.map ErrorCode.name))

end ErrorCode

structure Response where
  ok : Bool
  data : Option Json := none
  error : Option String := none
  code : Option ErrorCode := none

namespace Response

def success (data : Json) : Response := ⟨true, some data, none, none⟩

def failure (code : ErrorCode) (message : String) : Response :=
  ⟨false, none, some message, some code⟩

def member (name : String) (v : Option Json) : List (String × Json) :=
  match v with
  | some v => [(name, v)]
  | none => []

def ofError (e : CatalogError) : Response :=
  match e with
  | .invalidFileName _ => failure .invalidFileName e.message
  | _ => failure .unavailable e.message

def toJson (r : Response) : Json :=
  .obj (("ok", .bool r.ok) :: member "data" r.data ++ member "error" (r.error.map .str) ++
    member "code" (r.code.map fun c => .str c.name))

def encode (r : Response) : List Char := r.toJson.chars

def readOption (reader : List Char → Json.Step α) (s : List Char) : Json.Step (Option α) :=
  match Json.skipBlanks s with
  | 'n' :: r => Json.readWord "ull".toList none r
  | s => (reader s).map fun (a, r) => (some a, r)

def readBool (s : List Char) : Json.Step Bool :=
  match Json.skipBlanks s with
  | 't' :: r => Json.readWord "rue".toList true r
  | 'f' :: r => Json.readWord "alse".toList false r
  | s => .error (Json.mismatch "a boolean" s)

def readText (s : List Char) : Json.Step String :=
  match Json.skipBlanks s with
  | '\x22' :: r => Json.readString r
  | s => .error (Json.mismatch "a string" s)

def readData (s : List Char) : Json.Step Json :=
  (Json.readValue true (Json.depthLimit - 1) s).map fun (v, r) => (v.sorted, r)

def readCodeName (s : List Char) : Except Json.Fault (ErrorCode × List Char) :=
  match Json.skipBlanks s with
  | '\x22' :: r => do
    let (name, r) ← Json.readString r
    return (← ErrorCode.ofName name, r)
  | _ => .error .malformed

def readNull (s : List Char) : Except Json.Fault (List Char) :=
  match Json.skipBlanks s with
  | 'n' :: r => (Json.readWord "ull".toList () r).map (·.2)
  | s => .error (Json.mismatch "unit" s)

/-- A name, or an object whose one member has that name and no value. -/
def readCode (s : List Char) : Except Json.Fault (ErrorCode × List Char) :=
  match Json.skipBlanks s with
  | '\x22' :: _ => readCodeName s
  | '\x7b' :: r => do
    let (c, r) ← readCodeName r
    let r ← readNull (← Json.readColon r)
    match Json.skipBlanks r with
    | '\x7d' :: r => return (c, r)
    | _ => throw .malformed
  | _ => .error .malformed

/-- The members met so far; one that was met with `null` is `some none`. -/
structure Draft where
  ok : Option Bool := none
  data : Option (Option Json) := none
  error : Option (Option String) := none
  code : Option (Option ErrorCode) := none

def Draft.has (d : Draft) (name : String) : Bool :=
  match name with
  | "ok" => d.ok.isSome
  | "data" => d.data.isSome
  | "error" => d.error.isSome
  | "code" => d.code.isSome
  | _ => false

def Draft.value (d : Draft) (name : String) (s : List Char) : Json.Step Draft :=
  match name with
  | "ok" => (readBool s).map fun (v, r) => ({ d with ok := some v }, r)
  | "data" => (readOption readData s).map fun (v, r) => ({ d with data := some v }, r)
  | "error" => (readOption readText s).map fun (v, r) => ({ d with error := some v }, r)
  | "code" => (readOption readCode s).map fun (v, r) => ({ d with code := some v }, r)
  | _ => (Json.skipValue s).map fun (_, r) => (d, r)

def Draft.member (d : Draft) (name : String) (s : List Char) : Json.Step Draft :=
  if d.has name then .error (.duplicateField name) else (Json.readColon s).bind (d.value name)

def Draft.item (d : Draft × Nat) (s : List Char) : Json.Step (Draft × Nat) :=
  match ["ok", "data", "error", "code"][d.2]? with
  | some name => (d.1.value name s).map fun (e, r) => ((e, d.2 + 1), r)
  | none => .error .malformed

def Draft.finish (d : Draft) : Except Json.Fault Response :=
  match d.ok with
  | some ok => .ok ⟨ok, d.data.join, d.error.join, d.code.join⟩
  | none => .error (.missingField "ok")

def Draft.finishItems (d : Draft × Nat) : Except Json.Fault Response :=
  if d.2 < 3 then .error (.invalidLength d.2 "struct CatalogResponse with 4 elements")
  else d.1.finish

def readFrom (text : List Char) : Except Json.Fault (Response × List Char) :=
  match Json.skipBlanks text with
  | '\x7b' :: r => do
    let (d, r) ← Json.readMembers true Draft.member (r.length + 1) true {} r
    return (← d.finish, r)
  | '[' :: r => do
    let (d, r) ← Json.readItems Draft.item (r.length + 1) true ({}, 0) r
    return (← Draft.finishItems d, r)
  | s => .error (Json.mismatch "struct CatalogResponse" s)

def decode (text : List Char) : Except Json.Fault Response := Json.atEnd (readFrom text)

end Response

end PeerShare
