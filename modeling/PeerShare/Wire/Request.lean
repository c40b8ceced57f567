import PeerShare.Json.Reader
import PeerShare.Json.Scalar
import PeerShare.Listing

/-!
Requests to the registry, one JSON object each: the member `cmd` names the command, the others are
its arguments. A request is also read from an array of the command and its arguments.
-/

namespace PeerShare

inductive Request
  | list (peer : PeerId) (offer : Offer)
  | delist (fileName : String) (peer : PeerId)
  | search (query : String)
  | resolveOwner (id : EntryId)
  | heartbeat (peer : PeerId)
  | disconnect (peer : PeerId)
  | livenessWindow
  | status
  deriving DecidableEq, Repr

inductive Command
  | list
  | delist
  | search
  | resolveOwner
  | heartbeat
  | disconnect
  | livenessWindow
  | status
  deriving DecidableEq, Repr

namespace Command

def all : List Command :=
  [.list, .delist, .search, .resolveOwner, .heartbeat, .disconnect, .livenessWindow, .status]

def name : Command → String
  | .list => "list"
  | .delist => "delist"
  | .search => "search"
  | .resolveOwner => "resolve_owner"
  | .heartbeat => "heartbeat"
  | .disconnect => "disconnect"
  | .livenessWindow => "liveness_window"
  | .status => "status"

def title : Command → String
  | .list => "List"
  | .delist => "Delist"
  | .search => "Search"
  | .resolveOwner => "ResolveOwner"
  | .heartbeat => "Heartbeat"
  | .disconnect => "Disconnect"
  | .livenessWindow => "LivenessWindow"
  | .status => "Status"

def fields : Command → Json.Fields
  | .list => [("peer_id", .text), ("file_name", .text), ("address", .text), ("port", .port)]
  | .delist => [("file_name", .text), ("peer_id", .text)]
  | .search => [("query", .text)]
  | .resolveOwner => [("id", .id)]
  | .heartbeat => [("peer_id", .text)]
  | .disconnect => [("peer_id", .text)]
  | .livenessWindow => []
  | .status => []

def ofName? (name : String) : Option Command := all.find? (·.name == name)

def record (c : Command) : String :=
  s!"struct variant CatalogRequest::{c.title} with " ++ Json.countOf c.fields.length "element"

end Command

namespace Request

def command : Request → Command
  | .list .. => .list
  | .delist .. => .delist
  | .search _ => .search
  | .resolveOwner _ => .resolveOwner
  | .heartbeat _ => .heartbeat
  | .disconnect _ => .disconnect
  | .livenessWindow => .livenessWindow
  | .status => .status

def arguments : Request → List Json.Scalar
  | .list p o => [.text p.text, .text o.fileName, .text o.address, .port o.port]
  | .delist f p => [.text f, .text p.text]
  | .search q => [.text q]
  | .resolveOwner i => [.id i.val]
  | .heartbeat p => [.text p.text]
  | .disconnect p => [.text p.text]
  | .livenessWindow => []
  | .status => []

def build? : Command → List Json.Scalar → Option Request
  | .list, [.text p, .text f, .text a, .port n] => some (.list ⟨p⟩ ⟨f, a, n⟩)
  | .delist, [.text f, .text p] => some (.delist f ⟨p⟩)
  | .search, [.text q] => some (.search q)
  | .resolveOwner, [.id i] => some (.resolveOwner ⟨i⟩)
  | .heartbeat, [.text p] => some (.heartbeat ⟨p⟩)
  | .disconnect, [.text p] => some (.disconnect ⟨p⟩)
  | .livenessWindow, [] => some .livenessWindow
  | .status, [] => some .status
  | _, _ => none

theorem build?_arguments (r : Request) : build? r.command r.arguments = some r := by
  cases r <;> rfl

def toJson (r : Request) : Json :=
  .obj (("cmd", .str r.command.name) ::
    (r.command.fields.zip r.arguments).map fun (f, x) => (f.1, x.json))

def encode (r : Request) : List Char := r.toJson.chars

def readCommand (s : List Char) : Json.Step Command :=
  match Json.skipBlanks s with
  | '\x22' :: r =>
    match Json.readString r with
    | .error f => .error f
    | .ok (name, r) =>
      match Command.ofName? name with
      | some c => .ok (c, r)
      | none => .error (.unknownVariant name (Command.all.map Command.name))
  | s => .error (Json.mismatch "variant identifier" s)

structure Draft where
  command : Option Command := none
  members : List (String × Json) := []

def Draft.member (d : Draft) (name : String) (s : List Char) : Json.Step Draft :=
  if name = "cmd" then
    if d.command.isSome then .error (.duplicateField "cmd")
    else (Json.readColon s).bind fun s =>
      (readCommand s).map fun (c, r) => ({ d with command := some c }, r)
  else (Json.readColon s).bind fun s =>
    (Json.readValue true (Json.depthLimit - 1) s).map fun (v, r) =>
      ({ d with members := d.members ++ [(name, v)] }, r)

def readItem (d : Option (Command × List Json)) (s : List Char) :
    Json.Step (Option (Command × List Json)) :=
  match d with
  | none => (readCommand s).map fun (c, r) => (some (c, []), r)
  | some (c, vs) => (Json.readValue true (Json.depthLimit - 1) s).map fun (v, r) =>
    (some (c, vs ++ [v]), r)

def finish (c : Command) (arguments : List Json.Scalar) : Except Json.Fault Request :=
  match build? c arguments with
  | some r => .ok r
  | none => .error .malformed

def ofMembers (c : Command) (members : List (String × Json)) : Except Json.Fault Request := do
  finish c (← Json.readFieldsByName c.fields members)

def ofItems (c : Command) (items : List Json) : Except Json.Fault Request := do
  let xs ← Json.readFieldsInOrder c.record 0 c.fields items
  if c.fields.length < items.length then
    throw (.invalidLength items.length (Json.countOf c.fields.length "element" ++ " in sequence"))
  finish c xs

def readFrom (text : List Char) : Except Json.Fault (Request × List Char) :=
  match Json.skipBlanks text with
  | '\x7b' :: r => do
    let (d, r) ← Json.readMembers true Draft.member (r.length + 1) true {} r
    match d.command with
    | none => throw (.missingField "cmd")
    | some c => return (← ofMembers c d.members, r)
  | '[' :: r => do
    let (d, r) ← Json.readItems readItem (r.length + 1) true none r
    match d with
    | none => throw (.missingField "cmd")
    | some (c, vs) => return (← ofItems c vs, r)
  | s => .error (Json.mismatch "internally tagged enum CatalogRequest" s)

def decode (text : List Char) : Except Json.Fault Request := Json.atEnd (readFrom text)

end Request

end PeerShare
