import PeerShare.Failure
import PeerShare.Server.Session

/-!
The registry seen from afar. Each call sends one request on a connection of its own and reads one
line. What a call answers depends on what becomes of the exchange alone. All
failures of an exchange count as a registry that is not available.
-/

namespace PeerShare

structure Remote where
  address : String
  timeout : Span

namespace Remote

def requestLine (q : Request) : Bytes := Text.encode q.encode ++ [lineFeed]

def firstLine (bytes : Bytes) : Bytes :=
  let line := bytes.takeWhile (· != lineFeed)
  if line.length < bytes.length then line ++ [lineFeed] else line

def readReply (c : Remote) : Delivery → Except ServerError Response
  | .refused cause => .error (.unreachable c.address cause.message)
  | .unanswered | .silence => .error (.timeout c.address c.timeout.wholeMillis)
  | .received bytes =>
    if bytes = [] then .error (.protocol "registry closed connection before responding")
    else match Text.decode (firstLine bytes) with
      | .error f => .error (.io c.address (.other f.message))
      | .ok line => (Response.decode (Text.trimRight line)).mapError .json

/-- A failure as the registry reports it. -/
def failureOf (q : Request) (a : Response) : CatalogError :=
  match a.code, q with
  | some .invalidFileName, .list _ o => .invalidFileName o.fileName
  | _, _ => .unavailable (a.error.getD "unknown registry error")

def ask (c : Remote) (q : Request) (d : Delivery) : Except CatalogError Json :=
  match c.readReply d with
  | .error e => .error (.unavailable e.message)
  | .ok a => if a.ok then .ok (a.data.getD .null) else .error (failureOf q a)

/-- One member of the data; a member that is missing counts as `null`. -/
def askField (c : Remote) (q : Request) (name : String) (read : Json → Except Json.Fault α)
    (d : Delivery) : Except CatalogError α := do
  let data ← c.ask q d
  match read ((data.member? name).getD .null) with
  | .ok a => return a
  | .error f =>
    throw (.unavailable s!"malformed '{name}' in registry response: {f.message}")

/-! ### Values in answers -/

def readBool : Json → Except Json.Fault Bool
  | .bool b => .ok b
  | v => .error (.invalidType (Json.found v) "a boolean")

def readId (v : Json) : Except Json.Fault UInt64 :=
  match Json.Kind.read .id v with
  | .ok (.id n) => .ok n
  | .ok _ => .error .malformed
  | .error f => .error f

def readRecord (name : String) (fields : Json.Fields) : Json → Except Json.Fault (List Json.Scalar)
  | .obj ms => Json.readFieldsByName fields ms
  | .arr vs => do
    let xs ← Json.readFieldsInOrder
      (s!"struct {name} with " ++ Json.countOf fields.length "element") 0 fields vs
    if fields.length < vs.length then
      throw (.invalidLength vs.length "fewer elements in array")
    return xs
  | v => .error (.invalidType (Json.found v) s!"struct {name}")

def readHit (v : Json) : Except Json.Fault Hit := do
  match ← readRecord "SearchHit" [("id", .id), ("file_name", .text)] v with
  | [.id i, .text n] => return ⟨⟨i⟩, n⟩
  | _ => throw .malformed

def readHits : Json → Except Json.Fault (List Hit)
  | .arr vs => vs.mapM readHit
  | v => .error (.invalidType (Json.found v) "a sequence")

def readOffer (v : Json) : Except Json.Fault Offer := do
  match ← readRecord "OwnerLocation" [("file_name", .text), ("address", .text), ("port", .port)] v
    with
  | [.text f, .text a, .port p] => return ⟨f, a, p⟩
  | _ => throw .malformed

def readOwner : Json → Except Json.Fault (Option Offer)
  | .null => .ok none
  | v => (readOffer v).map some

/-! ### Calls -/

def list (c : Remote) (peer : PeerId) (o : Offer) (d : Delivery) : Except CatalogError Unit :=
  (c.ask (.list peer o) d).map fun _ => ()

def delist (c : Remote) (fileName : String) (peer : PeerId) (d : Delivery) :
    Except CatalogError Bool :=
  c.askField (.delist fileName peer) "removed" readBool d

def search (c : Remote) (query : String) (d : Delivery) : Except CatalogError (List Hit) :=
  c.askField (.search query) "hits" readHits d

def resolveOwner (c : Remote) (i : EntryId) (d : Delivery) : Except CatalogError (Option Offer) :=
  c.askField (.resolveOwner i) "owner" readOwner d

def heartbeat (c : Remote) (peer : PeerId) (d : Delivery) : Except CatalogError Bool :=
  c.askField (.heartbeat peer) "renewed" readBool d

def disconnect (c : Remote) (peer : PeerId) (d : Delivery) : Except CatalogError Unit :=
  (c.ask (.disconnect peer) d).map fun _ => ()

def livenessWindow (c : Remote) (d : Delivery) : Except CatalogError Span :=
  (c.askField .livenessWindow "ttl_ms" readId d).map Span.ofMillis

def status (c : Remote) (d : Delivery) : Except CatalogError Json := c.ask .status d

end Remote

def Server.exchange (s : Server) (now : Instant) (q : Request) : Delivery × Server :=
  let (out, s) := Session.serve s now (Remote.requestLine q)
  (.received out, s)

end PeerShare
