import PeerShare.Config.Server
import PeerShare.Registry.Basic
import PeerShare.Wire.Error
import PeerShare.Wire.Request
import PeerShare.Wire.Response

/-!
A registry server: a registry at an address. `Server.open` opens the configured store and takes the
address; `Server.dispatch` answers one request.
-/

namespace PeerShare

structure Server where
  registry : Registry
  listen : String
  store : StoreKind := .memory
  reaperInterval : Span
  startedAt : Nat := 0

namespace Server

def isPort (s : List Char) : Bool := (Text.unsigned? s).any (· < UInt16.size)

/-- Why nobody can listen at an address: it needs a host, a colon and a port. -/
def addressProblem? (address : String) : Option IoCause :=
  let reversed := address.toList.reverse
  if ¬ reversed.contains ':' then some .invalidSocketAddress
  else if isPort (reversed.takeWhile (· != ':')).reverse then none
  else some .invalidPort

def openStore (c : ServerConfig) (home : FilePath) (d : Disk) :
    Except Halt (Except StoreError Store × Disk) :=
  match c.store with
  | .memory => .ok (.ok { disk := d }, d)
  | .snapshot => Store.openFile Snapshot.Format.yaml (c.storePathAt home) d

def bind (c : ServerConfig) (home : FilePath) (startedAt : Nat) (d : Disk) :
    Except Halt (Except ServerError Server × Disk) := do
  match ← openStore c home d with
  | (.error e, d) => return (.error (.store e), d)
  | (.ok s, d) =>
    match addressProblem? c.listen with
    | some cause => return (.error (.io c.listen cause), d)
    | none => return (.ok ⟨{ store := s, policy := c.policy }, c.listen, c.store, c.reaperInterval,
        startedAt⟩, d)

/-! ### Requests -/

def hitJson (h : Hit) : Json := .obj [("file_name", .str h.fileName), ("id", .nat h.id.val)]

def offerJson (o : Offer) : Json :=
  .obj [("address", .str o.address), ("file_name", .str o.fileName),
    ("port", .nat o.port.toUInt64)]

def listingJson (r : Listing) : Json :=
  .obj [("file_name", .str r.offer.fileName), ("id", .nat r.id.val),
    ("last_seen", .str r.lastSeen.render), ("owner_address", .str r.offer.address),
    ("owner_peer_id", .str r.owner.text), ("owner_port", .nat r.offer.port.toUInt64)]

def ownerJson (o : Option Offer) : Json :=
  match o with
  | some o => offerJson o
  | none => .null

def millis (d : Span) : UInt64 :=
  if d.wholeMillis < UInt64.size then UInt64.ofNat d.wholeMillis else UInt64.ofNat (UInt64.size - 1)

/-- The server about itself; the rows are not counted while the store fails. -/
def statusJson (s : Server) : Json :=
  let entries := match s.registry.entryCount with
    | .ok n => Json.count n
    | .error _ => .null
  .obj [("entries", entries), ("grace_secs", .count s.registry.policy.grace.wholeSeconds),
    ("listen", .str s.listen), ("reaper_interval_secs", .count s.reaperInterval.wholeSeconds),
    ("running", .bool true), ("started_at_unix", .count s.startedAt),
    ("store", .str s.store.name), ("ttl_secs", .count s.registry.policy.ttl.wholeSeconds)]

def respond (name : String) (value : α → Json) : Except CatalogError α → Response
  | .ok a => .success (.obj [(name, value a)])
  | .error e => .ofError e

def take (s : Server) (name : String) (value : α → Json) (a : Answer α) : Response × Server :=
  (respond name value a.1, { s with registry := a.2 })

def brokenOff (h : Halt) : Response :=
  .failure .unavailable ("request handler failed: " ++ h.message)

def dispatch (s : Server) (now : Instant) : Request → Response × Server
  | .list peer o =>
    match s.registry.list now peer o with
    | .ok a => s.take "id" (fun r : Listing => .nat r.id.val) a
    | .error h => (brokenOff h, s)
  | .delist fileName peer => s.take "removed" .bool (s.registry.delist fileName peer)
  | .search query =>
    (respond "hits" (fun hs => .arr (hs.map hitJson)) (s.registry.search now query), s)
  | .resolveOwner i => (respond "owner" ownerJson (s.registry.resolveOwner now i), s)
  | .heartbeat peer => s.take "renewed" .bool (s.registry.heartbeat now peer)
  | .disconnect peer => s.take "removed" .count (s.registry.disconnect peer)
  | .livenessWindow =>
    (.success (.obj [("ttl_ms", .nat (millis s.registry.livenessWindow))]), s)
  | .status => (.success s.statusJson, s)

end Server

end PeerShare
