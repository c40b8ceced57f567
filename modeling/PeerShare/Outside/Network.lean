import Std.Async
import Std.Time
import PeerShare.CommandLine.Run

/-!
Connections over TCP, and the clock.
-/

namespace PeerShare.Outside

open Std Std.Async

def now : IO Instant := do
  let t ← Std.Time.Timestamp.now
  return (Instant.ofNanos? t.toNanosecondsSinceUnixEpoch.val).getD default

def bytesOf (b : ByteArray) : Bytes := b.toList

def arrayOf (b : Bytes) : ByteArray := ⟨b.toArray⟩

def portOf (address : String) : UInt16 :=
  let digits := (address.toList.reverse.takeWhile (· != ':')).reverse
  UInt16.ofNat ((Text.unsigned? digits).getD 0)

def literal? (host : String) : Option Net.IPAddr :=
  let bare := String.ofList (host.toList.filter fun c => c != '[' && c != ']')
  match Net.IPv4Addr.ofString host with
  | some a => some (.v4 a)
  | none => (Net.IPv6Addr.ofString bare).map .v6

def socketAddress (ip : Net.IPAddr) (port : UInt16) : Net.SocketAddress :=
  match ip with
  | .v4 a => .v4 ⟨a, port⟩
  | .v6 a => .v6 ⟨a, port⟩

def resolve (address : String) : Async Net.SocketAddress := do
  let host := CommandLine.hostOf address
  match literal? host with
  | some ip => return socketAddress ip (portOf address)
  | none =>
    match (← DNS.getAddrInfo host "" none)[0]? with
    | some ip => return socketAddress ip (portOf address)
    | none => throw (IO.userError "no address for this host")

partial def collect (c : TCP.Socket.Client) (enough : Bytes → Bool) (bytes : Bytes) :
    Async Bytes := do
  if enough bytes then return bytes
  match ← c.recv? 65536 with
  | some more => collect c enough (bytes ++ bytesOf more)
  | none => return bytes

def talk (address : String) (sent : Bytes) (enough : Bytes → Bool) : Async Delivery := do
  try
    let c ← TCP.Socket.Client.mk
    c.connect (← resolve address)
    if sent ≠ [] then c.send (arrayOf sent)
    return .received (← collect c enough [])
  catch e => return .refused (.other (toString e))

def within (d : Span) (exchange : Async Delivery) : IO Delivery :=
  (Async.race exchange (do
    sleep (Std.Time.Millisecond.Offset.ofNat d.wholeMillis)
    return .silence)).block

def ask (c : Remote) (q : Request) : IO Delivery :=
  match Server.addressProblem? c.address with
  | some cause => pure (.refused cause)
  | none => within c.timeout (talk c.address (Remote.requestLine q) (·.contains lineFeed))

def holdsContent (bytes : Bytes) : Bool :=
  match Frame.readHeader bytes with
  | some (declared, content) => declared ≤ content.length
  | none => false

def transfer (o : Offer) (timeout : Span) : IO Delivery :=
  match Frame.writeName o.fileName with
  | .ok request => within timeout (talk o.endpoint request holdsContent)
  -- Whether there is a connection comes before what cannot be sent over it.
  | .error _ => within timeout (talk o.endpoint [] fun _ => true)

def network : CommandLine.Network IO := ⟨ask, transfer⟩

def listenAt (address : String) : IO TCP.Socket.Server := do
  let s ← TCP.Socket.Server.mk
  s.bind (← (resolve address).block)
  s.listen 128
  return s

def localPort (s : TCP.Socket.Server) : IO UInt16 := do
  match ← s.getSockName with
  | .v4 a => return a.port
  | .v6 a => return a.port

end PeerShare.Outside
