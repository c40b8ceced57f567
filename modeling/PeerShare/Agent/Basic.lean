import PeerShare.Agent.Run
import PeerShare.Registry.Basic
import PeerShare.Wire.Request

/-!
The agent of a peer: who it is, where its files can be fetched, and which of them it believes to be
listed. It disconnects once and is then done.
-/

namespace PeerShare

structure Agent where
  peer : PeerId
  address : String
  port : UInt16
  known : Names := []
  disconnected : Bool := false
  deriving DecidableEq, Repr

namespace Agent

def offer (a : Agent) (name : String) : Offer := ⟨name, a.address, a.port⟩

def request (a : Agent) : Call → Request
  | .list name => .list a.peer (a.offer name)
  | .delist name => .delist name a.peer
  | .heartbeat => .heartbeat a.peer
  | .disconnect => .disconnect a.peer

def tick (a : Agent) : Tick := { known := a.known }

def after (a : Agent) (t : Tick) : Agent := { a with known := t.known }

def shutdown (a : Agent) : Option Call × Agent :=
  if a.disconnected then (none, a)
  else (some .disconnect, { a with known := [], disconnected := true })

def reconcile (a : Agent) (w : Tick.World σ) (s : σ) : Tick.Report × Agent × σ :=
  let (t, s) := Tick.run w a.tick s
  (t.report, a.after t, s)

end Agent

def Reply.ofResult : Except ε Bool → Reply
  | .ok true => .yes
  | .ok false => .no
  | .error _ => .failed

def Registry.perform (r : Registry) (now : Instant) (a : Agent) :
    Call → Except CatalogError Bool × Registry
  | .list name =>
    match r.list now a.peer (a.offer name) with
    | .ok (x, r) => (x.map fun _ => true, r)
    | .error h => (.error (.unavailable h.message), r)
  | .delist name => r.delist name a.peer
  | .heartbeat => r.heartbeat now a.peer
  | .disconnect =>
    let (x, r) := r.disconnect a.peer
    (x.map fun _ => true, r)

end PeerShare
