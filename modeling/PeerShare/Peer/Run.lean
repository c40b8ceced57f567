import PeerShare.Agent.Basic
import PeerShare.Config.Peer
import PeerShare.Identity
import PeerShare.Listing
import PeerShare.Remote.Basic
import PeerShare.Transfer.Exchange
import PeerShare.Transfer.Slots

/-!
The life of a running peer. It first makes sure of its identity, its shared folder and its address,
and makes no call if one of these fails. Then it asks for the liveness window, runs ticks one after
the other, and when it is cancelled drops what is left of the tick under way, disconnects and ends.
-/

namespace PeerShare

structure Peer where
  config : PeerConfig
  agent : Agent
  share : FilePath
  deriving DecidableEq

namespace Peer

def prepare (c : PeerConfig) (home : FilePath) (fresh : PeerId)
    (bound : Except IoCause (Except IoCause UInt16)) (d : Disk) :
    Except Halt (Except PeerError Peer) × Disk :=
  match Identity.loadOrCreate (Home.identity home) fresh d with
  | (.error e, d) => (.ok (.error e), d)
  | (.ok id, d) =>
    let share := c.shareDirAt home
    match d.createFolders share with
    | .error e => (.ok (.error (.io share e)), d)
    | .ok d =>
      match Transfer.listen c bound with
      | .error h => (.error h, d)
      | .ok (.error e) => (.ok (.error (.transfer e)), d)
      | .ok (.ok port) => (.ok (.ok ⟨c, ⟨id, c.advertiseAddress, port, [], false⟩, share⟩), d)

/-- What becomes of taking an address where every port is free, and `freePort` is given for 0. -/
def boundAt (address : String) (freePort : UInt16) : Except IoCause (Except IoCause UInt16) :=
  match Server.addressProblem? address with
  | some cause => .error cause
  | none => .ok (.ok freePort)

/-- How often the peer ticks; the standard policy stands in for a window that is not known. -/
def period (p : Peer) (window : Option Span) : Span :=
  heartbeatPeriod (window.getD Policy.standard.ttl) p.config.heartbeatFloor

inductive Stage
  | asking (cancelled : Bool)
  | resting
  | reconciling (t : Tick)
  | leaving
  | finished
  deriving DecidableEq

structure Run where
  agent : Agent
  stage : Stage := .asking false
  deriving DecidableEq

inductive Event
  | window (d : Option Span)
  | due
  | scanned (found : Option Names)
  | answered (reply : Reply)
  | cancel

def Run.first : Request := .livenessWindow

def leave (a : Agent) : Option Request × Run :=
  let (c, a) := a.shutdown
  (c.map a.request, ⟨a, if c.isSome then .leaving else .finished⟩)

def resume (a : Agent) (t : Tick) : Option Request × Run :=
  if t.phase = .finished then (none, ⟨a.after t, .resting⟩)
  else (t.call?.map a.request, ⟨a.after t, .reconciling t⟩)

/-- What the run does next, with the request that it makes; none if the event does not fit. -/
def Run.step (r : Run) (e : Event) : Option (Option Request × Run) :=
  match r.stage, e with
  | .asking cancelled, .window _ =>
    some (if cancelled then leave r.agent else (none, { r with stage := .resting }))
  | .asking false, .cancel => some (none, { r with stage := .asking true })
  | .resting, .due => some (none, { r with stage := .reconciling r.agent.tick })
  | .resting, .cancel => some (leave r.agent)
  | .reconciling t, .scanned found =>
    if t.phase = .scan then some (resume r.agent (t.scanned found)) else none
  | .reconciling t, .answered reply =>
    if t.call?.isSome then some (resume r.agent (t.answered reply)) else none
  | .reconciling t, .cancel => some (leave (r.agent.after t))
  | .leaving, .answered _ => some (none, { r with stage := .finished })
  | _, _ => none

end Peer

def Remote.perform (c : Remote) (q : Request) (d : Delivery) : Except CatalogError Bool :=
  match q with
  | .delist name peer => c.delist name peer d
  | .heartbeat peer => c.heartbeat peer d
  | q => (c.ask q d).map fun _ => true

def fetchTarget (i : EntryId) : Except CatalogError (Option Offer) → Except PeerError Offer
  | .error e => .error (.catalog e)
  | .ok none => .error (.notFound i)
  | .ok (some o) => .ok o

def fetch (c : PeerConfig) (home : FilePath) (i : EntryId)
    (located : Except CatalogError (Option Offer)) (answer : Offer → Delivery) (d : Disk) :
    Except PeerError Transfer.Report × Disk :=
  match fetchTarget i located with
  | .error e => (.error e, d)
  | .ok o =>
    let (a, d) := Transfer.download o (c.downloadDirAt home) c.connectTimeout (answer o) d
    (a.mapError .transfer, d)

end PeerShare
