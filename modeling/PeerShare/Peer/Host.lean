import PeerShare.Peer.Run

/-!
A running peer together with the registry server that it calls, every call being answered at once.
-/

namespace PeerShare

structure Host where
  server : Server
  reachable : Bool
  remote : Remote
  now : Instant
  home : FilePath
  disk : Disk
  config : PeerConfig

namespace Host

def share (h : Host) : FilePath := h.config.shareDirAt h.home

def exchange (q : Request) (h : Host) : Delivery × Host :=
  if h.reachable then
    let (d, s) := h.server.exchange h.now q
    (d, { h with server := s })
  else (.refused .connectionRefused, h)

def perform (q : Request) (h : Host) : Except CatalogError Bool × Host :=
  let (d, h) := h.exchange q
  (h.remote.perform q d, h)

def world (a : Agent) : Tick.World Host where
  scan h := ((Share.scan h.disk h.share).toOption, h)
  call c h :=
    let (x, h) := perform (a.request c) h
    (.ofResult x, h)

def start (h : Host) (fresh : PeerId) (freePort : UInt16) :
    Except Halt (Except PeerError Agent) × Host :=
  let bound := Peer.boundAt h.config.transferListen freePort
  let (p, d) := Peer.prepare h.config h.home fresh bound h.disk
  let h := { h with disk := d }
  match p with
  | .error halt => (.error halt, h)
  | .ok (.error e) => (.ok (.error e), h)
  | .ok (.ok p) =>
    let (_, h) := exchange Peer.Run.first h
    let (_, a, h) := p.agent.reconcile (world p.agent) h
    (.ok (.ok a), h)

/-- Stops a peer; it makes no difference whether its leave is acknowledged. -/
def stop (h : Host) (a : Agent) : Host :=
  match a.shutdown.1 with
  | some c => (perform (a.request c) h).2
  | none => h

def fetch (h : Host) (i : EntryId) : Except PeerError Transfer.Report × Host :=
  let (d, h) := h.exchange (.resolveOwner i)
  let (a, disk) := PeerShare.fetch h.config h.home i (h.remote.resolveOwner i d)
    (Transfer.answerOf h.disk h.share) h.disk
  (a, { h with disk := disk })

end Host

end PeerShare
