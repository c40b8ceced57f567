import PeerShare.CommandLine.Run

/-!
A machine on which the program is run: a home, the registry server that runs there and can be
reached under an address, and the peer that runs there and owns files at a port. A machine without
a network makes no connection, not even to itself.
-/

namespace PeerShare.CommandLine

structure Machine where
  home : FilePath
  disk : Disk
  now : Instant
  registry : String
  port : UInt16
  share : FilePath
  server : Option Server := none
  agent : Option Agent := none
  offline : Bool := false

namespace Machine

def attach (s : Machine) (server : Server) : Server :=
  { server with registry.store.disk := s.disk }

def detach (s : Machine) (server : Server) : Machine :=
  { s with server := some server, disk := server.registry.store.disk }

def refusal (s : Machine) (address : String) : IoCause :=
  let problem := if address = s.registry then none else Server.addressProblem? address
  problem.getD (if s.offline then .networkUnreachable else .connectionRefused)

/-- A request to an address; only that of the registry is answered. -/
def exchange (s : Machine) (address : String) (q : Request) : Delivery × Machine :=
  match s.server with
  | none => (.refused (s.refusal address), s)
  | some server =>
    if address = s.registry ∧ ¬ s.offline then
      let (d, server) := (s.attach server).exchange s.now q
      (d, s.detach server)
    else (.refused (s.refusal address), s)

def transfer (s : Machine) (o : Offer) : Delivery :=
  if o.port = s.port ∧ ¬ s.offline then Transfer.answerOf s.disk s.share o
  else .refused (s.refusal o.endpoint)

def network (s : Machine) : Network Id where
  ask c q := (s.exchange c.address q).1
  transfer o _ := s.transfer o

def run (s : Machine) (args : List String) : Option Outcome × Machine :=
  match Invocation.read args with
  | .error u => (some (usage u), s)
  | .ok i =>
    let (o, d) := Id.run (CommandLine.run s.network s.home s.disk i)
    (o, { s with disk := d })

def startServer (s : Machine) (args : List String) : Option Outcome × Machine :=
  match Invocation.read ("server" :: "start" :: args) with
  | .ok (.startServer listen memory) =>
    match prepareServer s.home listen memory 0 s.disk with
    | .ok (.ok server, _) =>
      (none, s.detach { server with registry := (server.registry.sweep s.now).2 })
    | .ok (.error o, d) => (some o, { s with disk := d })
    | .error h => (some (halted h), s)
  | .ok _ => (none, s)
  | .error u => (some (usage u), s)

def call (address : String) (a : Agent) (c : Call) (s : Machine) :
    Except CatalogError Bool × Machine :=
  let (d, s) := s.exchange address (a.request c)
  ((Remote.mk address Span.second).perform (a.request c) d, s)

def peerRegistry (s : Machine) : String :=
  match PeerConfig.loadAt s.home s.disk with
  | .ok c => c.registry
  | .error _ => s.registry

def world (address : String) (a : Agent) : Tick.World Machine where
  scan s := ((Share.scan s.disk s.share).toOption, s)
  call c s :=
    let (x, s) := call address a c s
    (.ofResult x, s)

def startPeer (s : Machine) (args : List String) (fresh : PeerId) : Option Outcome × Machine :=
  match Invocation.read ("peer" :: "run" :: args) with
  | .ok (.runPeer registry share advertise port) =>
    match peerConfig s.home registry s.disk with
    | .error o => (some o, s)
    | .ok c =>
      match preparePeer s.home (withPeerOptions c share advertise port) fresh (port.getD s.port)
        s.disk with
      | (.error o, d) => (some o, { s with disk := d })
      | (.ok p, d) =>
        let s := { s with disk := d, share := p.share, port := p.agent.port }
        let (_, a, s) := p.agent.reconcile (world c.registry p.agent) s
        (none, { s with agent := some a })
  | .ok _ => (none, s)
  | .error u => (some (usage u), s)

def stopServer (s : Machine) : Machine := { s with server := none }

def stopPeer (s : Machine) : Machine :=
  match s.agent with
  | none => s
  | some a =>
    let s := { s with agent := none }
    match a.shutdown.1 with
    | some c => (call s.peerRegistry a c s).2
    | none => s

end Machine

end PeerShare.CommandLine
