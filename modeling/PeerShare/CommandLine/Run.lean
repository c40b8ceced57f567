import PeerShare.CommandLine.Outcome

/-!
Running the commands. Those that ask the registry once are run against a network that carries a
request to the registry, or a name to the owner of a file, and brings back what becomes of it; the
others are made ready to run.
-/

namespace PeerShare.CommandLine

structure Network (m : Type → Type) where
  ask : Remote → Request → m Delivery
  transfer : Offer → Span → m Delivery

variable {m : Type → Type} [Monad m]

def search (net : Network m) (c : PeerConfig) (query : String) (json : Bool) : m Outcome := do
  return searched query json ((remoteOf c).search query (← net.ask (remoteOf c) (.search query)))

def status (net : Network m) (c : PeerConfig) : m Outcome := do
  return statusShown c ((remoteOf c).status (← net.ask (remoteOf c) .status))

def fetchListing (net : Network m) (c : PeerConfig) (home : FilePath) (i : EntryId) (d : Disk) :
    m (Outcome × Disk) := do
  let located := (remoteOf c).resolveOwner i (← net.ask (remoteOf c) (.resolveOwner i))
  let answer ← match located with
    | .ok (some o) =>
      if isFileName o.fileName then net.transfer o c.connectTimeout else pure .unanswered
    | _ => pure .unanswered
  let (a, d) := fetch c home i located (fun _ => answer) d
  return (fetched i a, d)

def prepareServer (home : FilePath) (listen : Option String) (memory : Bool) (startedAt : Nat)
    (d : Disk) : Except Halt (Except Outcome Server × Disk) :=
  match serverConfig home listen memory d with
  | .error o => .ok (.error o, d)
  | .ok c =>
    (Server.bind c home startedAt d).map fun (s, d) =>
      (s.mapError fun e => serverStopped (.error e), d)

def preparePeer (home : FilePath) (c : PeerConfig) (fresh : PeerId) (freePort : UInt16) (d : Disk) :
    Except Outcome Peer × Disk :=
  match Peer.prepare c home fresh (Peer.boundAt c.transferListen freePort) d with
  | (.error h, d) => (.error (halted h), d)
  | (.ok p, d) => (p.mapError fun e => peerStopped (.error e), d)

/-- A command to its end; a server or a peer that is ready to run has not come to one. -/
def run (net : Network m) (home : FilePath) (d : Disk) : Invocation → m (Option Outcome × Disk)
  | .search query registry json =>
    match peerConfig home registry d with
    | .error o => pure (some o, d)
    | .ok c => do return (some (← search net c query json), d)
  | .serverStatus registry =>
    match peerConfig home registry d with
    | .error o => pure (some o, d)
    | .ok c => do return (some (← status net c), d)
  | .fetch i registry folder =>
    match peerConfig home registry d with
    | .error o => pure (some o, d)
    | .ok c => do
      let c := { c with downloadDir := (folder.map FilePath.mk).or c.downloadDir }
      let (o, d) ← fetchListing net c home i d
      return (some o, d)
  | .startServer listen memory =>
    match prepareServer home listen memory 0 d with
    | .ok (.error o, d) => pure (some o, d)
    | .ok (.ok _, d) => pure (none, d)
    | .error h => pure (some (halted h), d)
  | .runPeer registry share advertise port =>
    match peerConfig home registry d with
    | .error o => pure (some o, d)
    | .ok c =>
      match preparePeer home (withPeerOptions c share advertise port) ⟨"new"⟩ 0 d with
      | (.error o, d) => pure (some o, d)
      | (.ok _, d) => pure (none, d)

end PeerShare.CommandLine
