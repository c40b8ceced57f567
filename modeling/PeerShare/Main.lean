import PeerShare.Outside.Share

/-!
The program: it runs a registry server or a peer, or asks a registry.
-/

namespace PeerShare.Program

open CommandLine Outside

def finish (o : Outcome) : IO UInt32 := do
  IO.print o.out
  IO.eprint o.err
  return UInt32.ofNat o.code

def newIdentity : IO PeerId := do
  let b := bytesOf (← IO.getRandomBytes 16)
  let b := b.mapIdx fun i x =>
    if i = 6 then x % 16 + 0x40 else if i = 8 then x % 64 + 0x80 else x
  let part (start length : Nat) : String := Text.hexOfBytes ((b.drop start).take length)
  return ⟨"-".intercalate [part 0 4, part 4 2, part 6 2, part 8 2, part 10 6]⟩

def startServer (home : FilePath) (listen : Option String) (memory : Bool) (d : Disk) :
    IO UInt32 := do
  let d ← match serverConfig home listen memory d with
    | .ok c => look d (c.storePathAt home)
    | .error _ => pure d
  let seconds := (← now).second.toNat
  match prepareServer home listen memory seconds d with
  | .error h => finish (halted h)
  | .ok (.error o, e) =>
    writeChanges d e
    finish o
  | .ok (.ok s, e) =>
    writeChanges d e
    try
      runServer s (← listenAt s.listen)
      finish {}
    catch cause => finish (serverStopped (.error (.io s.listen (.other (toString cause)))))

def startPeer (home : FilePath) (c : PeerConfig) (d : Disk) : IO UInt32 := do
  let d ← look (← look d (Home.identity home)) (c.shareDirAt home)
  match preparePeer home c (← newIdentity) 0 d with
  | (.error o, e) =>
    writeChanges d e
    finish o
  | (.ok p, e) =>
    writeChanges d e
    try
      let socket ← listenAt c.transferListen
      let p := { p with agent.port := ← localPort socket }
      runPeer p (remoteOf c) socket
      finish {}
    catch cause =>
      finish (peerStopped (.error (.transfer (.io ⟨c.transferListen⟩ (.other (toString cause))))))

def runInvocation (home : FilePath) (i : Invocation) : IO UInt32 := do
  let d ← lookAll {} [Home.peerConfig home, Home.serverConfig home]
  match i with
  | .startServer listen memory => startServer home listen memory d
  | .runPeer registry share advertise port =>
    match peerConfig home registry d with
    | .error o => finish o
    | .ok c => startPeer home (withPeerOptions c share advertise port) d
  | i =>
    let (o, e) ← CommandLine.run network home d i
    writeChanges d e
    finish (o.getD {})

end PeerShare.Program

open PeerShare CommandLine Program in
def main (args : List String) : IO UInt32 := do
  match Invocation.read args with
  | .error u => finish (usage u)
  | .ok i =>
    match ← IO.getEnv "HOME" with
    | some home => runInvocation ⟨home⟩ i
    | none => finish (failed "could not determine home directory" [])
