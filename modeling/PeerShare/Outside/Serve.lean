import PeerShare.Outside.Files
import PeerShare.Outside.Network
import PeerShare.Server.Session

/-!
Running a registry server: connections are served side by side, each request and each sweep on its
own, and what they change on the disk is written before they are answered.
-/

namespace PeerShare.Outside

open Std Std.Async

def withServer (m : Mutex Server) (work : Instant → Server → α × Server) : IO α :=
  m.atomically do
    let s ← get
    let (a, t) := work (← now) s
    writeChanges s.registry.store.disk t.registry.store.disk
    set t
    return a

partial def serveLines (m : Mutex Server) (c : TCP.Socket.Client) (pending : Bytes) :
    Async Unit := do
  let received ← c.recv? 65536
  let e ← withServer m fun now s =>
    let e : Session := { server := s, pending := pending }
    let e := match received with
      | some more => e.receive now (bytesOf more)
      | none => e.finish now
    (e, e.server)
  if e.sent ≠ [] then c.send (arrayOf e.output)
  if e.isOpen then serveLines m c e.pending else c.shutdown

partial def acceptLines (m : Mutex Server) (s : TCP.Socket.Server) : Async Unit := do
  let c ← s.accept
  background (do
    try serveLines m c []
    catch _ => pure ())
  acceptLines m s

partial def sweepAgain (m : Mutex Server) (every : Nat) : Async Unit := do
  let _ ← withServer m fun now s =>
    let (n, r) := s.registry.sweep now
    (n, { s with registry := r })
  sleep (Std.Time.Millisecond.Offset.ofNat every)
  sweepAgain m every

def untilInterrupted : IO Unit := do
  let w ← Signal.Waiter.mk .sigint false
  let _ ← (← w.wait).block

def runServer (s : Server) (socket : TCP.Socket.Server) : IO Unit := do
  let m ← Mutex.new s
  let _ ← (sweepAgain m s.reaperInterval.wholeMillis).toIO
  let _ ← (acceptLines m socket).toIO
  untilInterrupted

end PeerShare.Outside
