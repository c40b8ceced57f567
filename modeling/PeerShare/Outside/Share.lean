import PeerShare.Outside.Serve
import PeerShare.Peer.Run
import PeerShare.Transfer.Slots

/-!
Running a peer: its transfer endpoint, and the run that keeps the registry in step with its folder.
-/

namespace PeerShare.Outside

open Std Std.Async

def holdsName (bytes : Bytes) : Bool :=
  match Frame.readName bytes with
  | (.error (.stream _), _) => false
  | _ => true

def diskFor (folder : FilePath) (request : Bytes) : IO Disk :=
  match (Frame.readName request).1 with
  | .ok name => do
    if ¬ isFileName name then return {}
    try look (← look {} folder) (folder.child name)
    catch _ => return {}
  | .error _ => pure {}

partial def waitForSlot (slots : Mutex Transfer.Slots) (k : Transfer.Conn) : Async Unit := do
  let s ← (slots.atomically get : IO Transfer.Slots)
  if (s.service? k).isNone then
    sleep (Std.Time.Millisecond.Offset.ofNat 20)
    waitForSlot slots k

def event (slots : Mutex Transfer.Slots) (e : Transfer.Slots.Event) : IO Unit :=
  slots.atomically (modify fun s => (s.step e).getD s)

def serveName (c : TCP.Socket.Client) (folder : FilePath) (timeout : Span)
    (slots : Mutex Transfer.Slots) (k : Transfer.Conn) : Async Transfer.Ending := do
  let come ← Async.race (some <$> collect c holdsName []) (do
    sleep (Std.Time.Millisecond.Offset.ofNat timeout.wholeMillis)
    return none)
  match come with
  | none => return .requestTimeout
  | some request =>
    if ¬ holdsName request then return .badFrame
    let out := Transfer.respond (← diskFor folder request) folder request
    if out = [] then return .notOffered
    event slots (.request k)
    c.send (arrayOf out)
    return .served

def serveTransfer (c : TCP.Socket.Client) (folder : FilePath) (timeout : Span)
    (slots : Mutex Transfer.Slots) (k : Transfer.Conn) : Async Unit := do
  waitForSlot slots k
  let ending ← try serveName c folder timeout slots k
    catch _ => pure .streamError
  event slots (.stop k ending)
  try c.shutdown
  catch _ => pure ()

partial def acceptTransfers (s : TCP.Socket.Server) (folder : FilePath) (timeout : Span)
    (slots : Mutex Transfer.Slots) : Async Unit := do
  let c ← s.accept
  let before ← (slots.atomically get : IO Transfer.Slots)
  event slots .arrive
  let after ← (slots.atomically get : IO Transfer.Slots)
  if after.rejected.contains before.arrived then
    try c.shutdown
    catch _ => pure ()
  else background (serveTransfer c folder timeout slots before.arrived)
  acceptTransfers s folder timeout slots

def nextEvent (p : Peer) (c : Remote) (r : Peer.Run) : Option Request → IO (Option Peer.Event)
  | some .livenessWindow => do
    return some (.window (c.livenessWindow (← ask c .livenessWindow)).toOption)
  | some q => do return some (.answered (.ofResult (c.perform q (← ask c q))))
  | none =>
    match r.stage with
    | .reconciling _ => do
      return some (.scanned (Share.scan (← lookInto {} p.share) p.share).toOption)
    | _ => pure none

partial def pursue (p : Peer) (c : Remote) (interrupted : IO.Ref Bool) (period due : Nat)
    (r : Peer.Run) (request : Option Request) : IO Unit := do
  if r.stage = .finished then return
  let time ← IO.monoMsNow
  let resting := r.stage = .resting
  let leaving := r.stage = .leaving
  if (← interrupted.get) ∧ ¬ leaving then
    if let some (request, r) := r.step .cancel then
      return ← pursue p c interrupted period due r request
  if resting ∧ time < due then
    IO.sleep 20
    pursue p c interrupted period due r none
  else
    let e ← if resting then pure (some .due) else nextEvent p c r request
    let period := match e with
      | some (.window d) => (p.period d).wholeMillis
      | _ => period
    let due := if resting then (if time ≤ due + 5 then due + period else time + period) else due
    match e.bind r.step with
    | some (request, r) => pursue p c interrupted period due r request
    | none => return

def runPeer (p : Peer) (c : Remote) (socket : TCP.Socket.Server) : IO Unit := do
  let slots ← Mutex.new
    (Transfer.Slots.initial p.config.maxConnections.toNat p.config.overflow)
  let _ ← (acceptTransfers socket p.share p.config.requestTimeout slots).toIO
  let interrupted ← IO.mkRef false
  let _ ← IO.asTask (do
    untilInterrupted
    interrupted.set true)
  pursue p c interrupted 0 (← IO.monoMsNow) ⟨p.agent, .asking false⟩ (some Peer.Run.first)

end PeerShare.Outside
