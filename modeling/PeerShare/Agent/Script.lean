import PeerShare.Agent.Basic
import PeerShare.Share

/-!
An agent and a registry whose calls are recorded and fail where a script says so.
-/

namespace PeerShare

structure Script where
  agent : Agent
  registry : Registry
  now : Instant
  share : FilePath
  failList : List String := []
  failDelist : List String := []
  /-- Answers to the next renewals; a renewal without an answer fails. -/
  beats : List (Option Bool) := []
  down : Bool := false
  calls : List Call := []

namespace Script

def disk (s : Script) : Disk := s.registry.store.disk

def ask (c : Call) (s : Script) : Except CatalogError Bool × Script :=
  let (x, r) := s.registry.perform s.now s.agent c
  (x, { s with registry := r })

def fail (message : String) (s : Script) : Except CatalogError Bool × Script :=
  (.error (.unavailable message), s)

def call (c : Call) (s : Script) : Except CatalogError Bool × Script :=
  let s := { s with calls := s.calls ++ [c] }
  if s.down then fail "registry down" s
  else match c, s.beats with
    | .list name, _ => if s.failList.contains name then fail "store hiccup" s else ask c s
    | .delist name, _ => if s.failDelist.contains name then fail "store hiccup" s else ask c s
    | .heartbeat, some b :: rest => (.ok b, { s with beats := rest })
    | .heartbeat, none :: rest => fail "heartbeat lost" { s with beats := rest }
    | _, _ => ask c s

def world : Tick.World Script where
  scan s := ((Share.scan s.disk s.share).toOption, s)
  call c s :=
    let (x, s) := call c s
    (.ofResult x, s)

def reconcile (s : Script) : Tick.Report × Script :=
  let (r, a, s) := s.agent.reconcile world s
  (r, { s with agent := a })

def shutdown (s : Script) : Except CatalogError Bool × Script :=
  match s.agent.shutdown with
  | (none, _) => (.ok true, s)
  | (some c, a) =>
    let (x, s) := call c s
    (x, { s with agent := a })

end Script

end PeerShare
