import PeerShare.Agent.Basic
import PeerShare.Listing

/-!
A registry, its reaper and a number of agents under one clock. Agents and reaper act once a period
and take no time for it; what is due first acts first, the reaper before the agents.
-/

namespace PeerShare

/-- An agent with the files it shares. Times are nanoseconds from the start. -/
structure Actor where
  agent : Agent
  files : Names
  period : Nat
  due : Nat
  live : Bool := true

structure LoggedCall where
  time : Nat
  peer : PeerId
  call : Call

def LoggedCall.toJson (c : LoggedCall) : Json :=
  match c.call.toJson with
  | .arr (name :: more) => .arr (.count (c.time / 1000000) :: .str c.peer.text :: name :: more)
  | v => v

structure Simulation where
  registry : Registry
  start : Instant
  actors : List Actor
  reaper : Option (Nat × Nat)
  cutOff : Bool := false
  calls : List LoggedCall := []

namespace Simulation

def clockAt (s : Simulation) (time : Nat) : Instant :=
  (s.start.add? (Span.clamp time)).getD s.start

def call (time : Nat) (a : Agent) (c : Call) (s : Simulation) :
    Except CatalogError Bool × Simulation :=
  let s := { s with calls := s.calls ++ [⟨time, a.peer, c⟩] }
  if s.cutOff then (.error (.unavailable "registry down"), s)
  else
    let (x, r) := s.registry.perform (s.clockAt time) a c
    (x, { s with registry := r })

def world (time : Nat) (a : Actor) : Tick.World Simulation where
  scan s := (some a.files, s)
  call c s :=
    let (x, s) := call time a.agent c s
    (.ofResult x, s)

def setActor (s : Simulation) (i : Nat) (a : Actor) : Simulation :=
  { s with actors := s.actors.set i a }

def tick (s : Simulation) (i : Nat) (a : Actor) : Simulation :=
  let (_, agent, s) := a.agent.reconcile (world a.due a) s
  s.setActor i { a with agent := agent, due := a.due + a.period }

def sweep (s : Simulation) (due : Nat) : Simulation :=
  { s with
    registry := (s.registry.sweep (s.clockAt due)).2
    reaper := s.reaper.map fun (period, d) => (period, d + period) }

inductive Turn
  | reaper (due : Nat)
  | actor (i : Nat) (a : Actor)

def Turn.due : Turn → Nat
  | .reaper due => due
  | .actor _ a => a.due

def turns (s : Simulation) : List Turn :=
  (s.reaper.toList.map fun (_, due) => .reaper due) ++
    s.actors.zipIdx.filterMap fun (a, i) => if a.live then some (.actor i a) else none

def earlier (a b : Turn) : Turn := if b.due < a.due then b else a

def next? (s : Simulation) (limit : Nat) : Option Turn :=
  match s.turns.filter (·.due < limit) with
  | [] => none
  | t :: ts => some (ts.foldl earlier t)

def play (s : Simulation) : Turn → Simulation
  | .reaper due => s.sweep due
  | .actor i a => s.tick i a

def advanceUpTo : (fuel : Nat) → Nat → Simulation → Simulation
  | 0, _, s => s
  | fuel + 1, limit, s =>
    match s.next? limit with
    | none => s
    | some t => advanceUpTo fuel limit (s.play t)

def turnsBefore (limit period : Nat) : Nat := limit / period + 1

def advance (s : Simulation) (limit : Nat) : Simulation :=
  let periods := (s.reaper.toList.map (·.1)) ++ s.actors.map (·.period)
  advanceUpTo (periods.foldl (fun n p => n + turnsBefore limit p) 0) limit s

def stop (s : Simulation) (time i : Nat) (a : Actor) : Except CatalogError Bool × Simulation :=
  let (c, agent) := a.agent.shutdown
  let (x, s) := match c with
    | some c => call time a.agent c s
    | none => (.ok true, s)
  (x, s.setActor i { a with agent := agent, live := false })

end Simulation

end PeerShare
