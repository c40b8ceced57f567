import PeerShare.Collection
import PeerShare.Json.Value

/-!
One tick of the agent that keeps the registry in step with a folder. A pass scans the folder, lists
the names it has and the agent does not know, withdraws those that the agent knows and it has not,
and renews the peer's listings. If the registry answers that it holds none of them, the agent
forgets what it knows and begins another pass, at most `Tick.resyncLimit` times.

A tick is written as a machine that says what it waits for, so that it can be stopped in between.
-/

namespace PeerShare

inductive Call
  | list (name : String)
  | delist (name : String)
  | heartbeat
  | disconnect
  deriving DecidableEq, Repr

def Call.toJson : Call → Json
  | .list name => .arr [.str "list", .str name]
  | .delist name => .arr [.str "delist", .str name]
  | .heartbeat => .arr [.str "heartbeat"]
  | .disconnect => .arr [.str "disconnect"]

inductive Reply
  | yes
  | no
  | failed
  deriving DecidableEq, Repr

structure Tick.Report where
  listed : Nat := 0
  delisted : Nat := 0
  failures : Nat := 0
  resyncs : Nat := 0
  renewed : Option Bool := none
  idle : Bool := false
  deriving DecidableEq, Repr

def Tick.Report.toJson (r : Tick.Report) : Json :=
  .obj [("listed", .count r.listed), ("delisted", .count r.delisted),
    ("failures", .count r.failures), ("resyncs", .count r.resyncs),
    ("renewed", match r.renewed with
      | some b => .bool b
      | none => .null),
    ("idle", .bool r.idle)]

inductive Tick.Phase
  | scan
  /-- The answer to listing a name; `later` are listed after it, and `present` was found. -/
  | list (name : String) (later present : Names)
  | delist (name : String) (later : Names)
  | heartbeat
  | finished
  deriving DecidableEq, Repr

structure Tick where
  known : Names
  report : Tick.Report := {}
  phase : Tick.Phase := .scan
  deriving DecidableEq, Repr

namespace Tick

def resyncLimit : Nat := 3

def finish (t : Tick) : Tick := { t with phase := .finished }

def fail (t : Tick) : Tick := { t with report.failures := t.report.failures + 1 }

def call? (t : Tick) : Option Call :=
  match t.phase with
  | .list name _ _ => some (.list name)
  | .delist name _ => some (.delist name)
  | .heartbeat => some .heartbeat
  | .scan | .finished => none

def withdraw (t : Tick) : Names → Tick
  | [] => { t with phase := .heartbeat }
  | name :: later => { t with phase := .delist name later }

def register (t : Tick) (present : Names) : Names → Tick
  | [] => t.withdraw (Names.diff t.known present)
  | name :: later => { t with phase := .list name later present }

def scanned (t : Tick) : Option Names → Tick
  | none => t.fail.finish
  | some [] => { t with report.idle := true, phase := .finished }
  | some present => t.register present (Names.diff present t.known)

/-- A renewal was answered with no. -/
def forgotten (t : Tick) : Tick :=
  let t := { t with report.renewed := some false }
  if t.known = [] ∨ resyncLimit ≤ t.report.resyncs then t.finish
  else { t with known := [], report.resyncs := t.report.resyncs + 1, phase := .scan }

def answered (t : Tick) (reply : Reply) : Tick :=
  match t.phase with
  | .list name later present =>
    let t := match reply with
      | .failed => t.fail
      | _ => { t with known := Names.insert name t.known, report.listed := t.report.listed + 1 }
    t.register present later
  | .delist name later =>
    let t := match reply with
      | .failed => t.fail
      | _ => { t with known := Names.erase name t.known, report.delisted := t.report.delisted + 1 }
    t.withdraw later
  | .heartbeat =>
    match reply with
    | .yes => { t with report.renewed := some true, phase := .finished }
    | .no => t.forgotten
    | .failed => t.fail.finish
  | .scan | .finished => t

end Tick

end PeerShare
