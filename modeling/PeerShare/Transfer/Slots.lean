import PeerShare.Config.Peer
import PeerShare.Failure
import PeerShare.Peer.Error

/-!
The slots of a transfer endpoint. A connection that is served holds one of a fixed number of slots.
A connection that arrives while none is free waits for one or is closed at once, as the endpoint's
policy says; those that wait are served in the order in which they came. However the service of a
connection ends, its slot is given back.
-/

namespace PeerShare.Transfer

/-- A connection, by its number in the order of arrival. -/
abbrev Conn := Nat

inductive Service
  /-- It holds a slot and has yet to send a name; the request timeout runs. -/
  | reading
  | sending
  deriving DecidableEq, Repr

inductive Ending
  | served
  | notOffered
  | badFrame
  | requestTimeout
  | streamError
  deriving DecidableEq, Repr

def Ending.fits : Ending → Service → Bool
  | .served, v => v = .sending
  | .streamError, _ => true
  | _, v => v = .reading

structure Slots where
  free : Nat
  overflow : OverflowPolicy
  arrived : Nat := 0
  waiting : List Conn := []
  serving : List (Conn × Service) := []
  /-- Closed at arrival, for lack of a slot. -/
  rejected : List Conn := []
  ended : List (Conn × Ending) := []
  deriving DecidableEq, Repr

namespace Slots

def capacity (maxConnections : Nat) : Nat := max 1 maxConnections

def initial (maxConnections : Nat) (overflow : OverflowPolicy) : Slots :=
  ⟨capacity maxConnections, overflow, 0, [], [], [], []⟩

inductive Event
  | arrive
  | request (c : Conn)
  | stop (c : Conn) (why : Ending)
  deriving DecidableEq, Repr

def grant (s : Slots) (c : Conn) : Slots :=
  { s with free := s.free - 1, serving := s.serving ++ [(c, .reading)] }

def letIn (s : Slots) : Slots :=
  match s.waiting with
  | [] => s
  | c :: rest => if s.free = 0 then s else grant { s with waiting := rest } c

def arrive (s : Slots) : Slots :=
  let c := s.arrived
  let s := { s with arrived := c + 1 }
  match s.overflow with
  | .reject => if s.free = 0 then { s with rejected := s.rejected ++ [c] } else grant s c
  | .queue => letIn { s with waiting := s.waiting ++ [c] }

def service? (s : Slots) (c : Conn) : Option Service :=
  (s.serving.find? (·.1 == c)).map (·.2)

def release (s : Slots) (c : Conn) (why : Ending) : Slots :=
  letIn { s with
    free := s.free + 1
    serving := s.serving.filter (·.1 != c)
    ended := s.ended ++ [(c, why)] }

def step (s : Slots) : Event → Option Slots
  | .arrive => some s.arrive
  | .request c =>
    if s.service? c = some .reading then
      some { s with serving := s.serving.map fun (k, v) => (k, if k = c then .sending else v) }
    else none
  | .stop c why =>
    match s.service? c with
    | some v => if Ending.fits why v then some (s.release c why) else none
    | none => none

def limit : Nat := Nat.pow 2 61 - 1

end Slots

/-- Takes the address at which a peer serves its files, and asks for its port; `bound` is what
becomes of the first and then of the second. -/
def listen (c : PeerConfig) (bound : Except IoCause (Except IoCause UInt16)) :
    Except Halt (Except TransferError UInt16) :=
  match bound with
  | .error cause => .ok (.error (.io ⟨c.transferListen⟩ cause))
  | .ok port =>
    if Slots.limit < Slots.capacity c.maxConnections.toNat then .error .tooManySlots
    else .ok (port.mapError .stream)

end PeerShare.Transfer
