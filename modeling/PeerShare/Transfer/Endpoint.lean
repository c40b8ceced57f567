import PeerShare.Transfer.Exchange
import PeerShare.Transfer.Slots

/-!
A transfer endpoint at work. A connection is answered as soon as it has sent its bytes and holds a
slot; a refusal gives the slot back at once, and so does an answer that fits what the network holds
for a requester who has not read it yet.
-/

namespace PeerShare.Transfer

structure Endpoint where
  disk : Disk
  folder : FilePath
  slots : Slots
  heard : List (Conn × Bytes) := []
  answers : List (Conn × Bytes) := []

namespace Endpoint

/-- So many bytes of an answer need not be waited for. -/
def networkBuffer : Nat := 1000000

def ready? (e : Endpoint) : Option (Conn × Bytes) :=
  e.slots.serving.findSome? fun (c, v) =>
    if v = .reading then (Keyed.get? c e.heard).map (c, ·) else none

def answerSlots (s : Slots) (c : Conn) (out : Bytes) : Option Slots :=
  if out = [] then s.step (.stop c .notOffered)
  else if out.length ≤ networkBuffer then
    (s.step (.request c)).bind (·.step (.stop c .served))
  else s.step (.request c)

def answer (e : Endpoint) (c : Conn) (request : Bytes) : Endpoint :=
  let out := respond e.disk e.folder request
  { e with
    heard := e.heard.filter (·.1 != c)
    answers := (c, out) :: e.answers
    slots := (answerSlots e.slots c out).getD e.slots }

/-- Answers all that can be answered; `fuel` bounds how many that are. -/
def settleUpTo : (fuel : Nat) → Endpoint → Endpoint
  | 0, e => e
  | fuel + 1, e =>
    match e.ready? with
    | none => e
    | some (c, request) => settleUpTo fuel (e.answer c request)

def settle (e : Endpoint) : Endpoint := settleUpTo e.heard.length e

def accept (e : Endpoint) : Conn × Endpoint := (e.slots.arrived, { e with slots := e.slots.arrive })

def hear (e : Endpoint) (c : Conn) (request : Bytes) : Endpoint :=
  settle { e with heard := e.heard ++ [(c, request)] }

def close (e : Endpoint) (c : Conn) (why : Ending) : Endpoint :=
  settle { e with slots := (e.slots.step (.stop c why)).getD e.slots }

def answer? (e : Endpoint) (c : Conn) : Option Bytes := Keyed.get? c e.answers

end Endpoint

end PeerShare.Transfer
