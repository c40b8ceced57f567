import PeerShare.Failure

/-!
A job that is run once a period, one pass at a time, until it is cancelled. A pass that takes too
long delays the next one, and the ticks that it has missed are left out; a pass under way at the
cancellation is given up. Times are milliseconds from the start.
-/

namespace PeerShare.Periodic

structure Pass where
  start : Nat
  /-- Absent if the pass was given up. -/
  stop : Option Nat
  deriving DecidableEq, Repr

/-- How late a tick may be taken and still count as in time. -/
def tolerance : Nat := 5

/-- When the tick after the one due at `due` and taken at `taken` is due. A late tick is followed by
the next multiple of the period. -/
def nextDue (period due taken : Nat) : Nat :=
  if taken ≤ due + tolerance then due + period else (taken / period + 1) * period

/-- The passes from the tick due at `due` on, of which pass `i` takes `work i`; the job is free from
`ready` on. `fuel` bounds their number. -/
def passesFrom (period cancel : Nat) (work : Nat → Nat) :
    (fuel : Nat) → (i due ready : Nat) → List Pass
  | 0, _, _, _ => []
  | fuel + 1, i, due, ready =>
    let start := max due ready
    if cancel ≤ start then []
    else
      let stop := start + work i
      if cancel ≤ stop then [⟨start, none⟩]
      else ⟨start, some stop⟩ ::
        passesFrom period cancel work fuel (i + 1) (nextDue period due start) stop

def passes (period cancel : Nat) (work : Nat → Nat) : Except Halt (List Pass) :=
  if period = 0 then .error .zeroPeriod
  else .ok (passesFrom period cancel work (cancel / period + 1) 0 0 0)

end PeerShare.Periodic
