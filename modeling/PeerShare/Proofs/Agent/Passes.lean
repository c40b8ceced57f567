import PeerShare.Agent.Basic
import PeerShare.Proofs.Agent.Follow
import PeerShare.Proofs.Agent.Run

/-!
The calls of an agent in the order in which it makes them. A pass makes one at a time, and none of
them is a disconnect; the agent disconnects when it is shut down, and only once, whatever passes are
made or dropped before and afterwards.
-/

namespace PeerShare

namespace Tick

/-- How a tick can have come from `t` to where it is, whatever it found and was answered, with the
calls that it made. It waits for the last of them. -/
inductive Course (t : Tick) : List Call → Tick → Prop
  | start : Course t [] t
  | scanned {cs : List Call} {u : Tick} (found : Option Names) (h : Course t cs u)
      (scans : u.phase = .scan) :
      Course t (cs ++ (u.scanned found).call?.toList) (u.scanned found)
  | answered {cs : List Call} {u : Tick} (reply : Reply) (h : Course t cs u)
      (calls : u.call?.isSome) :
      Course t (cs ++ (u.answered reply).call?.toList) (u.answered reply)

theorem disconnect_notMem_call? (t : Tick) : Call.disconnect ∉ t.call?.toList := by
  rw [Option.mem_toList]
  exact call?_ne_disconnect t

theorem Course.disconnect_notMem {t u : Tick} {cs : List Call} (h : t.Course cs u) :
    Call.disconnect ∉ cs := by
  induction h with
  | start => exact List.not_mem_nil
  | scanned _ _ _ ih => exact fun hm => (List.mem_append.mp hm).elim ih (disconnect_notMem_call? _)
  | answered _ _ _ ih => exact fun hm => (List.mem_append.mp hm).elim ih (disconnect_notMem_call? _)

section Steps
variable {σ : Type} {w : World σ}

end Steps
end Tick

namespace Agent

section Acts
variable {σ : Type} (w : Tick.World σ)

variable {w} {a : Agent} {s : σ × List Call}

end Acts

/-! ### One pass after the other -/

/-- How an agent can have come from one pass to the next, each from its beginning to its end, with
the calls that it made. -/
inductive Passes (a : Agent) : List Call → Agent → Prop
  | none : Passes a [] a
  | pass {cs ds : List Call} {b : Agent} {t : Tick} (h : Passes a cs b) (course : b.tick.Course ds t)
      (ended : t.phase = .finished) : Passes a (cs ++ ds) (b.after t)

variable {a b : Agent} {cs : List Call}

theorem Passes.disconnect_notMem (h : a.Passes cs b) : Call.disconnect ∉ cs := by
  induction h with
  | none => exact List.not_mem_nil
  | pass _ course _ ih => exact fun hm => (List.mem_append.mp hm).elim ih course.disconnect_notMem

theorem request_after (a : Agent) (t : Tick) (c : Call) : (a.after t).request c = a.request c := by
  cases c <;> rfl

theorem Passes.request (h : a.Passes cs b) (c : Call) : b.request c = a.request c := by
  induction h with
  | none => rfl
  | pass _ _ _ ih => exact (request_after _ _ c).trans ih

theorem Passes.disconnected (h : a.Passes cs b) : b.disconnected = a.disconnected := by
  induction h with
  | none => rfl
  | pass _ _ _ ih => exact ih

end Agent
end PeerShare
