import PeerShare.Agent.Tick

/-!
Running a tick in a world that answers at once. Every step brings the tick nearer to its end: there
are only so many passes, and a pass lists, withdraws and renews in this order.
-/

namespace PeerShare.Tick

structure World (σ : Type) where
  scan : σ → Option Names × σ
  call : Call → σ → Reply × σ

def step (w : World σ) (t : Tick) (s : σ) : Tick × σ :=
  match t.phase, t.call? with
  | .scan, _ => (t.scanned (w.scan s).1, (w.scan s).2)
  | _, some c => (t.answered (w.call c s).1, (w.call c s).2)
  | _, none => (t, s)

def Phase.rank : Phase → Nat × Nat
  | .scan => (4, 0)
  | .list _ later _ => (3, later.length)
  | .delist _ later => (2, later.length)
  | .heartbeat => (1, 0)
  | .finished => (0, 0)

/-- How far a tick is from its end: passes to go, and the rest of this one. -/
def rank (t : Tick) : Nat × Nat × Nat := (resyncLimit - t.report.resyncs, t.phase.rank)

def Before (a b : Nat × Nat × Nat) : Prop := Prod.Lex (· < ·) (Prod.Lex (· < ·) (· < ·)) a b

theorem before_of_phase {t u : Tick} (hr : t.report.resyncs = u.report.resyncs)
    (hp : Prod.Lex (· < ·) (· < ·) t.phase.rank u.phase.rank) : Before t.rank u.rank := by
  unfold Before rank
  rw [hr]
  exact Prod.Lex.right _ hp

theorem withdraw_rank (t : Tick) (ns : Names) : (t.withdraw ns).phase.rank.1 ≤ 2 := by
  cases ns <;> simp [withdraw, Phase.rank]

theorem register_rank (t : Tick) (present ns : Names) :
    (t.register present ns).phase.rank.1 ≤ 3 := by
  cases ns with
  | nil => exact Nat.le_succ_of_le (withdraw_rank t _)
  | cons => simp [register, Phase.rank]

theorem withdraw_resyncs (t : Tick) (ns : Names) :
    (t.withdraw ns).report.resyncs = t.report.resyncs := by
  cases ns <;> rfl

theorem register_resyncs (t : Tick) (present ns : Names) :
    (t.register present ns).report.resyncs = t.report.resyncs := by
  cases ns with
  | nil => exact withdraw_resyncs t _
  | cons => rfl

theorem lex_of_lt {a b : Nat × Nat} (h : a.1 < b.1) : Prod.Lex (· < ·) (· < ·) a b :=
  Prod.Lex.left _ _ h

theorem scanned_before {t : Tick} (h : t.phase = .scan) (found : Option Names) :
    Before (t.scanned found).rank t.rank := by
  match found with
  | none => exact before_of_phase rfl (lex_of_lt (by simp [h, scanned, finish, Phase.rank]))
  | some [] => exact before_of_phase rfl (lex_of_lt (by simp [h, scanned, Phase.rank]))
  | some (n :: ns) =>
    refine before_of_phase (register_resyncs t _ _) (lex_of_lt ?_)
    rw [h]
    exact Nat.lt_succ_of_le (register_rank t _ _)

theorem register_before {t u : Tick} {name : String} {later present : Names}
    (h : t.phase = .list name later present) (hu : u.report.resyncs = t.report.resyncs) :
    Before (u.register present later).rank t.rank := by
  refine before_of_phase ((register_resyncs u _ _).trans hu) ?_
  cases later with
  | nil =>
    refine lex_of_lt ?_
    rw [h]
    exact Nat.lt_succ_of_le (withdraw_rank u _)
  | cons => simp only [h, register, Phase.rank]; exact Prod.Lex.right _ (by simp)

theorem withdraw_before {t u : Tick} {name : String} {later : Names}
    (h : t.phase = .delist name later) (hu : u.report.resyncs = t.report.resyncs) :
    Before (u.withdraw later).rank t.rank := by
  refine before_of_phase ((withdraw_resyncs u _).trans hu) ?_
  cases later with
  | nil => exact lex_of_lt (by simp [h, withdraw, Phase.rank])
  | cons => simp only [h, withdraw, Phase.rank]; exact Prod.Lex.right _ (by simp)

theorem forgotten_before {t : Tick} (h : t.phase = .heartbeat) :
    Before t.forgotten.rank t.rank := by
  simp only [forgotten]
  split
  · exact before_of_phase rfl (lex_of_lt (by simp [h, finish, Phase.rank]))
  · rename_i hc
    refine Prod.Lex.left _ _ ?_
    simp only [not_or] at hc
    simp only
    omega

theorem answered_before {t : Tick} {c : Call} (h : t.call? = some c) (reply : Reply) :
    Before (t.answered reply).rank t.rank := by
  unfold call? at h
  split at h <;> rename_i hp
  · simp only [answered, hp]
    exact register_before hp (by cases reply <;> rfl)
  · simp only [answered, hp]
    exact withdraw_before hp (by cases reply <;> rfl)
  · simp only [answered, hp]
    cases reply with
    | yes => exact before_of_phase rfl (lex_of_lt (by simp [hp, Phase.rank]))
    | no => exact forgotten_before hp
    | failed => exact before_of_phase rfl (lex_of_lt (by simp [hp, finish, Phase.rank]))
  · cases h
  · cases h

theorem step_before (w : World σ) {t : Tick} (s : σ) (h : t.phase ≠ .finished) :
    Before (step w t s).1.rank t.rank := by
  unfold step
  split
  · rename_i hp; exact scanned_before hp _
  · rename_i hc _; exact answered_before hc _
  · rename_i hs hc
    cases hp : t.phase <;> simp_all [call?]

def run (w : World σ) (t : Tick) (s : σ) : Tick × σ :=
  if t.phase = .finished then (t, s) else run w (step w t s).1 (step w t s).2
termination_by t.rank
decreasing_by exact step_before w s (by assumption)

end PeerShare.Tick
