import Mathlib.Tactic.SplitIfs
import PeerShare.Agent.Run

/-!
Ticks in any world: what every step keeps holds at the end, failures are never forgotten, and a
tick that has ended after some steps has ended there.
-/

namespace PeerShare.Tick

section Run
variable {σ : Type} {w : World σ} {t : Tick} {s : σ}

theorem run_finished (h : t.phase = .finished) : run w t s = (t, s) := by
  rw [run, if_pos h]

theorem run_step (h : t.phase ≠ .finished) :
    run w t s = run w (step w t s).1 (step w t s).2 := by
  rw [run, if_neg h]

theorem step_call {c : Call} (h : t.call? = some c) :
    step w t s = (t.answered (w.call c s).1, (w.call c s).2) := by
  cases hp : t.phase <;> simp only [call?, hp, reduceCtorEq, Option.some.injEq] at h <;>
    subst h <;> simp only [step, hp, call?]

theorem run_call {c : Call} (h : t.call? = some c) :
    run w t s = run w (t.answered (w.call c s).1) (w.call c s).2 := by
  have hp : t.phase ≠ .finished := fun hp => by simp only [call?, hp] at h; cases h
  rw [run_step hp, step_call h]

theorem run_invariant {P : Tick → σ → Prop}
    (kept : ∀ t s, t.phase ≠ .finished → P t s → P (step w t s).1 (step w t s).2) (h : P t s) :
    P (run w t s).1 (run w t s).2 := by
  induction t, s using run.induct w with
  | case1 t s hp => rwa [run_finished hp]
  | case2 t s hp ih => rw [run_step hp]; exact ih (kept t s hp h)

def steps (w : World σ) : Nat → Tick → σ → Tick × σ
  | 0, t, s => (t, s)
  | k + 1, t, s =>
    if t.phase = .finished then (t, s) else steps w k (step w t s).1 (step w t s).2

theorem run_eq_steps {k : Nat} (h : (steps w k t s).1.phase = .finished) :
    run w t s = steps w k t s := by
  induction k generalizing t s with
  | zero => exact run_finished h
  | succ k ih =>
    simp only [steps] at h ⊢
    split_ifs at h ⊢ with hp
    · exact run_finished hp
    · rw [run_step hp]
      exact ih h

end Run

/-! ### Known names -/

theorem known_withdraw (t : Tick) (ns : Names) : (t.withdraw ns).known = t.known := by
  cases ns <;> rfl

theorem known_register (t : Tick) (present ns : Names) :
    (t.register present ns).known = t.known := by
  cases ns with
  | nil => exact known_withdraw t _
  | cons => rfl

theorem known_scanned (t : Tick) (found : Option Names) : (t.scanned found).known = t.known := by
  match found with
  | none => rfl
  | some [] => rfl
  | some (n :: ns) => exact known_register t _ _

theorem known_forgotten (t : Tick) : t.forgotten.known = t.known ∨ t.forgotten.known = [] := by
  simp only [forgotten]
  split
  · exact .inl rfl
  · exact .inr rfl

section Known
variable {t : Tick} {name : String} {later present : Names}

theorem known_list (hp : t.phase = .list name later present) (reply : Reply) :
    (t.answered reply).known =
      if reply = .failed then t.known else Names.insert name t.known := by
  simp only [answered, hp, known_register]
  cases reply <;> rfl

theorem known_delist (hp : t.phase = .delist name later) (reply : Reply) :
    (t.answered reply).known =
      if reply = .failed then t.known else Names.erase name t.known := by
  simp only [answered, hp, known_withdraw]
  cases reply <;> rfl

theorem known_heartbeat (hp : t.phase = .heartbeat) (reply : Reply) :
    (t.answered reply).known = t.known ∨ reply = .no ∧ (t.answered reply).known = [] := by
  simp only [answered, hp]
  cases reply with
  | yes => exact .inl rfl
  | failed => exact .inl rfl
  | no => exact (known_forgotten t).imp_right fun h => ⟨rfl, h⟩

end Known

/-! ### Failures -/

section Failures
variable {σ : Type} {w : World σ} {t : Tick} {s : σ}

theorem failures_withdraw (t : Tick) (ns : Names) :
    (t.withdraw ns).report.failures = t.report.failures := by
  cases ns <;> rfl

theorem failures_register (t : Tick) (present ns : Names) :
    (t.register present ns).report.failures = t.report.failures := by
  cases ns with
  | nil => exact failures_withdraw t _
  | cons => rfl

theorem failures_scanned (t : Tick) (found : Option Names) :
    t.report.failures ≤ (t.scanned found).report.failures := by
  match found with
  | none => exact Nat.le_succ _
  | some [] => exact Nat.le_refl _
  | some (n :: ns) => exact Nat.le_of_eq (failures_register t _ _).symm

theorem failures_answered (t : Tick) (reply : Reply) :
    t.report.failures ≤ (t.answered reply).report.failures := by
  unfold answered
  split
  · refine Nat.le_trans ?_ (Nat.le_of_eq (failures_register _ _ _).symm)
    cases reply <;> first | exact Nat.le_refl _ | exact Nat.le_succ _
  · refine Nat.le_trans ?_ (Nat.le_of_eq (failures_withdraw _ _).symm)
    cases reply <;> first | exact Nat.le_refl _ | exact Nat.le_succ _
  · cases reply with
    | yes => exact Nat.le_refl _
    | no =>
      simp only [forgotten]
      split <;> exact Nat.le_refl _
    | failed => exact Nat.le_succ _
  · exact Nat.le_refl _
  · exact Nat.le_refl _

theorem failures_run : t.report.failures ≤ (run w t s).1.report.failures := by
  refine run_invariant (P := fun u _ => t.report.failures ≤ u.report.failures) ?_ (Nat.le_refl _)
  intro u s _ h
  refine Nat.le_trans h ?_
  unfold step
  split
  · exact failures_scanned u _
  · exact failures_answered u _
  · exact Nat.le_refl _

end Failures

/-! ### Answers -/

section Answers
variable {t : Tick} {reply : Reply} {name : String} {later present : Names}

theorem answered_list (hp : t.phase = .list name later present) (hr : reply ≠ .failed) :
    ∃ u : Tick, t.answered reply = u.register present later ∧
      u.known = Names.insert name t.known ∧ u.report.resyncs = t.report.resyncs := by
  simp only [answered, hp]
  cases reply with
  | failed => exact absurd rfl hr
  | _ => exact ⟨_, rfl, rfl, rfl⟩

theorem answered_delist (hp : t.phase = .delist name later) (hr : reply ≠ .failed) :
    ∃ u : Tick, t.answered reply = u.withdraw later ∧
      u.known = Names.erase name t.known ∧ u.report.resyncs = t.report.resyncs := by
  simp only [answered, hp]
  cases reply with
  | failed => exact absurd rfl hr
  | _ => exact ⟨_, rfl, rfl, rfl⟩

theorem failures_failed {c : Call} (h : t.call? = some c) :
    (t.answered .failed).report.failures = t.report.failures + 1 := by
  unfold call? at h
  split at h <;> rename_i hp
  · simp only [answered, hp, failures_register]; rfl
  · simp only [answered, hp, failures_withdraw]; rfl
  · simp only [answered, hp]; rfl
  · cases h
  · cases h

theorem reply_ne_failed {σ : Type} {w : World σ} {s : σ} {c : Call} (h : t.call? = some c)
    (hf : (run w t s).1.report.failures = 0) : (w.call c s).1 ≠ .failed := by
  intro hr
  rw [run_call h, hr] at hf
  have hle := failures_run (w := w) (t := t.answered .failed) (s := (w.call c s).2)
  rw [failures_failed h] at hle
  omega

end Answers
end PeerShare.Tick
