import PeerShare.Proofs.Agent.Run
import PeerShare.Proofs.Names

/-!
A pass in any world, when no call of it fails. It lists what it found and did not know, name by
name, withdraws what it knew and did not find, knows then what it found, and renews.
-/

namespace PeerShare.Tick

namespace World
variable {σ : Type} {w : World σ} {s : σ} {cs ds : List Call}

def after (w : World σ) (cs : List Call) (s : σ) : σ := cs.foldl (fun s c => (w.call c s).2) s

def Heard (w : World σ) : List Call → σ → Prop
  | [], _ => True
  | c :: cs, s => (w.call c s).1 ≠ .failed ∧ w.Heard cs (w.call c s).2

theorem after_append : w.after (cs ++ ds) s = w.after ds (w.after cs s) := List.foldl_append

theorem heard_append : w.Heard (cs ++ ds) s ↔ w.Heard cs s ∧ w.Heard ds (w.after cs s) := by
  induction cs generalizing s with
  | nil => exact (true_and _).symm.to_iff
  | cons c cs ih =>
    have hrest := ih (s := (w.call c s).2)
    simp only [List.cons_append, Heard, hrest, and_assoc]
    rfl

theorem after_invariant {P : σ → Prop} (kept : ∀ c ∈ cs, ∀ s, P s → P (w.call c s).2) (h : P s) :
    P (w.after cs s) := by
  induction cs generalizing s with
  | nil => exact h
  | cons c cs ih =>
    have hc := kept c List.mem_cons_self s h
    exact ih (fun d hd => kept d (List.mem_cons_of_mem _ hd)) hc

theorem heard_of_invariant {P : σ → Prop} (kept : ∀ c ∈ cs, ∀ s, P s → P (w.call c s).2)
    (heard : ∀ c ∈ cs, ∀ s, P s → (w.call c s).1 ≠ .failed) (h : P s) : w.Heard cs s := by
  induction cs generalizing s with
  | nil => trivial
  | cons c cs ih =>
    have hc := kept c List.mem_cons_self s h
    exact ⟨heard c List.mem_cons_self s h, ih (fun d hd => kept d (List.mem_cons_of_mem _ hd))
      (fun d hd => heard d (List.mem_cons_of_mem _ hd)) hc⟩

end World

section Stages
variable {t : Tick} {name : String} {later present ns : Names} {reply : Reply}

theorem withdraw_phase (t : Tick) (p : Phase) (ns : Names) :
    ({ t with phase := p } : Tick).withdraw ns = t.withdraw ns := by
  cases ns <;> rfl

theorem register_phase (t : Tick) (p : Phase) (present ns : Names) :
    ({ t with phase := p } : Tick).register present ns = t.register present ns := by
  cases ns with
  | nil => exact withdraw_phase t p _
  | cons => rfl

def listed (t : Tick) (ns : Names) : Tick :=
  { t with known := Names.insertAll ns t.known, report.listed := t.report.listed + ns.length }

def withdrawn (t : Tick) (ns : Names) : Tick :=
  { t with known := Names.eraseAll ns t.known, report.delisted := t.report.delisted + ns.length }

theorem listed_cons (t : Tick) (name : String) (later : Names) :
    t.listed (name :: later) = (t.listed [name]).listed later := by
  have hsum : t.report.listed + (later.length + 1) = t.report.listed + 1 + later.length := by omega
  simp only [listed, List.length_cons, List.length_nil, hsum]
  rfl

theorem withdrawn_cons (t : Tick) (name : String) (later : Names) :
    t.withdrawn (name :: later) = (t.withdrawn [name]).withdrawn later := by
  have hsum : t.report.delisted + (later.length + 1) = t.report.delisted + 1 + later.length := by
    omega
  simp only [withdrawn, List.length_cons, List.length_nil, hsum]
  rfl

theorem answered_register (hr : reply ≠ .failed) :
    (t.register present (name :: later)).answered reply = (t.listed [name]).register present later := by
  have hp := register_phase (t.listed [name]) (.list name later present) present later
  rw [← hp]
  cases reply with
  | failed => exact absurd rfl hr
  | _ => rfl

theorem answered_withdraw (hr : reply ≠ .failed) :
    (t.withdraw (name :: later)).answered reply = (t.withdrawn [name]).withdraw later := by
  have hp := withdraw_phase (t.withdrawn [name]) (.delist name later) later
  rw [← hp]
  cases reply with
  | failed => exact absurd rfl hr
  | _ => rfl

end Stages

section Passes
variable {σ : Type} {w : World σ} {t : Tick} {s : σ} {present ns : Names}

theorem run_register (h : w.Heard (ns.map .list) s) : run w (t.register present ns) s =
    run w ((t.listed ns).withdraw (Names.diff (t.listed ns).known present))
      (w.after (ns.map .list) s) := by
  induction ns generalizing t s with
  | nil => rfl
  | cons name later ih =>
    have hc : (t.register present (name :: later)).call? = some (.list name) := rfl
    rw [run_call hc, answered_register h.1, ih h.2, ← listed_cons]
    rfl

theorem run_withdraw (h : w.Heard (ns.map .delist) s) : run w (t.withdraw ns) s =
    run w { t.withdrawn ns with phase := .heartbeat } (w.after (ns.map .delist) s) := by
  induction ns generalizing t s with
  | nil => rfl
  | cons name later ih =>
    have hc : (t.withdraw (name :: later)).call? = some (.delist name) := rfl
    rw [run_call hc, answered_withdraw h.1, ih h.2, ← withdrawn_cons]
    rfl

def calls (present known : Names) : List Call :=
  (Names.diff present known).map .list ++ (Names.diff known present).map .delist

def settled (t : Tick) (present : Names) : Tick where
  known := Names.settle present t.known
  report := { t.report with
    listed := t.report.listed + (Names.diff present t.known).length
    delisted := t.report.delisted + (Names.diff t.known present).length }
  phase := .heartbeat

theorem diff_listed (t : Tick) (present : Names) :
    Names.diff (t.listed (Names.diff present t.known)).known present =
      Names.diff t.known present :=
  Names.diff_insertAll fun _ hn => (Names.mem_diff.mp hn).1

theorem run_scanned (hp : t.phase = .scan) (hs : w.scan s = (some present, s))
    (hne : present ≠ []) :
    run w t s = run w (t.register present (Names.diff present t.known)) s := by
  have hnot : t.phase ≠ .finished := by rw [hp]; exact fun h => by cases h
  rw [run_step hnot]
  simp only [step, hp, hs]
  cases present with
  | nil => exact absurd rfl hne
  | cons n ns => rfl

theorem run_settled (hp : t.phase = .scan) (hs : w.scan s = (some present, s))
    (hne : present ≠ []) (hh : w.Heard (calls present t.known) s) :
    run w t s = run w (t.settled present) (w.after (calls present t.known) s) := by
  obtain ⟨hl, hd⟩ := World.heard_append.mp hh
  rw [run_scanned hp hs hne, run_register hl, diff_listed, run_withdraw hd, calls,
    World.after_append]
  rfl

end Passes
end PeerShare.Tick
