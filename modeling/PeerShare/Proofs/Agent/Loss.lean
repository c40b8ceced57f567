import Mathlib.Logic.Relation
import PeerShare.Proofs.Agent.Scene

/-!
What can happen to an agent and its registry, and how the agent comes to know files that have no
row. It never does so by a tick, whatever fails in it, nor by time or by changes of the folder: such
a file had a row, and a sweep has taken it.
-/

namespace PeerShare.Scene

def Missing (s : Scene) (known : Names) (n : String) : Prop := n ∈ known ∧ ¬ s.Offers n

/-- The agent takes the file for listed, but it has no row. -/
def Lost (s : Scene) (n : String) : Prop := n ∈ s.agent.known ∧ ¬ s.Offers n

inductive Next : Scene → Scene → Prop
  | files (s : Scene) (d : Disk) : Next s { s with files := d }
  | wait (s : Scene) (later : Instant) (forward : s.now ≤ later) : Next s { s with now := later }
  | sweep (s : Scene) : Next s { s with registry := (s.registry.sweep s.now).2 }
  | tick (s : Scene) : Next s s.tick.2

def Reaches : Scene → Scene → Prop := Relation.ReflTransGen Next

def swept (s : Scene) : Scene := { s with registry := (s.registry.sweep s.now).2 }

structure Begins (s : Scene) : Prop where
  known : s.agent.known = []
  table : s.registry.store.table = Table.empty

section Runs
variable {s₀ s s' : Scene} {t : Tick} {known : Names} {n : String}

theorem sweep_operate (r : Registry) (now : Instant) :
    (r.sweep now).2 = (r.operate now .reap).2 := by
  unfold Registry.sweep
  simp only [Registry.operate, Registry.operate.answered]
  rcases r.reap now with ⟨_ | n, r'⟩ <;> rfl

theorem Begins.orderly (h : s.Begins) : s.Orderly s.agent.known := by
  refine ⟨h.table ▸ .empty, fun k p t hh => ?_⟩
  rw [h.table] at hh
  obtain ⟨q, hq, -⟩ := hh
  cases hq

theorem Next.orderly (h : s.Next s') (ho : s.Orderly s.agent.known) :
    s'.Orderly s'.agent.known := by
  cases h with
  | files d => exact ho
  | wait later forward => exact Registry.Orderly.mono ho (fun _ => id) forward
  | sweep =>
    have hk : (s.registry.operate s.now .reap).2.Orderly s.agent s.agent.known s.now :=
      Registry.Orderly.keep ho fun _ _ hc => by cases hc
    rw [← sweep_operate] at hk
    exact hk
  | tick =>
    have hr := orderly_run (t := s.agent.tick) ho
    unfold Scene.Orderly at hr
    rw [(sameSetting_run s.agent.tick s).agent] at hr
    exact ⟨hr.table, hr.rows⟩

theorem Reaches.orderly (h : s.Reaches s') (ho : s.Orderly s.agent.known) :
    s'.Orderly s'.agent.known := by
  induction h with
  | refl => exact ho
  | tail _ hn ih => exact hn.orderly ih

/-! ### Where losses come from -/

theorem offers_call_of_kept (ho : s.Orderly known) {c : Call}
    (hk : ∀ p seen, (s.registry.entry s.now (c.operation s.agent)).removes s.registry.policy
      (s.agent.offer n) p seen = false) (h : s.Offers n) : (world.call c s).2.Offers n := by
  rw [world_call]
  exact Registry.offers_of_kept ho.table hk h

theorem missing_list {name : String} {later present : Names}
    (hp : t.phase = .list name later present) (ho : s.Orderly t.known)
    (hm : (world.call (.list name) s).2.Missing
      (t.answered (world.call (.list name) s).1).known n) : s.Missing t.known n := by
  obtain ⟨hk, hn⟩ := hm
  refine ⟨?_, fun h => hn (offers_call_of_kept ho (fun _ _ => Registry.removes_list rfl) h)⟩
  rw [Tick.known_list hp] at hk
  split_ifs at hk with hr
  · exact hk
  · rcases Names.mem_insert.mp hk with rfl | hk
    · exact absurd ((offers_call_list ho hr).mpr (.inr rfl)) hn
    · exact hk

theorem missing_delist {name : String} {later : Names} (hp : t.phase = .delist name later)
    (ho : s.Orderly t.known)
    (hm : (world.call (.delist name) s).2.Missing
      (t.answered (world.call (.delist name) s).1).known n) : s.Missing t.known n := by
  obtain ⟨hk, hn⟩ := hm
  rw [Tick.known_delist hp] at hk
  split_ifs at hk with hr
  · refine ⟨hk, fun h => hn (offers_call_of_kept ho (fun _ _ => ?_) h)⟩
    rcases failed_or_done (.delist name) s with ⟨-, hd⟩ | ⟨hf, -⟩
    · exact Registry.removes_of_not_done hd
    · exact absurd hr hf
  · obtain ⟨hk, hne⟩ := Names.mem_erase.mp hk
    exact ⟨hk, fun h => hn ((offers_call_delist ho hr).mpr ⟨h, hne⟩)⟩

theorem missing_heartbeat (hp : t.phase = .heartbeat) (ho : s.Orderly t.known)
    (hm : (world.call .heartbeat s).2.Missing
      (t.answered (world.call .heartbeat s).1).known n) : s.Missing t.known n := by
  obtain ⟨hk, hn⟩ := hm
  refine ⟨?_, fun h => hn (offers_call_of_kept ho (fun _ _ => Registry.removes_heartbeat rfl) h)⟩
  rcases Tick.known_heartbeat hp (world.call .heartbeat s).1 with he | ⟨-, he⟩
  · rwa [he] at hk
  · rw [he] at hk
    exact absurd hk List.not_mem_nil

theorem missing_step (ho : s.Orderly t.known)
    (hm : (Tick.step world t s).2.Missing (Tick.step world t s).1.known n) :
    s.Missing t.known n := by
  cases hp : t.phase with
  | scan =>
    simp only [Tick.step, hp, Tick.known_scanned] at hm
    exact hm
  | list name later present =>
    simp only [Tick.step, hp, Tick.call?] at hm
    exact missing_list hp ho hm
  | delist name later =>
    simp only [Tick.step, hp, Tick.call?] at hm
    exact missing_delist hp ho hm
  | heartbeat =>
    simp only [Tick.step, hp, Tick.call?] at hm
    exact missing_heartbeat hp ho hm
  | finished =>
    simp only [Tick.step, hp, Tick.call?] at hm
    exact hm

theorem missing_run (ho : s.Orderly t.known)
    (hm : (Tick.run world t s).2.Missing (Tick.run world t s).1.known n) :
    s.Missing t.known n := by
  have h := Tick.run_invariant (w := world)
    (P := fun u s' => s'.Orderly u.known ∧ (s'.Missing u.known n → s.Missing t.known n))
    (fun u s' _ h => ⟨orderly_step h.1, fun hm => h.2 (missing_step h.1 hm)⟩) ⟨ho, id⟩
  exact h.2 hm

theorem Next.lost (h : s.Next s') (ho : s.Orderly s.agent.known) (hl : s'.Lost n) :
    s.Lost n ∨ s' = s.swept ∧ s.Offers n := by
  cases h with
  | files d => exact .inl hl
  | wait later forward => exact .inl hl
  | sweep =>
    by_cases hn : s.Offers n
    · exact .inr ⟨rfl, hn⟩
    · exact .inl ⟨hl.1, hn⟩
  | tick =>
    have hm : (Tick.run world s.agent.tick s).2.Missing
        (Tick.run world s.agent.tick s).1.known n := by
      refine ⟨hl.1, fun h => hl.2 ?_⟩
      unfold Offers at h
      rw [(sameSetting_run s.agent.tick s).agent] at h
      exact h
    exact .inl (missing_run (t := s.agent.tick) ho hm)

theorem Reaches.lost (h : s₀.Reaches s) (h₀ : s₀.Begins) (hl : s.Lost n) :
    ∃ s₁, s₀.Reaches s₁ ∧ s₁.Offers n ∧ s₁.swept.Lost n ∧ s₁.swept.Reaches s := by
  induction h with
  | refl =>
    have hk := hl.1
    rw [h₀.known] at hk
    exact absurd hk List.not_mem_nil
  | tail hr hn ih =>
    rcases hn.lost (Reaches.orderly hr h₀.orderly) hl with hb | ⟨rfl, ho⟩
    · obtain ⟨s₁, h₁, ho, hs, hb⟩ := ih hb
      exact ⟨s₁, h₁, ho, hs, hb.tail hn⟩
    · exact ⟨_, hr, ho, hl, .refl⟩

end Runs
end PeerShare.Scene
