import PeerShare.Proofs.Agent.Loss
import PeerShare.Proofs.Agent.Pass

/-!
When a tick brings the registry in step with the folder. The folder may change, time may pass,
sweeps may come and ticks may run in any order; calls may fail, but not in the tick in question. A
tick that the registry has confirmed shows every file that is in the folder, except those that the
agent took for listed while their rows were gone, and these only if it found another file that was
not lost: then the registry still knows the agent, and the agent learns nothing of its loss.
-/

namespace PeerShare.Scene

/-- The file is listed for the agent, and is found by searches for its name and by its number. -/
def Shows (s : Scene) (n : String) : Prop :=
  ∃ q ∈ s.registry.store.table.listings, q.offer = s.agent.offer n ∧ q.owner = s.agent.peer ∧
    (∀ query, Table.matchesQuery query n = true →
      ∃ hits, s.registry.search s.now query = .ok hits ∧ q.hit ∈ hits) ∧
    s.registry.resolveOwner s.now q.id = .ok (some q.offer)

section Ticks
variable {s s' : Scene} {present : Names} {n : String}

theorem not_due_iff : ¬ s.Due s.agent.known n ↔ s.Lost n := by
  rw [Due, Lost, not_or, not_not, and_comm]

theorem shows_iff_of_confirmed (h : Confirmed s s') : s'.Shows n ↔ s.Offers n := by
  have has : s'.registry.store.table.Has (s'.agent.offer n) s'.agent.peer s'.now ↔ s.Offers n := by
    rw [h.rows, h.setting.agent, h.setting.now]
    simp only [true_and, Offers]
  rw [← has]
  constructor
  · intro hrow
    obtain ⟨q, hq, ho, hp, -⟩ := hrow
    obtain ⟨-, hs, -⟩ := (h.rows _ _ _).mp ⟨q, hq, ho, hp, rfl⟩
    exact ⟨q, hq, ho, hp, hs.trans h.setting.now.symm⟩
  · intro hrow
    obtain ⟨q, hq, ho, hp, hs⟩ := hrow
    refine ⟨q, hq, ho, hp, fun query hm => ?_, ?_⟩
    · exact Registry.search_shows h.outage hq hs (ho ▸ hm)
    · exact Registry.resolveOwner_shows h.outage h.table hq hs

theorem offers_iff_of_confirmed (h : Confirmed s s') : s'.Offers n ↔ s.Offers n := by
  constructor
  · intro hrow
    obtain ⟨p, seen, hh⟩ := hrow
    have := ((h.rows _ _ _).mp hh).2.2
    rwa [h.setting.agent] at this
  · intro ho
    exact ⟨s.agent.peer, s.now, (h.rows _ _ _).mpr ⟨rfl, rfl, h.setting.agent.symm ▸ ho⟩⟩

def ended (s : Scene) : Scene := (Tick.run world s.agent.tick s).2

theorem agent_ended (s : Scene) : s.ended.agent = s.agent :=
  (sameSetting_run s.agent.tick s).agent

theorem shows_tick : s.tick.2.Shows n ↔ s.ended.Shows n := by
  unfold Shows
  rw [agent_ended]
  rfl

theorem offers_tick : s.tick.2.Offers n ↔ s.ended.Offers n := by
  unfold Offers
  rw [agent_ended]
  rfl

/-- How a confirmed tick in which nothing failed ends: after its first pass, if it found a file
that was not lost, with the files that were not; else after a second pass with all files. -/
theorem tick_cases (ho : s.Orderly s.agent.known)
    (hs : Share.scan s.files s.share = .ok present) (hne : present ≠ [])
    (hf : s.tick.1.failures = 0) (hn : s.tick.1.renewed = some true) :
    ∃ s₁, Confirmed s₁ s.ended ∧
      (((∃ m ∈ present, ¬ s.Lost m) ∧ s.tick.1.resyncs = 0 ∧
        ∀ n ∈ present, s₁.Offers n ↔ ¬ s.Lost n) ∨
      ((∀ m ∈ present, s.Lost m) ∧ s.tick.1.resyncs = 1 ∧ ∀ n ∈ present, s₁.Offers n)) := by
  have hdue (n : String) : s.Due s.agent.tick.known n ↔ ¬ s.Lost n :=
    (not_iff_comm.mp not_due_iff).symm
  rcases run_pass (t := s.agent.tick) rfl ho hs hne hf hn with
    ⟨⟨m, hm, hd⟩, ⟨s₁, -, hc, hoff⟩, hr⟩ | ⟨hall, u, s₁, ha, hrun, hr⟩
  · exact ⟨s₁, hc, .inl ⟨⟨m, hm, (hdue m).mp hd⟩, hr, fun n hn => (hoff n hn).trans (hdue n)⟩⟩
  · have hs₁ : Share.scan s₁.files s₁.share = .ok present := by
      rw [ha.setting.files, ha.setting.share, hs]
    have due (n : String) : s₁.Due u.known n := .inr (by rw [ha.known]; exact List.not_mem_nil)
    obtain ⟨m, hm⟩ := List.exists_mem_of_ne_nil present hne
    rcases run_pass ha.phase ha.orderly hs₁ hne (hrun ▸ hf) (hrun ▸ hn) with
      ⟨-, ⟨s₂, -, hc, hoff⟩, hr'⟩ | ⟨hnone, -⟩
    · refine ⟨s₂, ?_, .inr ⟨fun m hm => ?_, ?_, fun n hn => (hoff n hn).mpr (due n)⟩⟩
      · rw [ended, hrun]
        exact hc
      · exact not_due_iff.mp (hall m hm)
      · show (Tick.run world s.agent.tick s).1.report.resyncs = 1
        rw [hrun, hr', hr]
        rfl
    · exact absurd (due m) (hnone m hm)

end Ticks

/-- Which files a confirmed tick shows, in any run from the beginning: all of them but those that
were lost before, and those too unless it found a file that was not. What it does not show has no
row; after a second pass it shows everything; and what was lost had a row that a sweep has taken. -/
theorem tick_shows_iff {s₀ s : Scene} (h₀ : s₀.Begins) (h : s₀.Reaches s) {present : Names}
    (hs : Share.scan s.files s.share = .ok present) (hf : s.tick.1.failures = 0)
    (hn : s.tick.1.renewed = some true) :
    (∀ n ∈ present, s.tick.2.Shows n ↔ ¬ (s.Lost n ∧ ∃ m ∈ present, ¬ s.Lost m)) ∧
    (∀ n ∈ present, ¬ s.tick.2.Shows n → ¬ s.tick.2.Offers n) ∧
    (s.tick.1.resyncs ≠ 0 → ∀ n ∈ present, s.tick.2.Shows n) ∧
    ∀ n, s.Lost n →
      ∃ s₁, s₀.Reaches s₁ ∧ s₁.Offers n ∧ s₁.swept.Lost n ∧ s₁.swept.Reaches s := by
  have lost (n : String) (hl : s.Lost n) :
      ∃ s₁, s₀.Reaches s₁ ∧ s₁.Offers n ∧ s₁.swept.Lost n ∧ s₁.swept.Reaches s := h.lost h₀ hl
  by_cases hne : present = []
  · subst hne
    exact ⟨by simp, by simp, by simp, lost⟩
  obtain ⟨s₁, hc, hcases⟩ := tick_cases (h.orderly h₀.orderly) hs hne hf hn
  have shows (n : String) : s.tick.2.Shows n ↔ s₁.Offers n :=
    shows_tick.trans (shows_iff_of_confirmed hc)
  refine ⟨fun n hm => ?_, fun n _ hno => ?_, fun hr n hm => ?_, lost⟩
  · rw [shows]
    rcases hcases with ⟨hex, -, hoff⟩ | ⟨hall, -, hoff⟩
    · rw [hoff n hm, not_and_or, or_iff_left (not_not.mpr hex)]
    · refine iff_of_true (hoff n hm) fun hlost => ?_
      obtain ⟨m, hm', hl⟩ := hlost.2
      exact hl (hall m hm')
  · rwa [offers_tick, offers_iff_of_confirmed hc, ← shows]
  · rw [shows]
    rcases hcases with ⟨-, h0, -⟩ | ⟨-, -, hoff⟩
    · exact absurd h0 hr
    · exact hoff n hm

/-! ### A loss that lasts -/

def tickWithin (k : Nat) (s : Scene) : Tick.Report × Scene :=
  let (t, s') := Tick.steps world k s.agent.tick s
  (t.report, { s' with agent := s.agent.after t })

theorem tick_eq_tickWithin {s : Scene} {k : Nat}
    (h : (Tick.steps world k s.agent.tick s).1.phase = .finished) : s.tick = s.tickWithin k := by
  simp only [tick, Agent.reconcile, Tick.run_eq_steps h, tickWithin]

def folderOf (names : List String) : Disk :=
  { nodes := ([Text.bytes "share"], .folder) ::
      names.map fun n => ([Text.bytes "share", Text.bytes n], .file [] Disk.defaultMode) }

def oneFile : Scene :=
  { agent := { peer := ⟨"p"⟩, address := "localhost", port := 9100 }
    registry := {}
    now := default
    share := ⟨"/share"⟩
    files := folderOf ["a.txt"] }

def minutesLater : Instant := (Instant.of? 181 0).getD default

def sweptFile : Scene :=
  let s := (oneFile.tickWithin 3).2
  let s := { s with now := minutesLater }
  let s := { s with registry := (s.registry.sweep s.now).2 }
  { s with files := folderOf ["a.txt", "b.txt"] }

theorem oneFile_reaches : oneFile.Reaches sweptFile := by
  have h : oneFile.Next (oneFile.tickWithin 3).2 := by
    rw [← tick_eq_tickWithin (by decide +kernel)]
    exact .tick _
  exact (((Relation.ReflTransGen.single h).tail (.wait _ minutesLater (by decide +kernel))).tail
    (.sweep _)).tail (.files _ _)

theorem sweptFile_scan :
    Share.scan sweptFile.files sweptFile.share = .ok ["a.txt", "b.txt"] := by
  decide +kernel

theorem sweptFile_tick : sweptFile.tick = sweptFile.tickWithin 3 :=
  tick_eq_tickWithin (by decide +kernel)

theorem sweptFile_report : sweptFile.tick.1 = { listed := 1, renewed := some true } := by
  rw [sweptFile_tick]
  decide +kernel

theorem tick_shows_iff_sweptFile : oneFile.Begins ∧ oneFile.Reaches sweptFile ∧
    sweptFile.tick.1.failures = 0 ∧ sweptFile.tick.1.renewed = some true ∧
    ∀ n ∈ ["a.txt", "b.txt"], sweptFile.tick.2.Shows n ↔
      ¬ (sweptFile.Lost n ∧ ∃ m ∈ ["a.txt", "b.txt"], ¬ sweptFile.Lost m) :=
  have begins : oneFile.Begins := ⟨rfl, rfl⟩
  have failures : sweptFile.tick.1.failures = 0 := by rw [sweptFile_report]
  have renewed : sweptFile.tick.1.renewed = some true := by rw [sweptFile_report]
  ⟨begins, oneFile_reaches, failures, renewed,
    (tick_shows_iff begins oneFile_reaches sweptFile_scan failures renewed).1⟩

/-- The registry confirms the agent, but the first file is not listed again. -/
theorem confirmed_tick_misses : oneFile.Begins ∧ oneFile.Reaches sweptFile ∧
    Share.scan sweptFile.files sweptFile.share = .ok ["a.txt", "b.txt"] ∧
    sweptFile.tick.1 = { listed := 1, renewed := some true } ∧
    ¬ sweptFile.tick.2.Offers "a.txt" ∧ ¬ sweptFile.tick.2.Shows "a.txt" := by
  have rows : sweptFile.tick.2.registry.store.table.listings.map (·.offer.fileName) =
      ["b.txt"] := by
    rw [sweptFile_tick]
    decide +kernel
  have none_named : ∀ q ∈ sweptFile.tick.2.registry.store.table.listings,
      q.offer ≠ sweptFile.tick.2.agent.offer "a.txt" := by
    intro q hq ho
    have hn := List.mem_map_of_mem (f := (·.offer.fileName)) hq
    rw [rows, List.mem_singleton] at hn
    rw [ho] at hn
    exact absurd hn (by decide : "a.txt" ≠ "b.txt")
  refine ⟨⟨rfl, rfl⟩, oneFile_reaches, sweptFile_scan, sweptFile_report, ?_, ?_⟩
  · intro hrow
    obtain ⟨p, t, q, hq, ho, -⟩ := hrow
    exact none_named q hq ho
  · intro hrow
    obtain ⟨q, hq, ho, -⟩ := hrow
    exact none_named q hq ho

end PeerShare.Scene
