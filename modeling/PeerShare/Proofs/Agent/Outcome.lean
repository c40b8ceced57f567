import PeerShare.Proofs.Agent.Convergence
import PeerShare.Proofs.Agent.Undisturbed
import PeerShare.Proofs.Registry.Reach

/-!
What a tick comes to when nothing stands in its way and nobody else acts. The first pass lists and
withdraws; if the agent's peer then owns no row at all, another pass lists the whole folder, and it
is the last if it finds an offer free. If others hold every offer, each pass leaves the rows as they
were, and the tick gives up at the limit.
-/

namespace PeerShare.Timed

section Passes
variable {a : Agent} {present : Names} {s : Timed} {t : Tick} {n : String} {k : Offer}

def relisted (t : Tick) (present : Names) : Tick where
  known := present
  report := { t.report with listed := t.report.listed + present.length }
  phase := .heartbeat

theorem forgotten_again (hk : t.known ≠ []) (hr : t.report.resyncs < Tick.resyncLimit) :
    t.forgotten = { known := [], phase := .scan, report := { t.report with
      renewed := some false, resyncs := t.report.resyncs + 1 } } := by
  have hgoes : ¬ (t.known = [] ∨ Tick.resyncLimit ≤ t.report.resyncs) :=
    not_or.mpr ⟨hk, Nat.not_le_of_lt hr⟩
  exact if_neg hgoes

theorem forgotten_at_limit (hr : Tick.resyncLimit ≤ t.report.resyncs) :
    t.forgotten = { t with phase := .finished, report.renewed := some false } :=
  if_pos (.inr hr)

theorem run_pass (h : s.Fit a present) (hne : present ≠ []) (hp : t.phase = .scan) :
    Tick.run world t s =
      Tick.run world (t.settled present) (world.after (Tick.calls present t.known) s) := by
  have hscan : world.scan s = (some present, s) := by
    simp only [world, Scene.world, h.scan]
    rfl
  exact Tick.run_settled hp hscan hne (h.heard (proper_calls present t.known))

theorem run_pass_unknown (h : s.Fit a present) (hne : present ≠ []) (hp : t.phase = .scan)
    (hk : t.known = []) : Tick.run world t s =
      Tick.run world (relisted t present) (world.after (present.map .list) s) := by
  have hdiff : Names.diff present [] = present := List.filter_eq_self.mpr fun _ _ => rfl
  have hknown : Names.settle present [] = present :=
    Names.settle_eq List.Pairwise.nil (Share.scan_ok h.scan).1
  have hcalls : Tick.calls present [] = present.map .list := by
    rw [Tick.calls, hdiff]
    exact List.append_nil _
  have hsettled : t.settled present = relisted t present := by
    simp only [Tick.settled, hk, hknown, hdiff]
    rfl
  rw [run_pass h hne hp, hk, hcalls, hsettled]

theorem run_heartbeat (h : s.Fit a present) (hp : t.phase = .heartbeat) :
    (s.Owns a.peer ∧ Tick.run world t s =
      ({ t with report.renewed := some true, phase := .finished }, (world.call .heartbeat s).2)) ∨
    (¬ s.Owns a.peer ∧
      Tick.run world t s = Tick.run world t.forgotten (world.call .heartbeat s).2) := by
  have hcall : t.call? = some .heartbeat := by simp only [Tick.call?, hp]
  rw [Tick.run_call hcall]
  rcases heartbeat_reply h with ⟨hr, hown⟩ | ⟨hr, hown⟩
  · refine .inl ⟨hown, ?_⟩
    simp only [hr, Tick.answered, hp]
    exact Tick.run_finished rfl
  · refine .inr ⟨hown, ?_⟩
    simp only [hr, Tick.answered, hp]

theorem owns_heartbeat (h : s.Fit a present) {p : PeerId} :
    (world.call .heartbeat s).2.Owns p ↔ s.Owns p :=
  exists_congr fun _ => heldBy_heartbeat h

def Live (s : Timed) (a : Agent) (n : String) : Prop :=
  ∃ q ∈ s.table.listings, q.offer = a.offer n ∧ q.owner = a.peer ∧
    q.isAlive s.scene.now s.scene.registry.policy.ttl = true

theorem live_of_renewed (h : s.Fit a present) (hh : s.table.HeldBy (a.offer n) a.peer) :
    (world.call .heartbeat s).2.Live a n := by
  have hdone := done_of_proper (c := .heartbeat) h trivial
  obtain ⟨seen, hs, hle⟩ := Registry.heldBy_renewed h.available.table hdone hh
  have htable := table_call h .heartbeat
  rw [← show Call.heartbeat.operation a = .heartbeat a.peer from rfl, ← htable] at hs
  obtain ⟨q, hq, ho, hp, rfl⟩ := hs
  exact ⟨q, hq, ho, hp, Listing.isAlive_iff.mpr (Instant.within_of_le hle)⟩

/-- The peer owns nothing, and no offer of the folder is free. -/
structure Stuck (a : Agent) (present : Names) (s : Timed) : Prop where
  fit : s.Fit a present
  none_owned : ¬ s.Owns a.peer
  full : ∀ n ∈ present, ¬ s.table.Lacks (a.offer n)

theorem Stuck.heartbeat (h : s.Stuck a present) :
    (world.call .heartbeat s).2.Stuck a present where
  fit := h.fit.call (c := .heartbeat) trivial
  none_owned := mt (owns_heartbeat h.fit).mp h.none_owned
  full := fun n hn => mt (lacks_heartbeat h.fit).mp (h.full n hn)

theorem run_stuck_pass (h : s.Stuck a present) (hne : present ≠ []) (hp : t.phase = .scan)
    (hk : t.known = []) : ∃ s', s'.Stuck a present ∧
      Tick.run world t s = Tick.run world (relisted t present).forgotten s' := by
  have hproper : ∀ c ∈ present.map Call.list, Proper present c := proper_list fun _ => id
  have hfit := h.fit.after hproper
  have hsame {k : Offer} {q : PeerId} :
      (world.after (present.map .list) s).table.HeldBy k q ↔ s.table.HeldBy k q :=
    heldBy_after_full h.fit (fun _ => id) h.full
  have hnone : ¬ (world.after (present.map .list) s).Owns a.peer := by
    intro hown
    obtain ⟨k, hk⟩ := hown
    exact h.none_owned ⟨k, hsame.mp hk⟩
  have hfull : ∀ n ∈ present, ¬ (world.after (present.map .list) s).table.Lacks (a.offer n) :=
    fun n hn => not_lacks_after h.fit hproper hn (h.full n hn)
  rw [run_pass_unknown h.fit hne hp hk]
  rcases run_heartbeat hfit (t := relisted t present) rfl with ⟨hown, -⟩ | ⟨-, hrun⟩
  · exact absurd hown hnone
  · exact ⟨_, Stuck.heartbeat ⟨hfit, hnone, hfull⟩, hrun⟩

theorem run_stuck (h : s.Stuck a present) (hne : present ≠ []) (hp : t.phase = .scan)
    (hk : t.known = []) (hr : t.report.resyncs ≤ Tick.resyncLimit) :
    (Tick.run world t s).1 = { known := present, phase := .finished, report := { t.report with
      listed := t.report.listed + (Tick.resyncLimit + 1 - t.report.resyncs) * present.length
      resyncs := Tick.resyncLimit, renewed := some false } } := by
  induction hd : Tick.resyncLimit - t.report.resyncs generalizing t s with
  | zero =>
    have hlimit : t.report.resyncs = Tick.resyncLimit := by omega
    have hone : Tick.resyncLimit + 1 - t.report.resyncs = 1 := by omega
    obtain ⟨s', -, hrun⟩ := run_stuck_pass h hne hp hk
    have hlast : (relisted t present).forgotten =
        { relisted t present with phase := .finished, report.renewed := some false } :=
      forgotten_at_limit hlimit.ge
    rw [hrun, hlast, Tick.run_finished rfl, hone, Nat.one_mul, ← hlimit]
    rfl
  | succ d ih =>
    have hless : t.report.resyncs < Tick.resyncLimit := by omega
    obtain ⟨s', hs', hrun⟩ := run_stuck_pass h hne hp hk
    have hagain := forgotten_again (t := relisted t present) hne hless
    have hsum : t.report.listed + present.length +
        (Tick.resyncLimit + 1 - (t.report.resyncs + 1)) * present.length =
        t.report.listed + (Tick.resyncLimit + 1 - t.report.resyncs) * present.length := by
      have hstep : Tick.resyncLimit + 1 - t.report.resyncs =
          Tick.resyncLimit + 1 - (t.report.resyncs + 1) + 1 := by omega
      rw [hstep, Nat.add_mul, Nat.one_mul]
      omega
    rw [hrun, hagain, ih hs']
    case hp => rfl
    case hk => rfl
    case hr => exact hless
    case hd => show Tick.resyncLimit - (t.report.resyncs + 1) = d; omega
    simp only [relisted, hsum]

theorem run_free (h : s.Fit a present) (hne : present ≠ []) (hp : t.phase = .scan)
    (hk : t.known = []) (hfree : ∃ n ∈ present, s.table.Lacks (a.offer n)) :
    (Tick.run world t s).1 =
      { relisted t present with phase := .finished, report.renewed := some true } ∧
    ∀ n ∈ present, (Tick.run world t s).2.Live a n ↔
      ∀ q, s.table.HeldBy (a.offer n) q → q = a.peer := by
  have hproper : ∀ c ∈ present.map Call.list, Proper present c := proper_list fun _ => id
  have hfit := h.after hproper
  have held : ∀ n ∈ present, ∃ q, (world.after (present.map .list) s).table.HeldBy (a.offer n) q :=
    fun n hn => Table.exists_heldBy (not_lacks_listed h (fun _ => id) hn)
  have own : ∀ n ∈ present, (∀ q, s.table.HeldBy (a.offer n) q → q = a.peer) →
      (world.after (present.map .list) s).table.HeldBy (a.offer n) a.peer := by
    intro n hn honly
    obtain ⟨q, hq⟩ := held n hn
    by_cases hpeer : q = a.peer
    · exact hpeer ▸ hq
    · exact absurd (honly q ((heldBy_after_other h hproper hpeer).mp hq)) hpeer
  obtain ⟨m, hm, hlack⟩ := hfree
  have howns : (world.after (present.map .list) s).Owns a.peer := by
    refine ⟨a.offer m, own m hm fun q hq => ?_⟩
    exact absurd hq (Table.lacks_iff_not_heldBy.mp hlack q)
  rw [run_pass_unknown h hne hp hk]
  rcases run_heartbeat hfit (t := relisted t present) rfl with ⟨-, hrun⟩ | ⟨hnone, -⟩
  · rw [hrun]
    refine ⟨rfl, fun n hn => ?_⟩
    constructor
    · intro hlive q hq
      obtain ⟨row, hrow, ho, hpeer, -⟩ := hlive
      by_contra hother
      have hq' := (heldBy_after_other h hproper hother).mpr hq
      have hend := (heldBy_heartbeat hfit).mpr hq'
      have hwf := (hfit.call (c := .heartbeat) trivial).available.table
      exact hother (hend.unique hwf ⟨row.lastSeen, row, hrow, ho, hpeer, rfl⟩)
    · intro honly
      exact live_of_renewed hfit (own n hn honly)
  · exact absurd howns hnone

end Passes

/-! ### A whole tick -/

def report (a : Agent) (present : Names) (resyncs : Nat) : Tick.Report where
  listed := (Names.diff present a.known).length + resyncs * present.length
  delisted := (Names.diff a.known present).length
  resyncs := resyncs
  renewed := some (resyncs < Tick.resyncLimit)

def settled (s : Timed) (present : Names) : Timed :=
  world.after (Tick.calls present s.scene.agent.known) s

def begun (a : Agent) (present : Names) : Tick :=
  ⟨present, { report a present 0 with renewed := none }, .heartbeat⟩

section Outcome
variable {s : Timed} {a : Agent} {present : Names}

theorem run_first (h : s.Fit a present) (ha : s.scene.agent = a) (hne : present ≠ [])
    (hk : a.known.Ordered) :
    Tick.run world a.tick s = Tick.run world (begun a present) (s.settled present) := by
  subst ha
  have hknown : Names.settle present s.scene.agent.known = present :=
    Names.settle_eq hk (Share.scan_ok h.scan).1
  have hbegun : s.scene.agent.tick.settled present = begun s.scene.agent present := by
    simp only [Tick.settled, Agent.tick, begun, hknown, report, Nat.zero_mul, Nat.zero_add,
      Nat.add_zero]
  rw [run_pass h hne rfl, hbegun]
  rfl

theorem run_tick (h : s.Fit a present) (ha : s.scene.agent = a) (hne : present ≠ [])
    (hk : a.known.Ordered) : ∃ r,
    (Tick.run world a.tick s).1 = ⟨present, report a present r, .finished⟩ ∧
    ((r = 0 ∧ (s.settled present).Owns a.peer) ∨
      (r = 1 ∧ ¬ (s.settled present).Owns a.peer ∧
        ∃ n ∈ present, (s.settled present).table.Lacks (a.offer n)) ∨
      (r = Tick.resyncLimit ∧ ¬ (s.settled present).Owns a.peer ∧
        ∀ n ∈ present, ¬ (s.settled present).table.Lacks (a.offer n))) ∧
    (r = 1 → ∀ n ∈ present, (Tick.run world a.tick s).2.Live a n ↔
      ∀ q, (s.settled present).table.HeldBy (a.offer n) q → q = a.peer) := by
  have hproper : ∀ c ∈ Tick.calls present s.scene.agent.known, Proper present c :=
    proper_calls present s.scene.agent.known
  have hfit : (s.settled present).Fit a present := h.after hproper
  have hzero : 0 < Tick.resyncLimit := by decide
  have hagain := forgotten_again (t := begun a present) hne hzero
  rw [run_first h ha hne hk]
  rcases run_heartbeat hfit (t := begun a present) rfl with ⟨hown, hend⟩ | ⟨hnone, hrest⟩
  · rw [hend]
    exact ⟨0, rfl, .inl ⟨rfl, hown⟩, fun hr => absurd hr (by decide)⟩
  rw [hrest, hagain]
  by_cases hfree : ∃ n ∈ present, (s.settled present).table.Lacks (a.offer n)
  · have hfit' := hfit.call (c := .heartbeat) trivial
    obtain ⟨hend, hlive⟩ := run_free hfit' hne (t := ⟨[], _, .scan⟩) rfl rfl
      (hfree.imp fun n hn => ⟨hn.1, (lacks_heartbeat hfit).mpr hn.2⟩)
    refine ⟨1, ?_, .inr (.inl ⟨rfl, hnone, hfree⟩), fun _ n hn => ?_⟩
    · rw [hend]
      simp only [relisted, begun, report, Nat.zero_mul, Nat.add_zero, Nat.one_mul]
      rfl
    · rw [hlive n hn]
      simp only [heldBy_heartbeat hfit]
  · have hfull : ∀ n ∈ present, ¬ (s.settled present).table.Lacks (a.offer n) :=
      fun n hn hl => hfree ⟨n, hn, hl⟩
    have hstuck := Stuck.heartbeat ⟨hfit, hnone, hfull⟩
    refine ⟨Tick.resyncLimit, ?_, .inr (.inr ⟨rfl, hnone, hfull⟩), fun hr => absurd hr (by decide)⟩
    rw [run_stuck hstuck hne]
    case hp => rfl
    case hk => rfl
    case hr => exact hzero
    simp only [begun, report, Nat.zero_mul, Nat.add_zero, Nat.zero_add, Nat.lt_irrefl]
    rfl

theorem heldBy_settled (h : s.Fit a present) (ha : s.scene.agent = a)
    (hknown : ∀ n ∈ present, n ∈ a.known) (hnone : ¬ s.Owns a.peer) {k : Offer} {q : PeerId} :
    (s.settled present).table.HeldBy k q ↔ s.table.HeldBy k q := by
  have hdiff : Names.diff present a.known = [] := by
    refine List.eq_nil_iff_forall_not_mem.mpr fun n hn => ?_
    obtain ⟨hn, hnot⟩ := Names.mem_diff.mp hn
    exact hnot (hknown n hn)
  have hcalls : Tick.calls present s.scene.agent.known =
      (Names.diff a.known present).map .delist := by
    rw [Tick.calls, ha, hdiff]
    rfl
  rw [settled, hcalls]
  exact heldBy_after_delist h (fun n hn => (Names.mem_diff.mp hn).2) hnone

end Outcome

/-- What comes of a tick, over every registry, folder and set of known names, whatever the clock
shows at the calls: no call fails, the files of the folder are known afterwards, and the tick begins
no new pass if the peer owns a row when the first one has listed and withdrawn, one if it owns none
and finds an offer of the folder free, and as many as it may if others hold them all. After one new
pass the peer has a live row for exactly the files whose offers no other peer held; and that is what
happens if it owned nothing, knew the whole folder, and found a file of it free. -/
theorem reconcile_outcome {s₀ : Store} {s : Timed} {present : Names} (h₀ : s₀.Fresh)
    (hreach : s₀.Reaches s.scene.registry.store) (hready : s.scene.registry.store.Ready)
    (hout : s.scene.registry.outage = none) (hroom : s.table.Room s.scene.agent present)
    (hknown : s.scene.agent.known.Ordered)
    (hscan : Share.scan s.scene.files s.scene.share = .ok present) (hne : present ≠ []) :
    ∃ r, (s.scene.agent.reconcile world s).1 = report s.scene.agent present r ∧
      (s.scene.agent.reconcile world s).2.1 = { s.scene.agent with known := present } ∧
      ((r = 0 ∧ (s.settled present).Owns s.scene.agent.peer) ∨
        (r = 1 ∧ ¬ (s.settled present).Owns s.scene.agent.peer ∧
          ∃ n ∈ present, (s.settled present).table.Lacks (s.scene.agent.offer n)) ∨
        (r = Tick.resyncLimit ∧ ¬ (s.settled present).Owns s.scene.agent.peer ∧
          ∀ n ∈ present, ∃ q, q ≠ s.scene.agent.peer ∧
            (s.settled present).table.HeldBy (s.scene.agent.offer n) q)) ∧
      (r = 1 → ∀ n ∈ present, (s.scene.agent.reconcile world s).2.2.Live s.scene.agent n ↔
        ∀ q, s.table.HeldBy (s.scene.agent.offer n) q → q = s.scene.agent.peer) ∧
      (¬ s.Owns s.scene.agent.peer → (∀ n ∈ present, n ∈ s.scene.agent.known) →
        (∃ n ∈ present, s.table.Lacks (s.scene.agent.offer n)) → r = 1) := by
  have hwf := (hreach.sound h₀.sound).table
  have hfit : s.Fit s.scene.agent present := ⟨rfl, hscan, ⟨hwf, hready, hout⟩, hroom⟩
  have hproper := proper_calls present s.scene.agent.known
  obtain ⟨r, hend, hcases, hlive⟩ := run_tick hfit rfl hne hknown
  refine ⟨r, congrArg Tick.report hend, ?_, ?_, fun hr n hn => ?_, fun hnone hall hfree => ?_⟩
  · exact congrArg (fun t : Tick => s.scene.agent.after t) hend
  · rcases hcases with h | h | ⟨hr, hnone, hfull⟩
    · exact .inl h
    · exact .inr (.inl h)
    · refine .inr (.inr ⟨hr, hnone, fun n hn => ?_⟩)
      obtain ⟨q, hq⟩ := Table.exists_heldBy (hfull n hn)
      exact ⟨q, fun he => hnone ⟨_, he ▸ hq⟩, hq⟩
  · refine (hlive hr n hn).trans (forall_congr' fun q => ?_)
    by_cases hq : q = s.scene.agent.peer
    · simp only [hq, implies_true]
    · have hsame : (s.settled present).table.HeldBy (s.scene.agent.offer n) q ↔
          s.table.HeldBy (s.scene.agent.offer n) q := heldBy_after_other hfit hproper hq
      rw [hsame]
  · have hsame {k : Offer} {q : PeerId} :
        (s.settled present).table.HeldBy k q ↔ s.table.HeldBy k q :=
      heldBy_settled hfit rfl hall hnone
    obtain ⟨m, hm, hlack⟩ := hfree
    have hlack' : (s.settled present).table.Lacks (s.scene.agent.offer m) := by
      rw [Table.lacks_iff_not_heldBy] at hlack ⊢
      exact fun q hq => hlack q (hsame.mp hq)
    rcases hcases with ⟨-, ⟨k, hk⟩⟩ | ⟨hr, -⟩ | ⟨-, -, hfull⟩
    · exact absurd ⟨k, hsame.mp hk⟩ hnone
    · exact hr
    · exact absurd hlack' (hfull m hm)

def halfHeld : Timed where
  scene :=
    { agent := ⟨⟨"q"⟩, "localhost", 80, ["a.txt", "b.txt"], false⟩
      registry := { store := Store.oneRow }
      now := default
      share := ⟨"/share"⟩
      files := Scene.folderOf ["a.txt", "b.txt"] }
  ahead := [Scene.minutesLater]

theorem reconcile_outcome_halfHeld : Store.newStore.Fresh ∧
    Store.newStore.Reaches halfHeld.scene.registry.store ∧
    halfHeld.scene.registry.store.Ready ∧ halfHeld.table.Room halfHeld.scene.agent ["a.txt", "b.txt"] ∧
    (halfHeld.scene.agent.reconcile world halfHeld).1 =
      { listed := 2, delisted := 0, failures := 0, resyncs := 1, renewed := some true } ∧
    (halfHeld.scene.agent.reconcile world halfHeld).2.2.Live halfHeld.scene.agent "b.txt" := by
  have ready : halfHeld.scene.registry.store.Ready := Store.newStore_ready.execute _
  have room : halfHeld.table.Room halfHeld.scene.agent ["a.txt", "b.txt"] := by
    unfold Table.Room
    decide +kernel
  have ordered : halfHeld.scene.agent.known.Ordered := by
    unfold Names.Ordered
    decide +kernel
  have scan : Share.scan halfHeld.scene.files halfHeld.scene.share = .ok ["a.txt", "b.txt"] := by
    decide +kernel
  obtain ⟨r, hreport, -, -, hlive, hone⟩ := reconcile_outcome Store.newStore_fresh
    Store.reaches_oneRow ready rfl room ordered scan (by decide)
  have rows : ∀ q ∈ halfHeld.table.listings, q.owner ≠ ⟨"q"⟩ ∧
      q.offer ≠ ⟨"b.txt", "localhost", 80⟩ := by decide +kernel
  have free : halfHeld.table.Lacks (halfHeld.scene.agent.offer "b.txt") := fun q hq => (rows q hq).2
  have none_owned : ¬ halfHeld.Owns halfHeld.scene.agent.peer := by
    intro hown
    obtain ⟨k, seen, q, hq, -, hpeer, -⟩ := hown
    exact (rows q hq).1 hpeer
  have hr : r = 1 := hone none_owned (fun _ => id) ⟨"b.txt", by decide, free⟩
  refine ⟨Store.newStore_fresh, Store.reaches_oneRow, ready, room, ?_, ?_⟩
  · rw [hreport, hr]
    rfl
  · refine (hlive hr "b.txt" (by decide)).mpr fun q hq => ?_
    exact absurd hq (Table.lacks_iff_not_heldBy.mp free q)

end PeerShare.Timed
