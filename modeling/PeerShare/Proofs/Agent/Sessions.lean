import PeerShare.Proofs.Agent.Stray
import PeerShare.Proofs.Registry.Ownership

/-!
What becomes of the rows of a session that has ended without the registry having heard of it, when
the same peer comes back at another port. A row was last seen at the latest reading of the calls that
renewed it; for a row of the old session these are its own calls and, since a renewal is for all rows
of a peer, the renewals of the new session too.
-/

namespace PeerShare.Dealings

/-- How a session ends that is not known to have ended: it is broken off, or its goodbye fails. -/
inductive Ends : Dealings → Dealings → Prop
  | broken (d : Dealings) : Ends d d
  | failed (d : Dealings) (way : Way) {c : Call} {a : Agent}
      (hc : d.scene.agent.shutdown = (some c, a)) (hr : (send way c d.scene).1.reply = .failed) :
      Ends d { d with
        scene := { (send way c d.scene).2 with agent := a }
        past := d.past ++ [(send way c d.scene).1] }

def restarted (d : Dealings) (address : String) (port : UInt16) : Dealings where
  scene := { d.scene with agent := { peer := d.peer, address := address, port := port } }
  tick := { known := [], phase := .finished }
  past := d.past

/-- Rows at the port were last seen at the latest of their renewals. -/
structure Dated (p : PeerId) (port : UInt16) (d : Dealings) : Prop where
  table : d.table.WellFormed
  past : ∀ c ∈ d.past, c.entry.now ≤ d.scene.now
  rows : ∀ k t, k.port = port → d.table.Has k p t →
    Registry.Latest t (Registry.readings k p (d.past.map (·.entry)))

section Dates
variable {d d' : Dealings} {way : Way} {c : Call} {k : Offer} {p : PeerId} {port : UInt16}
  {t : Instant}

theorem mem_readings : t ∈ Registry.readings k p (d.past.map (·.entry)) ↔
    ∃ c ∈ d.past, c.entry.renews k p = true ∧ c.entry.now = t := by
  simp only [Registry.readings, List.mem_map, List.mem_filter]
  constructor
  · intro hmem
    obtain ⟨e, ⟨⟨c, hc, rfl⟩, hr⟩, rfl⟩ := hmem
    exact ⟨c, hc, hr, rfl⟩
  · intro hmem
    obtain ⟨c, hc, hr, rfl⟩ := hmem
    exact ⟨c.entry, ⟨⟨c, hc, rfl⟩, hr⟩, rfl⟩

theorem Dated.send (h : d.Dated p port)
    (htable : d'.table = (send way c d.scene).2.registry.store.table)
    (hpast : d'.past = d.past ++ [(send way c d.scene).1])
    (hnow : d'.scene.now = d.scene.now) : d'.Dated p port := by
  have hentry := (entry_send way c d.scene).1
  refine ⟨htable ▸ wellFormed_send h.table way c, fun c' hc' => ?_, fun k t hk hrow => ?_⟩
  · rw [hpast] at hc'
    rw [hnow]
    rcases List.mem_append.mp hc' with hc' | hc'
    · exact h.past c' hc'
    · rw [List.mem_singleton.mp hc', hentry]
      exact Instant.le_refl _
  · rw [htable] at hrow
    rw [hpast, List.map_append]
    rcases (has_send h.table).mp hrow with ⟨hl, -, rfl⟩ | ⟨t₀, h₀, -, rfl⟩
    · -- A new row is last seen now, and no renewal is later.
      have hrenews := Registry.renews_of_lists hl p
      constructor
      · rw [Registry.readings_append]
        refine List.mem_append_right _ (List.mem_map.mpr ⟨_, ?_, hentry⟩)
        exact List.mem_filter.mpr ⟨List.mem_singleton_self _, hrenews⟩
      · intro u hu
        obtain ⟨e, he, rfl⟩ := List.mem_map.mp hu
        rcases List.mem_append.mp (List.mem_filter.mp he).1 with he | he
        · obtain ⟨c', hc', rfl⟩ := List.mem_map.mp he
          exact h.past c' hc'
        · have hlast : e = (Dealings.send way c d.scene).1.entry := List.mem_singleton.mp he
          rw [hlast, hentry]
          exact Instant.le_refl _
    · exact Registry.latest_seen (h.rows k t₀ hk h₀) _

theorem dated_step (h : d.Dated p port) {e : Event} (he : Forward d e) :
    (d.step e).Dated p port := by
  cases e with
  | files files => exact ⟨h.table, h.past, h.rows⟩
  | clock t => exact ⟨h.table, fun c hc => Instant.le_trans (h.past c hc) he, h.rows⟩
  | sweep =>
    exact ⟨wellFormed_step h.table .sweep, h.past, fun k t hk hrow =>
      h.rows k t hk ((has_swept h.table).mp hrow).1⟩
  | begin =>
    simp only [step]
    split_ifs
    · exact ⟨h.table, h.past, h.rows⟩
    · exact h
  | go way =>
    rcases step_go_cases d way with ⟨-, he⟩ | ⟨c, -, he⟩ | ⟨-, he⟩
    · rw [he]
      exact ⟨h.table, h.past, h.rows⟩
    · rw [he]
      exact h.send rfl rfl (sameSetting_send way c d.scene).now
    · rw [he]
      exact h

theorem Ends.dated (he : d.Ends d') (h : d.Dated p port) : d'.Dated p port := by
  cases he with
  | broken => exact h
  | failed way _ _ => exact h.send rfl rfl (sameSetting_send way _ d.scene).now

theorem peer_step (d : Dealings) (e : Event) : (d.step e).peer = d.peer := by
  obtain ⟨known, hagent⟩ := agent_step d e
  rw [peer, hagent]
  rfl

theorem Ends.peer_eq (he : d.Ends d') : d'.peer = d.peer := by
  cases he with
  | broken => rfl
  | failed way hc hr =>
    unfold Agent.shutdown at hc
    split_ifs at hc
    · cases hc
    · cases hc
      rfl

end Dates

/-! ### The session elsewhere -/

/-- The peer is at the port, and since these calls it has renewed rows at any other port only with
all its rows. -/
structure Session (p : PeerId) (port : UInt16) (earlier : List Contact) (d : Dealings) : Prop where
  owner : d.peer = p
  place : d.scene.agent.port = port
  later : ∃ new, d.past = earlier ++ new ∧ ∀ c ∈ new, ∀ k : Offer, k.port ≠ port →
    (c.entry.renews k p = true ↔ c.entry.done = true ∧ c.entry.op = .heartbeat p)

section Elsewhere
variable {d d₀ d₁ d₂ d₃ : Dealings} {way : Way} {c : Call} {k : Offer} {p : PeerId}
  {port : UInt16} {earlier : List Contact}

theorem renews_elsewhere {e : Registry.Entry} {a : Agent} (he : e.op = c.operation a)
    (hk : k.port ≠ a.port) :
    e.renews k a.peer = true ↔ e.done = true ∧ e.op = .heartbeat a.peer := by
  unfold Registry.Entry.renews
  rw [he, Bool.and_eq_true]
  cases c with
  | list name =>
    have hne : k ≠ a.offer name := by
      intro hk'
      rw [hk'] at hk
      exact hk rfl
    simp [Call.operation, hne]
  | _ => simp [Call.operation]

theorem session_step (h : d.Session p port earlier) (e : Event) :
    (d.step e).Session p port earlier := by
  have hplace : (d.step e).scene.agent.port = port := by
    obtain ⟨known, hagent⟩ := agent_step d e
    rw [hagent]
    exact h.place
  refine ⟨(peer_step d e).trans h.owner, hplace, ?_⟩
  obtain ⟨new, hpast, hnew⟩ := h.later
  cases e with
  | begin =>
    simp only [step]
    split_ifs <;> exact ⟨new, hpast, hnew⟩
  | go way =>
    rcases step_go_cases d way with ⟨-, he⟩ | ⟨c, -, he⟩ | ⟨-, he⟩
    · rw [he]
      exact ⟨new, hpast, hnew⟩
    · rw [he]
      refine ⟨new ++ [(send way c d.scene).1], ?_, fun c' hc' k hk => ?_⟩
      · rw [← List.append_assoc, ← hpast]
        rfl
      · rcases List.mem_append.mp hc' with hc' | hc'
        · exact hnew c' hc' k hk
        · rw [List.mem_singleton.mp hc', ← h.owner]
          have hop := (entry_send way c d.scene).2
          exact renews_elsewhere hop (h.place ▸ hk)
    · rw [he]
      exact ⟨new, hpast, hnew⟩
  | _ => exact ⟨new, hpast, hnew⟩

theorem session_restarted (address : String) (port : UInt16) :
    (d.restarted address port).Session d.peer port d.past :=
  ⟨rfl, rfl, [], by simp [restarted], fun _ hc => absurd hc List.not_mem_nil⟩

theorem dated_restarted (h : d.Dated p port) (address : String) (port' : UInt16) :
    (d.restarted address port').Dated p port := ⟨h.table, h.past, h.rows⟩

theorem spared_iff (h : d.Dated p port) (hk : k.port = port)
    (hs : (d.scene.registry.operate d.scene.now .reap).1 = true) :
    (d.step .sweep).table.HeldBy k p ↔ d.table.HeldBy k p ∧
      ∃ c ∈ d.past, c.entry.renews k p = true ∧
        Instant.Within d.scene.registry.policy.reapAfter d.scene.now c.entry.now := by
  have hspared (t : Instant) : (d.scene.registry.entry d.scene.now .reap).removes
      d.scene.registry.policy k p t = false ↔
        Instant.Within d.scene.registry.policy.reapAfter d.scene.now t := by
    rw [← not_iff_not, Instant.not_within_iff_any]
    simp [Registry.Entry.removes, Registry.entry, hs]
  constructor
  · intro hheld
    obtain ⟨t, hrow⟩ := hheld
    obtain ⟨hrow, hkept⟩ := (has_swept h.table).mp hrow
    obtain ⟨c, hc, hr, rfl⟩ := mem_readings.mp (h.rows k t hk hrow).1
    exact ⟨⟨_, hrow⟩, c, hc, hr, (hspared _).mp hkept⟩
  · intro hboth
    obtain ⟨⟨t, hrow⟩, c, hc, hr, hwithin⟩ := hboth
    have hle := (h.rows k t hk hrow).2 _ (mem_readings.mpr ⟨c, hc, hr, rfl⟩)
    exact ⟨t, (has_swept h.table).mpr ⟨hrow, (hspared t).mpr (hwithin.mono hle)⟩⟩

/-- Which rows of an old session a sweep spares while the peer is at another port: those that the
old session renewed not too long ago, and all of them if the new session has been heard that recently,
for it renews whatever rows its peer has. -/
theorem outlives_sweep_iff {address : String} (hw : d₀.table.WellFormed) (hp : d₀.past = [])
    (hnone : ∀ k, k.port = d₀.scene.agent.port → ¬ d₀.table.HeldBy k d₀.peer)
    (h₁ : d₀.Reaches Forward d₁) (h₂ : d₁.Ends d₂) (hport : port ≠ d₀.scene.agent.port)
    (h₃ : (d₂.restarted address port).Reaches Forward d₃)
    (hs : (d₃.scene.registry.operate d₃.scene.now .reap).1 = true) :
    ∃ new, d₃.past = d₂.past ++ new ∧ ∀ k, k.port = d₀.scene.agent.port →
      ((d₃.step .sweep).table.HeldBy k d₀.peer ↔ d₃.table.HeldBy k d₀.peer ∧
        ((∃ c ∈ d₂.past, c.entry.renews k d₀.peer = true ∧
          Instant.Within d₃.scene.registry.policy.reapAfter d₃.scene.now c.entry.now) ∨
        ∃ c ∈ new, c.entry.done = true ∧ c.entry.op = .heartbeat d₀.peer ∧
          Instant.Within d₃.scene.registry.policy.reapAfter d₃.scene.now c.entry.now)) := by
  have hdated₀ : d₀.Dated d₀.peer d₀.scene.agent.port := by
    refine ⟨hw, fun c hc => ?_, fun k t hk hrow => absurd ⟨t, hrow⟩ (hnone k hk)⟩
    rw [hp] at hc
    exact absurd hc List.not_mem_nil
  have hdated₁ : d₁.Dated d₀.peer d₀.scene.agent.port :=
    h₁.invariant (fun _ _ he hd => dated_step hd he) hdated₀
  have hdated₃ : d₃.Dated d₀.peer d₀.scene.agent.port :=
    h₃.invariant (fun _ _ he hd => dated_step hd he)
      (dated_restarted (h₂.dated hdated₁) address port)
  have hpeer : d₂.peer = d₀.peer :=
    h₂.peer_eq.trans (h₁.invariant (fun d e _ hd => (peer_step d e).trans hd) rfl)
  have hsession : d₃.Session d₂.peer port d₂.past :=
    h₃.invariant (fun _ e _ hd => session_step hd e) (session_restarted address port)
  rw [hpeer] at hsession
  obtain ⟨new, hpast, hnew⟩ := hsession.later
  refine ⟨new, hpast, fun k hk => ?_⟩
  rw [spared_iff hdated₃ hk hs, hpast]
  have helsewhere : k.port ≠ port := fun h => hport (h.symm.trans hk)
  refine and_congr_right fun _ => ?_
  simp only [List.mem_append, or_and_right, exists_or]
  refine or_congr_right (exists_congr fun c => and_congr_right fun hc => ?_)
  rw [hnew c hc k helsewhere, and_assoc]

end Elsewhere

/-! ### A peer that comes back -/

def oneTick : List Event := [.begin, .go .answered, .go .answered, .go .answered]

theorem forward_oneTick : ∀ e ∈ oneTick, ∀ d, Forward d e := by
  intro e he d
  simp only [oneTick, List.mem_cons, List.not_mem_nil, or_false] at he
  rcases he with rfl | rfl | rfl | rfl <;> trivial

def brokenOff : Dealings := newcomer.run oneTick

def afterSeconds (seconds : Int) : Instant := (Instant.of? seconds 0).getD default

def later : Dealings :=
  (brokenOff.restarted "localhost" 9200).step (.clock (afterSeconds 120))

def revived : Dealings := (later.run oneTick).step (.clock (afterSeconds 240))

theorem brokenOff_reaches : (brokenOff.restarted "localhost" 9200).Reaches Forward revived := by
  have hlater : (brokenOff.restarted "localhost" 9200).Next Forward later := by
    refine ⟨.clock (afterSeconds 120), ?_, rfl⟩
    show (brokenOff.restarted "localhost" 9200).scene.now ≤ afterSeconds 120
    decide +kernel
  have htick : later.Reaches Forward (later.run oneTick) := reaches_run forward_oneTick
  have hlast : (later.run oneTick).Next Forward revived := by
    refine ⟨.clock (afterSeconds 240), ?_, rfl⟩
    show (later.run oneTick).scene.now ≤ afterSeconds 240
    decide +kernel
  exact (Relation.ReflTransGen.head hlater htick).tail hlast

theorem revived_sweep : (revived.scene.registry.operate revived.scene.now .reap).1 = true := by
  decide +kernel

theorem revived_row : (revived.step .sweep).table.HeldBy ⟨"a.txt", "localhost", 9100⟩ ⟨"p"⟩ :=
  ⟨afterSeconds 120, ⟨⟨0⟩, ⟨"p"⟩, ⟨"a.txt", "localhost", 9100⟩, afterSeconds 120⟩,
    by decide +kernel, rfl, rfl, rfl⟩

theorem brokenOff_silent : ∀ c ∈ brokenOff.past, ¬ Instant.Within
    revived.scene.registry.policy.reapAfter revived.scene.now c.entry.now := by
  decide +kernel

theorem outlives_sweep_iff_revived : newcomer.Begins ∧
    newcomer.Reaches Forward brokenOff ∧ brokenOff.Ends brokenOff ∧
    (brokenOff.restarted "localhost" 9200).Reaches Forward revived ∧
    (revived.scene.registry.operate revived.scene.now .reap).1 = true ∧
    ∃ new, revived.past = brokenOff.past ++ new ∧
      ∃ c ∈ new, c.entry.done = true ∧ c.entry.op = .heartbeat ⟨"p"⟩ ∧
        Instant.Within revived.scene.registry.policy.reapAfter revived.scene.now c.entry.now := by
  have hreaches : newcomer.Reaches Forward brokenOff := reaches_run forward_oneTick
  have hnone (k : Offer) (_ : k.port = newcomer.scene.agent.port) :
      ¬ newcomer.table.HeldBy k newcomer.peer :=
    fun ⟨t, hrow⟩ => newcomer_begins.none_owned k t hrow
  have hport : (9200 : UInt16) ≠ newcomer.scene.agent.port := by decide +kernel
  obtain ⟨new, hpast, hrows⟩ := outlives_sweep_iff newcomer_begins.table rfl hnone hreaches
    (.broken brokenOff) hport brokenOff_reaches revived_sweep
  refine ⟨newcomer_begins, hreaches, .broken _, brokenOff_reaches, revived_sweep, new, hpast, ?_⟩
  rcases ((hrows ⟨"a.txt", "localhost", 9100⟩ rfl).mp revived_row).2 with ⟨c, hc, -, hwithin⟩ | hnew
  · exact absurd hwithin (brokenOff_silent c hc)
  · exact hnew

/-- A sweep leaves a row of a session that has long been silent. -/
theorem silent_session_outlives : newcomer.Begins ∧ newcomer.Reaches Forward brokenOff ∧
    brokenOff.Ends brokenOff ∧ (9200 : UInt16) ≠ newcomer.scene.agent.port ∧
    (brokenOff.restarted "localhost" 9200).Reaches Forward revived ∧
    (revived.scene.registry.operate revived.scene.now .reap).1 = true ∧
    (∀ c ∈ brokenOff.past, ¬ Instant.Within
      revived.scene.registry.policy.reapAfter revived.scene.now c.entry.now) ∧
    (revived.step .sweep).table.HeldBy ⟨"a.txt", "localhost", newcomer.scene.agent.port⟩
      newcomer.peer :=
  ⟨newcomer_begins, reaches_run forward_oneTick, .broken _, by decide +kernel, brokenOff_reaches,
    revived_sweep, brokenOff_silent, revived_row⟩

end PeerShare.Dealings
