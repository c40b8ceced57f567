import PeerShare.Proofs.Agent.Scene

/-!
One pass of a tick in which no call fails. When the names have been listed and withdrawn, the rows
are those of the names in the folder that had a row before or were unknown. If there are any, the
registry confirms them all and the tick is over; if there are none, the next pass begins with
nothing known.
-/

namespace PeerShare.Scene

/-- A tick has come from one point to another, in order and without a new pass. -/
structure Stage (t : Tick) (s : Scene) (u : Tick) (s' : Scene) : Prop where
  run : Tick.run world t s = Tick.run world u s'
  setting : SameSetting s s'
  orderly : s'.Orderly u.known
  resyncs : u.report.resyncs = t.report.resyncs

section Stages
variable {s : Scene} {t : Tick} {present ns : Names} {name n : String}

theorem stage_register (ho : s.Orderly t.known)
    (hf : (Tick.run world (t.register present ns) s).1.report.failures = 0) :
    ∃ (u : Tick) (s' : Scene),
      Stage (t.register present ns) s (u.withdraw (Names.diff u.known present)) s' ∧
      (∀ n, n ∈ u.known ↔ n ∈ t.known ∨ n ∈ ns) ∧ ∀ n, s'.Offers n ↔ s.Offers n ∨ n ∈ ns := by
  induction ns generalizing t s with
  | nil =>
    refine ⟨t, s, ⟨rfl, .refl s, ?_, rfl⟩, by simp, by simp⟩
    rwa [Tick.known_withdraw]
  | cons name later ih =>
    let t₀ := t.register present (name :: later)
    have hp : t₀.phase = .list name later present := rfl
    have hc : t₀.call? = some (.list name) := rfl
    have hr := Tick.reply_ne_failed hc hf
    obtain ⟨t₁, ht₁, hk₁, hs₁⟩ := Tick.answered_list hp hr
    have ho₁ := orderly_list hp ho
    have hrun : Tick.run world t₀ s = Tick.run world (t₁.register present later)
        (world.call (.list name) s).2 := by rw [Tick.run_call hc, ht₁]
    rw [ht₁, Tick.known_register] at ho₁
    rw [show t.register present (name :: later) = t₀ from rfl, hrun] at hf
    obtain ⟨u, s', hstage, hknown, hoffers⟩ := ih ho₁ hf
    refine ⟨u, s', ⟨hrun.trans hstage.run, (sameSetting_call _ s).trans hstage.setting,
      hstage.orderly, ?_⟩, fun n => ?_, fun n => ?_⟩
    · rw [hstage.resyncs, Tick.register_resyncs, hs₁]
    · rw [hknown, hk₁, Names.mem_insert, List.mem_cons, or_comm (a := n = name), or_assoc]
      rfl
    · rw [hoffers, offers_call_list ho hr, List.mem_cons, or_assoc]

theorem stage_withdraw (ho : s.Orderly t.known)
    (hf : (Tick.run world (t.withdraw ns) s).1.report.failures = 0) :
    ∃ (u : Tick) (s' : Scene), Stage (t.withdraw ns) s { u with phase := .heartbeat } s' ∧
      (∀ n, n ∈ u.known ↔ n ∈ t.known ∧ n ∉ ns) ∧ ∀ n, s'.Offers n ↔ s.Offers n ∧ n ∉ ns := by
  induction ns generalizing t s with
  | nil => exact ⟨t, s, ⟨rfl, .refl s, ho, rfl⟩, by simp, by simp⟩
  | cons name later ih =>
    let t₀ := t.withdraw (name :: later)
    have hp : t₀.phase = .delist name later := rfl
    have hc : t₀.call? = some (.delist name) := rfl
    have hr := Tick.reply_ne_failed hc hf
    obtain ⟨t₁, ht₁, hk₁, hs₁⟩ := Tick.answered_delist hp hr
    have ho₁ := orderly_delist hp ho
    have hrun : Tick.run world t₀ s = Tick.run world (t₁.withdraw later)
        (world.call (.delist name) s).2 := by rw [Tick.run_call hc, ht₁]
    rw [ht₁, Tick.known_withdraw] at ho₁
    rw [show t.withdraw (name :: later) = t₀ from rfl, hrun] at hf
    obtain ⟨u, s', hstage, hknown, hoffers⟩ := ih ho₁ hf
    refine ⟨u, s', ⟨hrun.trans hstage.run, (sameSetting_call _ s).trans hstage.setting,
      hstage.orderly, ?_⟩, fun n => ?_, fun n => ?_⟩
    · rw [hstage.resyncs, Tick.withdraw_resyncs, hs₁]
    · rw [hknown, hk₁, Names.mem_erase, List.mem_cons, not_or, and_assoc]
      rfl
    · rw [hoffers, offers_call_delist ho hr, List.mem_cons, not_or, and_assoc]

end Stages

/-! ### Confirmation -/

structure Confirmed (s s' : Scene) : Prop where
  setting : SameSetting s s'
  table : s'.registry.store.table.WellFormed
  outage : s'.registry.outage = none
  rows : ∀ k p seen, s'.registry.store.table.Has k p seen ↔
    p = s.agent.peer ∧ seen = s.now ∧ s.registry.Offers k

structure Anew (s : Scene) (u : Tick) (s' : Scene) : Prop where
  setting : SameSetting s s'
  orderly : s'.Orderly u.known
  phase : u.phase = .scan
  known : u.known = []

section Heartbeat
variable {s : Scene} {t : Tick}

theorem confirmed_of_yes {known : Names} (ho : s.Orderly known)
    (hr : (world.call .heartbeat s).1 = .yes) : Confirmed s (world.call .heartbeat s).2 := by
  have hd : (s.registry.operate s.now (.heartbeat s.agent.peer)).1 = true := by
    rcases failed_or_done .heartbeat s with ⟨hf, -⟩ | ⟨-, hd⟩
    · rw [hr] at hf
      cases hf
    · exact hd
  rw [world_call]
  exact ⟨⟨rfl, rfl, rfl, rfl⟩, Registry.wellFormed_operate ho.table _ _,
    (Registry.outage_operate _ _ _).trans (Registry.outage_of_heartbeat hd),
    fun k p seen => Registry.has_heartbeat ho hd⟩

theorem run_heartbeat (hp : t.phase = .heartbeat) (ho : s.Orderly t.known)
    (hf : (Tick.run world t s).1.report.failures = 0)
    (hn : (Tick.run world t s).1.report.renewed = some true) :
    ((∃ k, s.registry.Offers k) ∧ Confirmed s (Tick.run world t s).2 ∧
      (Tick.run world t s).1.report.resyncs = t.report.resyncs) ∨
    ((∀ k, ¬ s.registry.Offers k) ∧ ∃ (u : Tick) (s' : Scene), Anew s u s' ∧
      Tick.run world t s = Tick.run world u s' ∧
      u.report.resyncs = t.report.resyncs + 1) := by
  have hc : t.call? = some .heartbeat := by simp only [Tick.call?, hp]
  have hr := Tick.reply_ne_failed hc hf
  rw [Tick.run_call hc] at hn ⊢
  have ho' := orderly_heartbeat hp ho
  simp only [Tick.answered, hp] at hn ho' ⊢
  rcases hx : (world.call .heartbeat s).1 with _ | _ | _
  · rw [hx] at hn
    refine .inl ⟨?_, ?_⟩
    · obtain ⟨k, seen, hh⟩ := heartbeat_yes hx
      exact ⟨k, _, seen, hh⟩
    · rw [Tick.run_finished rfl]
      exact ⟨confirmed_of_yes ho hx, rfl⟩
  · rw [hx] at hn ho'
    refine .inr ⟨Registry.Orderly.none_left ho (heartbeat_no hx), ?_⟩
    simp only [Tick.forgotten] at hn ho' ⊢
    split_ifs at hn ho' ⊢ with hl
    · rw [Tick.run_finished rfl] at hn
      cases hn
    · exact ⟨_, _, ⟨sameSetting_call _ s, ho', rfl, rfl⟩, rfl, rfl⟩
  · exact absurd hx hr

end Heartbeat

/-! ### A pass -/

section Pass
variable {s : Scene} {t : Tick} {present : Names}

def Due (s : Scene) (known : Names) (n : String) : Prop := s.Offers n ∨ n ∉ known

theorem run_pass (hp : t.phase = .scan) (ho : s.Orderly t.known)
    (hs : Share.scan s.files s.share = .ok present) (hne : present ≠ [])
    (hf : (Tick.run world t s).1.report.failures = 0)
    (hn : (Tick.run world t s).1.report.renewed = some true) :
    ((∃ m ∈ present, s.Due t.known m) ∧
      (∃ s₁, SameSetting s s₁ ∧ Confirmed s₁ (Tick.run world t s).2 ∧
        ∀ n ∈ present, s₁.Offers n ↔ s.Due t.known n) ∧
      (Tick.run world t s).1.report.resyncs = t.report.resyncs) ∨
    ((∀ m ∈ present, ¬ s.Due t.known m) ∧ ∃ (u : Tick) (s' : Scene), Anew s u s' ∧
      Tick.run world t s = Tick.run world u s' ∧
      u.report.resyncs = t.report.resyncs + 1) := by
  have hscan : Tick.run world t s =
      Tick.run world (t.register present (Names.diff present t.known)) s := by
    rw [Tick.run_step (by rw [hp]; exact fun h => by cases h)]
    simp only [Tick.step, hp, world, hs]
    cases present with
    | nil => exact absurd rfl hne
    | cons n ns => rfl
  rw [hscan] at hf hn ⊢
  obtain ⟨u, s₁, h₁, hknown₁, hoffers₁⟩ := stage_register ho hf
  rw [h₁.run] at hf hn ⊢
  have ho₁ : s₁.Orderly u.known := by
    have := h₁.orderly
    rwa [Tick.known_withdraw] at this
  obtain ⟨v, s₂, h₂, hknown₂, hoffers₂⟩ := stage_withdraw ho₁ hf
  rw [h₂.run] at hf hn ⊢
  have hdue : ∀ n ∈ present, s₂.Offers n ↔ s.Due t.known n := by
    intro n hm
    rw [hoffers₂, hoffers₁, Names.mem_diff, Names.mem_diff]
    simp only [hm, true_and, not_true, and_false, not_false_eq_true, and_true, Due]
  have hres : v.report.resyncs = t.report.resyncs :=
    h₂.resyncs.trans (h₁.resyncs.trans (Tick.register_resyncs t _ _))
  have hset := h₁.setting.trans h₂.setting
  rcases run_heartbeat rfl h₂.orderly hf hn with ⟨⟨k, p, seen, hk⟩, hc, hr⟩ | ⟨hnone, u', s', ha, hrun, hr⟩
  · -- A row that is left is that of a name in the folder, for the others have been withdrawn.
    refine .inl ⟨?_, ⟨s₂, hset, hc, hdue⟩, hr.trans hres⟩
    obtain ⟨rfl, hoff, hknown, -⟩ := h₂.orderly.rows k p seen hk
    rw [hknown₂, Names.mem_diff, not_and, not_not] at hknown
    have hm := hknown.2 hknown.1
    exact ⟨k.fileName, hm, (hdue _ hm).mp ⟨_, seen, hoff ▸ hk⟩⟩
  · refine .inr ⟨fun m hm hd => hnone _ ((hdue m hm).mpr hd), u', s', ?_, hrun, ?_⟩
    · exact ⟨hset.trans ha.setting, ha.orderly, ha.phase, ha.known⟩
    · rw [hr, ← hres]

end Pass
end PeerShare.Scene
