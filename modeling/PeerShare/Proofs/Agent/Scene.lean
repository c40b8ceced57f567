import PeerShare.Proofs.Agent.Calls
import PeerShare.Proofs.Agent.Run
import PeerShare.Proofs.Registry.Lookup
import PeerShare.Share

/-!
An agent before a folder and a registry, under one clock, and what a tick of it comes to. A pass
lists the names that are in the folder and unknown, withdraws those that are known and not in the
folder, and is over when the registry confirms that it has any row of the agent at all. So a name
that is known and has lost its row is listed again only if no row is left.
-/

namespace PeerShare

structure Scene where
  agent : Agent
  registry : Registry
  now : Instant
  share : FilePath
  files : Disk

namespace Scene

def world : Tick.World Scene where
  scan s := ((Share.scan s.files s.share).toOption, s)
  call c s :=
    let (x, r) := s.registry.perform s.now s.agent c
    (.ofResult x, { s with registry := r })

def tick (s : Scene) : Tick.Report × Scene :=
  let (report, a, s) := s.agent.reconcile world s
  (report, { s with agent := a })

def Offers (s : Scene) (n : String) : Prop := s.registry.Offers (s.agent.offer n)

def Orderly (s : Scene) (known : Names) : Prop := s.registry.Orderly s.agent known s.now

section Calls
variable {s : Scene} {c : Call} {known : Names} {name n : String}

theorem world_call (c : Call) (s : Scene) : world.call c s =
    (.ofResult (s.registry.perform s.now s.agent c).1,
      { s with registry := (s.registry.operate s.now (c.operation s.agent)).2 }) := by
  rw [← (Registry.perform_operate s.registry s.now s.agent c).1]
  rfl

theorem orderly_call : (world.call c s).2.Orderly known ↔
    (s.registry.operate s.now (c.operation s.agent)).2.Orderly s.agent known s.now := by
  rw [world_call]
  rfl

theorem failed_or_done (c : Call) (s : Scene) :
    ((world.call c s).1 = .failed ∧ (s.registry.operate s.now (c.operation s.agent)).1 = false) ∨
    ((world.call c s).1 ≠ .failed ∧
      (s.registry.operate s.now (c.operation s.agent)).1 = true) := by
  rw [world_call, ← (Registry.perform_operate s.registry s.now s.agent c).2]
  rcases (s.registry.perform s.now s.agent c).1 with e | _ | _
  · exact .inl ⟨rfl, rfl⟩
  · exact .inr ⟨by simp [Reply.ofResult], rfl⟩
  · exact .inr ⟨by simp [Reply.ofResult], rfl⟩

theorem offers_call_list (ho : s.Orderly known)
    (hr : (world.call (.list name) s).1 ≠ .failed) :
    (world.call (.list name) s).2.Offers n ↔ s.Offers n ∨ n = name := by
  rcases failed_or_done (.list name) s with ⟨hf, -⟩ | ⟨-, hd⟩
  · exact absurd hf hr
  · rw [world_call]
    exact Registry.offers_list ho hd

theorem offers_call_delist (ho : s.Orderly known)
    (hr : (world.call (.delist name) s).1 ≠ .failed) :
    (world.call (.delist name) s).2.Offers n ↔ s.Offers n ∧ n ≠ name := by
  rcases failed_or_done (.delist name) s with ⟨hf, -⟩ | ⟨-, hd⟩
  · exact absurd hf hr
  · rw [world_call]
    exact Registry.offers_delist ho hd

theorem heartbeat_yes (h : (world.call .heartbeat s).1 = .yes) :
    ∃ k t, s.registry.store.table.Has k s.agent.peer t := by
  rw [world_call] at h
  cases hx : (s.registry.perform s.now s.agent .heartbeat).1 with
  | error e => rw [hx] at h; cases h
  | ok b =>
    refine (Registry.perform_heartbeat hx).mp ?_
    cases b with
    | true => rfl
    | false => rw [hx] at h; cases h

theorem heartbeat_no (h : (world.call .heartbeat s).1 = .no) :
    ¬ ∃ k t, s.registry.store.table.Has k s.agent.peer t := by
  rw [world_call] at h
  cases hx : (s.registry.perform s.now s.agent .heartbeat).1 with
  | error e => rw [hx] at h; cases h
  | ok b =>
    refine mt (Registry.perform_heartbeat hx).mpr ?_
    intro he
    subst he
    rw [hx] at h
    cases h

end Calls

/-! ### Order during a tick -/

section Order
variable {s s' : Scene} {t : Tick}

structure SameSetting (s s' : Scene) : Prop where
  agent : s'.agent = s.agent
  now : s'.now = s.now
  share : s'.share = s.share
  files : s'.files = s.files

theorem SameSetting.refl (s : Scene) : SameSetting s s := ⟨rfl, rfl, rfl, rfl⟩

theorem SameSetting.trans {s'' : Scene} (h : SameSetting s s') (h' : SameSetting s' s'') :
    SameSetting s s'' :=
  ⟨h'.agent.trans h.agent, h'.now.trans h.now, h'.share.trans h.share, h'.files.trans h.files⟩

theorem sameSetting_call (c : Call) (s : Scene) : SameSetting s (world.call c s).2 :=
  ⟨rfl, rfl, rfl, rfl⟩

theorem sameSetting_step (t : Tick) (s : Scene) : SameSetting s (Tick.step world t s).2 := by
  unfold Tick.step
  split
  · exact .refl s
  · exact sameSetting_call _ s
  · exact .refl s

theorem orderly_list {name : String} {later present : Names}
    (hp : t.phase = .list name later present) (ho : s.Orderly t.known) :
    (world.call (.list name) s).2.Orderly (t.answered (world.call (.list name) s).1).known := by
  have hl : (s.registry.operate s.now ((Call.list name).operation s.agent)).2.Orderly s.agent
      (if (s.registry.operate s.now ((Call.list name).operation s.agent)).1 then
        Names.insert name t.known else t.known) s.now := Registry.Orderly.list ho name
  rw [orderly_call, Tick.known_list hp]
  rcases failed_or_done (.list name) s with ⟨hf, hd⟩ | ⟨hf, hd⟩
  · rw [if_neg (Bool.eq_false_iff.mp hd)] at hl
    rwa [if_pos hf]
  · rw [if_pos hd] at hl
    rwa [if_neg hf]

theorem orderly_delist {name : String} {later : Names} (hp : t.phase = .delist name later)
    (ho : s.Orderly t.known) :
    (world.call (.delist name) s).2.Orderly (t.answered (world.call (.delist name) s).1).known := by
  rw [orderly_call, Tick.known_delist hp]
  rcases failed_or_done (.delist name) s with ⟨hf, -⟩ | ⟨hf, hd⟩
  · rw [if_pos hf]
    exact Registry.Orderly.keep ho fun _ _ hc => by cases hc
  · rw [if_neg hf]
    exact Registry.Orderly.delist ho hd

theorem not_offers_of_no {known : Names} (ho : s.Orderly known)
    (hr : (world.call .heartbeat s).1 = .no) (k : Offer) :
    ¬ (world.call .heartbeat s).2.registry.Offers k := by
  have hd : (s.registry.operate s.now (.heartbeat s.agent.peer)).1 = true := by
    rcases failed_or_done .heartbeat s with ⟨hf, -⟩ | ⟨-, hd⟩
    · rw [hr] at hf
      cases hf
    · exact hd
  rw [world_call]
  intro hrow
  obtain ⟨p, now, hh⟩ := hrow
  obtain ⟨-, -, hoff⟩ := (Registry.has_heartbeat ho hd).mp hh
  exact Registry.Orderly.none_left ho (heartbeat_no hr) k hoff

theorem orderly_heartbeat (hp : t.phase = .heartbeat) (ho : s.Orderly t.known) :
    (world.call .heartbeat s).2.Orderly (t.answered (world.call .heartbeat s).1).known := by
  have hk : (world.call .heartbeat s).2.Orderly t.known :=
    orderly_call.mpr (Registry.Orderly.keep ho fun _ _ hc => by cases hc)
  rcases Tick.known_heartbeat hp (world.call .heartbeat s).1 with he | ⟨hr, he⟩
  · rwa [he]
  · rw [he]
    exact Registry.Orderly.of_none hk (not_offers_of_no ho hr)

theorem orderly_step (ho : s.Orderly t.known) :
    (Tick.step world t s).2.Orderly (Tick.step world t s).1.known := by
  cases hp : t.phase with
  | scan =>
    simp only [Tick.step, hp, Tick.known_scanned]
    exact ho
  | list name later present =>
    simp only [Tick.step, hp, Tick.call?]
    exact orderly_list hp ho
  | delist name later =>
    simp only [Tick.step, hp, Tick.call?]
    exact orderly_delist hp ho
  | heartbeat =>
    simp only [Tick.step, hp, Tick.call?]
    exact orderly_heartbeat hp ho
  | finished =>
    simp only [Tick.step, hp, Tick.call?]
    exact ho

theorem sameSetting_run (t : Tick) (s : Scene) : SameSetting s (Tick.run world t s).2 :=
  Tick.run_invariant (P := fun _ s' => SameSetting s s')
    (fun u s' _ h => h.trans (sameSetting_step u s')) (.refl s)

theorem orderly_run (ho : s.Orderly t.known) :
    (Tick.run world t s).2.Orderly (Tick.run world t s).1.known :=
  Tick.run_invariant (P := fun (u : Tick) (s' : Scene) => s'.Orderly u.known)
    (fun _ _ _ h => orderly_step h) ho

end Order
end Scene
end PeerShare
