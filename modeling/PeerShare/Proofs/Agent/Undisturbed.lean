import PeerShare.Proofs.Agent.Heard
import PeerShare.Proofs.Agent.Scene
import PeerShare.Proofs.Registry.Ownership
import PeerShare.Proofs.Share

/-!
The calls of an agent with whom nobody interferes, before a registry that does what it is asked. The
rows may be anyone's, and the clock may show anything at each call. Every call of a pass is done,
other peers keep what they hold, and the offers of the folder lose no row.
-/

namespace PeerShare

theorem Share.scan_ok {d : Disk} {folder : FilePath} {present : Names}
    (h : scan d folder = .ok present) :
    present.Ordered ∧ ∀ n ∈ present, isFileName n = true := by
  obtain ⟨⟨place, node⟩, -, h⟩ := Disk.bind_eq_ok.mp h
  rcases node with _ | _ | _ | _
  · cases h
  · cases h
  · cases h
    refine ⟨Names.ordered_ofList _, fun n hn => ?_⟩
    exact (isListed_iff.mp (List.mem_filter.mp (Names.mem_ofList.mp hn)).2).2.1
  · cases h

/-- There are numbers for as many rows as names have none. -/
def Table.Room (t : Table) (a : Agent) (names : Names) : Prop :=
  t.nextId.val.toNat + names.countP (fun n => t.Lacks (a.offer n)) < UInt64.size

theorem Names.countP_lt {p q : String → Bool} {ns : Names} {name : String} (hn : name ∈ ns)
    (hle : ∀ n ∈ ns, q n = true → p n = true) (hp : p name = true) (hq : q name = false) :
    ns.countP q < ns.countP p := by
  induction ns with
  | nil => cases hn
  | cons m ns ih =>
    have hrest : ns.countP q ≤ ns.countP p :=
      List.countP_mono_left fun n hm => hle n (List.mem_cons_of_mem _ hm)
    rw [List.countP_cons, List.countP_cons]
    rcases List.mem_cons.mp hn with rfl | hm
    · simp only [hp, hq, if_true, Bool.false_eq_true, if_false]
      omega
    · have hlt := ih hm fun n hn => hle n (List.mem_cons_of_mem _ hn)
      have hm' := hle m List.mem_cons_self
      split_ifs with h₁ h₂
      · omega
      · exact absurd (hm' h₁) h₂
      · omega
      · omega

/-- A scene, and what the clock shows at the calls to come; after the last of them it stands. -/
structure Timed where
  scene : Scene
  ahead : List Instant := []

namespace Timed

def atCall (s : Timed) : Scene := { s.scene with now := s.ahead.headD s.scene.now }

def world : Tick.World Timed where
  scan s := ((Scene.world.scan s.scene).1, s)
  call c s := ((Scene.world.call c s.atCall).1, ⟨(Scene.world.call c s.atCall).2, s.ahead.tail⟩)

def table (s : Timed) : Table := s.scene.registry.store.table

def Owns (s : Timed) (p : PeerId) : Prop := s.scene.registry.Owns p

def Proper (present : Names) : Call → Prop
  | .list name => name ∈ present
  | .delist name => name ∉ present
  | .heartbeat => True
  | .disconnect => False

/-- All an undisturbed tick of the agent needs. -/
structure Fit (a : Agent) (present : Names) (s : Timed) : Prop where
  agent : s.scene.agent = a
  scan : Share.scan s.scene.files s.scene.share = .ok present
  available : s.scene.registry.Available
  room : s.table.Room a present

/-! ### One call -/

section Call
variable {a : Agent} {present : Names} {s : Timed} {c : Call} {name n : String} {k : Offer}
  {q : PeerId}

theorem registry_call (h : s.Fit a present) (c : Call) : (world.call c s).2.scene.registry =
    (s.scene.registry.operate s.atCall.now (c.operation a)).2 := by
  have hc := Scene.world_call c s.atCall
  rw [← h.agent]
  simp only [world, hc]
  rfl

theorem table_call (h : s.Fit a present) (c : Call) : (world.call c s).2.table =
    (s.scene.registry.operate s.atCall.now (c.operation a)).2.store.table := by
  rw [table, registry_call h]

theorem not_failed_iff (h : s.Fit a present) (c : Call) : (world.call c s).1 ≠ .failed ↔
    (s.scene.registry.operate s.atCall.now (c.operation a)).1 = true := by
  have hcases := Scene.failed_or_done c s.atCall
  rw [← h.agent]
  rcases hcases with ⟨hf, hd⟩ | ⟨hf, hd⟩
  · exact iff_of_false (not_not.mpr hf) (Bool.eq_false_iff.mp hd)
  · exact iff_of_true hf hd

theorem done_of_proper (h : s.Fit a present) (hc : Proper present c) :
    (s.scene.registry.operate s.atCall.now (c.operation a)).1 = true := by
  rcases h.available.done s.atCall.now (c.operation a) with hd | ⟨peer, o, ho, hwhy⟩
  · exact hd
  · cases c with
    | list name =>
      obtain ⟨-, rfl⟩ := Registry.Operation.list.inj ho
      rcases hwhy with hname | ⟨hnext, hlack⟩
      · have hok := (Share.scan_ok h.scan).2 name hc
        exact absurd hname (Bool.not_eq_false _ ▸ hok)
      · have hpos : 0 < present.countP fun n => s.table.Lacks (a.offer n) :=
          List.countP_pos_iff.mpr ⟨name, hc, decide_eq_true hlack⟩
        have hroom := h.room
        have hsmall : s.table.nextId.val.toNat + 1 < UInt64.size := by
          unfold Table.Room at hroom
          omega
        cases (if_pos hsmall).symm.trans hnext
    | delist name => cases ho
    | heartbeat => cases ho
    | disconnect => cases ho

theorem heldBy_list (h : s.Fit a present) (hn : name ∈ present) :
    (world.call (.list name) s).2.table.HeldBy k q ↔ s.table.HeldBy k q ∨
      (k = a.offer name ∧ q = a.peer ∧ s.table.Lacks (a.offer name)) := by
  rw [table_call h]
  exact Registry.heldBy_list h.available.table (done_of_proper (c := .list name) h hn)

theorem heldBy_delist (h : s.Fit a present) (hn : name ∉ present) :
    (world.call (.delist name) s).2.table.HeldBy k q ↔
      s.table.HeldBy k q ∧ ¬ (k.fileName = name ∧ q = a.peer) := by
  rw [table_call h]
  exact Registry.heldBy_delist h.available.table (done_of_proper (c := .delist name) h hn)

theorem heldBy_heartbeat (h : s.Fit a present) :
    (world.call .heartbeat s).2.table.HeldBy k q ↔ s.table.HeldBy k q := by
  rw [table_call h]
  exact Registry.heldBy_heartbeat h.available.table

theorem lacks_heartbeat (h : s.Fit a present) :
    (world.call .heartbeat s).2.table.Lacks k ↔ s.table.Lacks k := by
  simp only [Table.lacks_iff_not_heldBy, heldBy_heartbeat h]

theorem heldBy_other (h : s.Fit a present) (hc : Proper present c) (hq : q ≠ a.peer) :
    (world.call c s).2.table.HeldBy k q ↔ s.table.HeldBy k q := by
  cases c with
  | list name =>
    rw [heldBy_list h hc]
    simp only [hq, false_and, and_false, or_false]
  | delist name =>
    rw [heldBy_delist h hc]
    simp only [hq, and_false, not_false_eq_true, and_true]
  | heartbeat => exact heldBy_heartbeat h
  | disconnect => exact hc.elim

theorem lacks_of_call (h : s.Fit a present) (hc : Proper present c) (hn : n ∈ present)
    (hl : (world.call c s).2.table.Lacks (a.offer n)) : s.table.Lacks (a.offer n) := by
  rw [Table.lacks_iff_not_heldBy] at hl ⊢
  intro q hq
  refine hl q ?_
  cases c with
  | list name => exact (heldBy_list h hc).mpr (.inl hq)
  | delist name =>
    refine (heldBy_delist h hc).mpr ⟨hq, fun he => ?_⟩
    have hname : n = name := he.1
    exact hc (hname ▸ hn)
  | heartbeat => exact (heldBy_heartbeat h).mpr hq
  | disconnect => exact hc.elim

theorem not_lacks_list (h : s.Fit a present) (hn : name ∈ present) :
    ¬ (world.call (.list name) s).2.table.Lacks (a.offer name) := by
  intro hl
  have hbefore := lacks_of_call (c := .list name) h hn hn hl
  have hheld : (world.call (.list name) s).2.table.HeldBy (a.offer name) a.peer :=
    (heldBy_list h hn).mpr (.inr ⟨rfl, rfl, hbefore⟩)
  exact Table.lacks_iff_not_heldBy.mp hl _ hheld

theorem room_call (h : s.Fit a present) (hc : Proper present c) :
    (world.call c s).2.table.Room a present := by
  have hroom := h.room
  have hmono : ∀ n ∈ present, decide ((world.call c s).2.table.Lacks (a.offer n)) = true →
      decide (s.table.Lacks (a.offer n)) = true := by
    intro n hn hl
    exact decide_eq_true (lacks_of_call h hc hn (of_decide_eq_true hl))
  have hnext := Registry.nextId_operate h.available.table s.atCall.now (c.operation a)
  rw [← table_call h] at hnext
  unfold Table.Room at hroom ⊢
  rcases hnext with hsame | ⟨peer, o, ho, hlack, hnext⟩
  · have hcount := List.countP_mono_left hmono
    have hid : (world.call c s).2.table.nextId = s.table.nextId := hsame
    rw [hid]
    omega
  · -- A number has been given out, to a name that had no row and has one now.
    cases c with
    | list name =>
      obtain ⟨-, rfl⟩ := Registry.Operation.list.inj ho
      have hcount := Names.countP_lt hc hmono (decide_eq_true hlack)
        (decide_eq_false (not_lacks_list h hc))
      have hid : (world.call (.list name) s).2.table.nextId.val.toNat =
        s.table.nextId.val.toNat + 1 := EntryId.next?_toNat hnext
      omega
    | delist name => cases ho
    | heartbeat => cases ho
    | disconnect => cases ho

theorem Fit.call (h : s.Fit a present) (hc : Proper present c) :
    (world.call c s).2.Fit a present where
  agent := h.agent
  scan := h.scan
  available := by
    rw [registry_call h]
    exact h.available.operate _ _
  room := room_call h hc

theorem heartbeat_reply (h : s.Fit a present) :
    ((world.call .heartbeat s).1 = .yes ∧ s.Owns a.peer) ∨
    ((world.call .heartbeat s).1 = .no ∧ ¬ s.Owns a.peer) := by
  have hdone := (not_failed_iff h .heartbeat).mpr (done_of_proper (c := .heartbeat) h trivial)
  have hpeer : s.atCall.agent.peer = a.peer := congrArg Agent.peer h.agent
  rcases hx : (world.call .heartbeat s).1 with _ | _ | _
  · have hyes := Scene.heartbeat_yes hx
    rw [hpeer] at hyes
    exact .inl ⟨rfl, hyes⟩
  · have hno := Scene.heartbeat_no hx
    rw [hpeer] at hno
    exact .inr ⟨rfl, hno⟩
  · exact absurd hx hdone

end Call

/-! ### The calls of a pass -/

section Calls
variable {a : Agent} {present ns : Names} {s : Timed} {cs : List Call} {n : String} {k : Offer}
  {q : PeerId}

theorem proper_calls (present known : Names) : ∀ c ∈ Tick.calls present known, Proper present c := by
  intro c hc
  rcases List.mem_append.mp hc with hc | hc
  · obtain ⟨n, hn, rfl⟩ := List.mem_map.mp hc
    exact (Names.mem_diff.mp hn).1
  · obtain ⟨n, hn, rfl⟩ := List.mem_map.mp hc
    exact (Names.mem_diff.mp hn).2

theorem Fit.after (h : s.Fit a present) (hc : ∀ c ∈ cs, Proper present c) :
    (world.after cs s).Fit a present :=
  Tick.World.after_invariant (P := Fit a present) (fun c hm _ hs => hs.call (hc c hm)) h

theorem Fit.heard (h : s.Fit a present) (hc : ∀ c ∈ cs, Proper present c) : world.Heard cs s :=
  Tick.World.heard_of_invariant (P := Fit a present) (fun c hm _ hs => hs.call (hc c hm))
    (fun c hm _ hs => (not_failed_iff hs c).mpr (done_of_proper hs (hc c hm))) h

theorem heldBy_after_other (h : s.Fit a present) (hc : ∀ c ∈ cs, Proper present c)
    (hq : q ≠ a.peer) : (world.after cs s).table.HeldBy k q ↔ s.table.HeldBy k q := by
  have hinv : (world.after cs s).Fit a present ∧
      ((world.after cs s).table.HeldBy k q ↔ s.table.HeldBy k q) :=
    Tick.World.after_invariant
      (P := fun x : Timed => x.Fit a present ∧ (x.table.HeldBy k q ↔ s.table.HeldBy k q))
      (fun c hm x hx => ⟨hx.1.call (hc c hm), (heldBy_other hx.1 (hc c hm) hq).trans hx.2⟩)
      ⟨h, Iff.rfl⟩
  exact hinv.2

theorem not_lacks_after (h : s.Fit a present) (hc : ∀ c ∈ cs, Proper present c)
    (hn : n ∈ present) (hl : ¬ s.table.Lacks (a.offer n)) :
    ¬ (world.after cs s).table.Lacks (a.offer n) := by
  have hinv : (world.after cs s).Fit a present ∧ ¬ (world.after cs s).table.Lacks (a.offer n) :=
    Tick.World.after_invariant (P := fun x : Timed => x.Fit a present ∧ ¬ x.table.Lacks (a.offer n))
      (fun c hm x hx =>
        ⟨hx.1.call (hc c hm), fun hl => hx.2 (lacks_of_call hx.1 (hc c hm) hn hl)⟩)
      ⟨h, hl⟩
  exact hinv.2

theorem proper_list (hns : ∀ n ∈ ns, n ∈ present) : ∀ c ∈ ns.map Call.list, Proper present c := by
  intro c hc
  obtain ⟨n, hn, rfl⟩ := List.mem_map.mp hc
  exact hns n hn

theorem not_lacks_listed (h : s.Fit a present) (hns : ∀ n ∈ ns, n ∈ present) (hn : n ∈ ns) :
    ¬ (world.after (ns.map .list) s).table.Lacks (a.offer n) := by
  induction ns generalizing s with
  | nil => cases hn
  | cons m ns ih =>
    have hm := hns m List.mem_cons_self
    have hrest : ∀ n ∈ ns, n ∈ present := fun n hn => hns n (List.mem_cons_of_mem _ hn)
    have hfit := h.call (c := .list m) hm
    rcases List.mem_cons.mp hn with rfl | hn
    · have hafter : ¬ (world.after (ns.map .list) (world.call (.list n) s).2).table.Lacks
          (a.offer n) := not_lacks_after hfit (proper_list hrest) hm (not_lacks_list h hm)
      exact hafter
    · exact ih hfit hrest hn

theorem heldBy_after_full (h : s.Fit a present) (hns : ∀ n ∈ ns, n ∈ present)
    (hfull : ∀ n ∈ present, ¬ s.table.Lacks (a.offer n)) :
    (world.after (ns.map .list) s).table.HeldBy k q ↔ s.table.HeldBy k q := by
  induction ns generalizing s with
  | nil => exact Iff.rfl
  | cons m ns ih =>
    have hm := hns m List.mem_cons_self
    have hrest : ∀ n ∈ ns, n ∈ present := fun n hn => hns n (List.mem_cons_of_mem _ hn)
    have hfull' : ∀ n ∈ present, ¬ (world.call (.list m) s).2.table.Lacks (a.offer n) :=
      fun n hn hl => hfull n hn (lacks_of_call (c := .list m) h hm hn hl)
    have hstep := heldBy_list (k := k) (q := q) h hm
    simp only [hfull m hm, and_false, or_false] at hstep
    exact (ih (h.call (c := .list m) hm) hrest hfull').trans hstep

theorem heldBy_after_delist (h : s.Fit a present) (hns : ∀ n ∈ ns, n ∉ present)
    (hnone : ¬ s.Owns a.peer) :
    (world.after (ns.map .delist) s).table.HeldBy k q ↔ s.table.HeldBy k q := by
  induction ns generalizing s with
  | nil => exact Iff.rfl
  | cons m ns ih =>
    have hm := hns m List.mem_cons_self
    have hrest : ∀ n ∈ ns, n ∉ present := fun n hn => hns n (List.mem_cons_of_mem _ hn)
    have hstep {k : Offer} {q : PeerId} :
        (world.call (.delist m) s).2.table.HeldBy k q ↔ s.table.HeldBy k q := by
      rw [heldBy_delist h hm, and_iff_left_iff_imp]
      intro hheld howned
      exact hnone ⟨k, howned.2 ▸ hheld⟩
    have hnone' : ¬ (world.call (.delist m) s).2.Owns a.peer := by
      intro howned
      obtain ⟨k, hk⟩ := howned
      exact hnone ⟨k, hstep.mp hk⟩
    exact (ih (h.call (c := .delist m) hm) hrest hnone').trans hstep

end Calls

end Timed
end PeerShare
