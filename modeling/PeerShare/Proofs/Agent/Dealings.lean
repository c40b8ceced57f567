import Mathlib.Logic.Relation
import PeerShare.Proofs.Agent.Loss
import PeerShare.Proofs.Registry.History

/-!
An agent at work where calls and replies get lost. Its ticks go on step by step, and between any two
steps the folder may change, the clock may move and a sweep may come. A call that goes astray has no
effect; one whose reply goes unheard has had its effect, but to the agent it has failed as well. A
tick with which nothing interferes is a tick of the agent in its scene.
-/

namespace PeerShare

inductive Way
  | astray
  | unheard
  | answered
  deriving DecidableEq

/-- What the registry did at a call, and what the agent was told. -/
structure Contact where
  entry : Registry.Entry
  reply : Reply

structure Dealings where
  scene : Scene
  tick : Tick
  found : Names := []
  past : List Contact := []

namespace Dealings

def entryOf (c : Call) (s : Scene) : Registry.Entry :=
  s.registry.entry s.now (c.operation s.agent)

def send (way : Way) (c : Call) (s : Scene) : Contact × Scene :=
  match way with
  | .astray => (⟨{ entryOf c s with done := false }, .failed⟩, s)
  | .unheard => (⟨entryOf c s, .failed⟩, (Scene.world.call c s).2)
  | .answered => (⟨entryOf c s, (Scene.world.call c s).1⟩, (Scene.world.call c s).2)

inductive Event
  | files (d : Disk)
  | clock (t : Instant)
  | sweep
  | begin
  /-- The tick takes its next step, and the call that it may make fares so. -/
  | go (way : Way)

/-- The agent draws its conclusions at once. -/
def advance (d : Dealings) (t : Tick) : Dealings :=
  { d with tick := t, scene.agent := d.scene.agent.after t }

def scanned (d : Dealings) : Dealings :=
  let found := (Scene.world.scan d.scene).1
  advance { d with found := found.getD [] } (d.tick.scanned found)

def called (d : Dealings) (way : Way) (c : Call) : Dealings :=
  let (contact, scene) := send way c d.scene
  advance { d with scene := scene, past := d.past ++ [contact] } (d.tick.answered contact.reply)

def step (d : Dealings) : Event → Dealings
  | .files files => { d with scene.files := files }
  | .clock t => { d with scene.now := t }
  | .sweep => { d with scene := d.scene.swept }
  | .begin => if d.tick.phase = .finished then { d with tick := d.scene.agent.tick } else d
  | .go way =>
    match d.tick.call? with
    | some c => d.called way c
    | none => if d.tick.phase = .scan then d.scanned else d

def Next (allowed : Dealings → Event → Prop) (d d' : Dealings) : Prop :=
  ∃ e, allowed d e ∧ d' = d.step e

def Reaches (allowed : Dealings → Event → Prop) : Dealings → Dealings → Prop :=
  Relation.ReflTransGen (Next allowed)

def Any (_ : Dealings) (_ : Event) : Prop := True

def Forward (d : Dealings) : Event → Prop
  | .clock t => d.scene.now ≤ t
  | _ => True

def run (es : List Event) (d : Dealings) : Dealings := es.foldl step d

def table (d : Dealings) : Table := d.scene.registry.store.table

def peer (d : Dealings) : PeerId := d.scene.agent.peer

/-! ### Runs -/

section Runs
variable {allowed : Dealings → Event → Prop} {d d' : Dealings}

theorem Reaches.invariant {P : Dealings → Prop} (h : d.Reaches allowed d')
    (kept : ∀ d e, allowed d e → P d → P (d.step e)) (h₀ : P d) : P d' := by
  induction h with
  | refl => exact h₀
  | tail _ hn ih =>
    obtain ⟨e, he, rfl⟩ := hn
    exact kept _ e he ih

theorem reaches_run {es : List Event} (h : ∀ e ∈ es, ∀ d, allowed d e) :
    d.Reaches allowed (d.run es) := by
  induction es generalizing d with
  | nil => exact .refl
  | cons e es ih =>
    have hfirst : d.Next allowed (d.step e) := ⟨e, h e List.mem_cons_self d, rfl⟩
    have hrest : (d.step e).Reaches allowed ((d.step e).run es) :=
      ih fun e' he => h e' (List.mem_cons_of_mem _ he)
    exact Relation.ReflTransGen.head hfirst hrest

end Runs

/-! ### Steps -/

section Steps
variable {d : Dealings} {way : Way} {c : Call} {s : Scene} {k : Offer} {p : PeerId} {t : Instant}

theorem step_go_call (hc : d.tick.call? = some c) : d.step (.go way) = d.called way c := by
  simp only [step, hc]

theorem step_go_scan (hp : d.tick.phase = .scan) : d.step (.go way) = d.scanned := by
  simp only [step, Tick.call?, hp, if_true]

theorem step_go_finished (hp : d.tick.phase = .finished) : d.step (.go way) = d := by
  simp only [step, Tick.call?, hp, reduceCtorEq, if_false]

theorem step_go_cases (d : Dealings) (way : Way) :
    (d.tick.phase = .scan ∧ d.step (.go way) = d.scanned) ∨
    (∃ c, d.tick.call? = some c ∧ d.step (.go way) = d.called way c) ∨
    d.tick.phase = .finished ∧ d.step (.go way) = d := by
  cases hp : d.tick.phase with
  | scan => exact .inl ⟨rfl, step_go_scan hp⟩
  | finished => exact .inr (.inr ⟨rfl, step_go_finished hp⟩)
  | list name later present =>
    have hc : d.tick.call? = some (.list name) := by simp only [Tick.call?, hp]
    exact .inr (.inl ⟨_, hc, step_go_call hc⟩)
  | delist name later =>
    have hc : d.tick.call? = some (.delist name) := by simp only [Tick.call?, hp]
    exact .inr (.inl ⟨_, hc, step_go_call hc⟩)
  | heartbeat =>
    have hc : d.tick.call? = some .heartbeat := by simp only [Tick.call?, hp]
    exact .inr (.inl ⟨_, hc, step_go_call hc⟩)

theorem entry_send (way : Way) (c : Call) (s : Scene) :
    (send way c s).1.entry.now = s.now ∧ (send way c s).1.entry.op = c.operation s.agent := by
  cases way <;> exact ⟨rfl, rfl⟩

theorem sameSetting_send (way : Way) (c : Call) (s : Scene) : s.SameSetting (send way c s).2 := by
  cases way with
  | astray => exact .refl s
  | unheard => exact Scene.sameSetting_call c s
  | answered => exact Scene.sameSetting_call c s

theorem done_of_reply (h : (send way c s).1.reply ≠ .failed) :
    (send way c s).1.entry.done = true := by
  cases way with
  | astray => exact absurd rfl h
  | unheard => exact absurd rfl h
  | answered =>
    rcases Scene.failed_or_done c s with ⟨hf, -⟩ | ⟨-, hd⟩
    · exact absurd hf h
    · exact hd

theorem none_of_reply_no (h : (send way .heartbeat s).1.reply = .no) :
    ¬ ∃ k t, s.registry.store.table.Has k s.agent.peer t := by
  cases way with
  | astray => cases h
  | unheard => cases h
  | answered => exact Scene.heartbeat_no h

theorem wellFormed_send (hw : s.registry.store.table.WellFormed) (way : Way) (c : Call) :
    (send way c s).2.registry.store.table.WellFormed := by
  have hcall : (Scene.world.call c s).2.registry.store.table.WellFormed := by
    rw [Scene.world_call]
    exact Registry.wellFormed_operate hw _ _
  cases way with
  | astray => exact hw
  | unheard => exact hcall
  | answered => exact hcall

theorem has_send (hw : s.registry.store.table.WellFormed) :
    (send way c s).2.registry.store.table.Has k p t ↔
      ((send way c s).1.entry.lists k p = true ∧ s.registry.store.table.Lacks k ∧ t = s.now) ∨
      ∃ t₀, s.registry.store.table.Has k p t₀ ∧
        (send way c s).1.entry.removes s.registry.policy k p t₀ = false ∧
        t = (send way c s).1.entry.seen k p t₀ := by
  have hcall : (Scene.world.call c s).2.registry.store.table.Has k p t ↔
      ((entryOf c s).lists k p = true ∧ s.registry.store.table.Lacks k ∧ t = s.now) ∨
      ∃ t₀, s.registry.store.table.Has k p t₀ ∧
        (entryOf c s).removes s.registry.policy k p t₀ = false ∧ t = (entryOf c s).seen k p t₀ := by
    rw [Scene.world_call]
    exact Registry.has_operate hw _ _
  cases way with
  | astray =>
    simp only [send, Registry.Entry.lists, Registry.Entry.removes, Registry.Entry.seen,
      Registry.Entry.renews, Bool.false_and, Bool.false_eq_true, false_and, if_false, false_or,
      true_and, exists_eq_right']
  | unheard => exact hcall
  | answered => exact hcall

theorem has_swept (hw : d.table.WellFormed) : (d.step .sweep).table.Has k p t ↔
    d.table.Has k p t ∧ (d.scene.registry.entry d.scene.now .reap).removes
      d.scene.registry.policy k p t = false := by
  have htable : (d.step .sweep).table =
      (d.scene.registry.operate d.scene.now .reap).2.store.table := by
    rw [← Scene.sweep_operate]
    rfl
  rw [htable, Registry.has_operate hw]
  have hseen (t₀ : Instant) :
      (d.scene.registry.entry d.scene.now .reap).seen k p t₀ = t₀ := by
    simp only [Registry.Entry.seen, Registry.Entry.renews, Registry.entry, Bool.and_false,
      Bool.false_eq_true, if_false]
  constructor
  · intro hcases
    rcases hcases with ⟨hl, -⟩ | ⟨t₀, h₀, hr, rfl⟩
    · cases (Registry.Entry.lists_iff.mp hl).2
    · rw [hseen]
      exact ⟨h₀, hr⟩
  · intro hboth
    exact .inr ⟨t, hboth.1, hboth.2, (hseen t).symm⟩

theorem wellFormed_step (hw : d.table.WellFormed) (e : Event) : (d.step e).table.WellFormed := by
  cases e with
  | files files => exact hw
  | clock t => exact hw
  | sweep =>
    have h := Registry.wellFormed_operate hw d.scene.now .reap
    rw [← Scene.sweep_operate] at h
    exact h
  | begin =>
    simp only [step]
    split_ifs <;> exact hw
  | go way =>
    rcases step_go_cases d way with ⟨-, he⟩ | ⟨c, -, he⟩ | ⟨-, he⟩
    · rw [he]
      exact hw
    · rw [he]
      exact wellFormed_send hw way c
    · rw [he]
      exact hw

theorem agent_step (d : Dealings) (e : Event) :
    ∃ known, (d.step e).scene.agent = { d.scene.agent with known := known } := by
  cases e with
  | begin =>
    simp only [step]
    split_ifs <;> exact ⟨d.scene.agent.known, rfl⟩
  | go way =>
    rcases step_go_cases d way with ⟨-, he⟩ | ⟨c, -, he⟩ | ⟨-, he⟩
    · rw [he]
      exact ⟨_, rfl⟩
    · have hagent := (sameSetting_send way c d.scene).agent
      rw [he]
      simp only [called, advance, Agent.after, hagent]
      exact ⟨_, rfl⟩
    · rw [he]
      exact ⟨d.scene.agent.known, rfl⟩
  | _ => exact ⟨d.scene.agent.known, rfl⟩

end Steps

/-! ### Undisturbed ticks -/

section Ticks
variable {d : Dealings} {t : Tick} {s : Scene}

/-- The dealings are where the tick is in the scene, but that the agent has drawn its conclusions. -/
def At (d : Dealings) (t : Tick) (s : Scene) : Prop :=
  d.tick = t ∧ d.scene = { s with agent := s.agent.after t }

theorem call_after (c : Call) (s : Scene) (t : Tick) :
    Scene.world.call c { s with agent := s.agent.after t } =
      ((Scene.world.call c s).1, { (Scene.world.call c s).2 with agent := s.agent.after t }) := by
  cases c <;> rfl

theorem at_step (h : d.At t s) (hp : t.phase ≠ .finished) : (d.step (.go .answered)).At
    (Tick.step Scene.world t s).1 (Tick.step Scene.world t s).2 := by
  obtain ⟨htick, hscene⟩ := h
  subst htick
  rcases step_go_cases d .answered with ⟨hscan, he⟩ | ⟨c, hc, he⟩ | ⟨hfinished, -⟩
  · have hstep : Tick.step Scene.world d.tick s = (d.tick.scanned (Scene.world.scan s).1, s) := by
      simp only [Tick.step, hscan, Scene.world]
    rw [he, hstep]
    simp only [At, scanned, advance, hscene]
    exact ⟨rfl, rfl⟩
  · have hcall := call_after c s d.tick
    rw [he, Tick.step_call hc]
    simp only [At, called, advance, send, hscene, hcall]
    refine ⟨trivial, ?_⟩
    rw [(Scene.sameSetting_call c s).agent]
    rfl
  · exact absurd hfinished hp

theorem at_run (h : d.At t s) : ∃ n, (d.run (.replicate n (.go .answered))).At
    (Tick.run Scene.world t s).1 (Tick.run Scene.world t s).2 ∧
    (Tick.run Scene.world t s).1.phase = .finished := by
  induction t, s using Tick.run.induct Scene.world generalizing d with
  | case1 t s hp =>
    rw [Tick.run_finished hp]
    exact ⟨0, h, hp⟩
  | case2 t s hp ih =>
    obtain ⟨n, hn⟩ := ih (at_step h hp)
    rw [Tick.run_step hp]
    exact ⟨n + 1, hn⟩

/-- If nothing comes between and every call is answered, a tick begins and ends as one of the agent
in its scene does. -/
theorem exists_run_tick (h : d.tick.phase = .finished) : ∃ n,
    (d.run (.begin :: .replicate n (.go .answered))).tick.phase = .finished ∧
    (d.run (.begin :: .replicate n (.go .answered))).tick.report = d.scene.tick.1 ∧
    (d.run (.begin :: .replicate n (.go .answered))).scene = d.scene.tick.2 := by
  have hbegin : (d.step .begin).At d.scene.agent.tick d.scene := by
    simp only [step, if_pos h]
    exact ⟨rfl, rfl⟩
  obtain ⟨n, ⟨htick, hscene⟩, hend⟩ := at_run hbegin
  have hagent := (Scene.sameSetting_run d.scene.agent.tick d.scene).agent
  refine ⟨n, ?_, ?_, hscene.trans ?_⟩
  · exact (congrArg Tick.phase htick).trans hend
  · exact congrArg Tick.report htick
  · rw [hagent]
    rfl

end Ticks
end Dealings
end PeerShare
