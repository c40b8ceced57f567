import PeerShare.Peer.Run
import PeerShare.Proofs.Agent.Passes

/-!
The calls of a running peer from its first to its last. Events come in any order and at any moment,
and one that does not fit passes the peer by. After the question for the liveness window the peer
makes the calls of its passes, one after the other, and when it has noticed that it is cancelled it
makes one more, to disconnect. It ends well whether that succeeds or not.
-/

namespace PeerShare

namespace Peer

def Stage.asked : Stage → Bool
  | .asking _ => false
  | _ => true

def Stage.cancelled : Stage → Bool
  | .asking c => c
  | .resting | .reconciling _ => false
  | .leaving | .finished => true

namespace Run

def next (r : Run) (e : Event) : Option Request × Run := (r.step e).getD (none, r)

def play (r : Run) : List Event → List Request × Run
  | [] => ([], r)
  | e :: es => ((r.next e).1.toList ++ ((r.next e).2.play es).1, ((r.next e).2.play es).2)

/-- All that an event can come to. -/
inductive Turn : Run → Event → Option Request × Run → Prop
  | known (a : Agent) (d : Option Span) :
      Turn ⟨a, .asking false⟩ (.window d) (none, ⟨a, .resting⟩)
  | late (a : Agent) (d : Option Span) : Turn ⟨a, .asking true⟩ (.window d) (leave a)
  | noted (a : Agent) (c : Bool) : Turn ⟨a, .asking c⟩ .cancel (none, ⟨a, .asking true⟩)
  | begun (a : Agent) : Turn ⟨a, .resting⟩ .due (none, ⟨a, .reconciling a.tick⟩)
  | cancelled (a : Agent) : Turn ⟨a, .resting⟩ .cancel (leave a)
  | dropped (a : Agent) (t : Tick) : Turn ⟨a, .reconciling t⟩ .cancel (leave (a.after t))
  | scanned (a : Agent) {t : Tick} (found : Option Names) (scans : t.phase = .scan) :
      Turn ⟨a, .reconciling t⟩ (.scanned found) (resume a (t.scanned found))
  | answered (a : Agent) {t : Tick} (reply : Reply) (calls : t.call?.isSome) :
      Turn ⟨a, .reconciling t⟩ (.answered reply) (resume a (t.answered reply))
  | parted (a : Agent) (reply : Reply) :
      Turn ⟨a, .leaving⟩ (.answered reply) (none, ⟨a, .finished⟩)
  | passed {r : Run} {e : Event} (window : ∀ d, e = .window d → r.stage.asked)
      (cancel : e = .cancel → r.stage.cancelled)
      (parted : ∀ reply, e = .answered reply → r.stage ≠ .leaving) : Turn r e (none, r)

theorem turn_next (r : Run) (e : Event) : Turn r e (r.next e) := by
  obtain ⟨a, stage⟩ := r
  cases stage with
  | asking c =>
    cases e with
    | window d =>
      cases c with
      | false => exact .known a d
      | true => exact .late a d
    | cancel =>
      cases c with
      | false => exact .noted a false
      | true => exact .noted a true
    | _ => cases c <;> exact .passed nofun nofun nofun
  | resting =>
    cases e with
    | due => exact .begun a
    | cancel => exact .cancelled a
    | _ => exact .passed (fun _ _ => rfl) nofun nofun
  | reconciling t =>
    cases e with
    | cancel => exact .dropped a t
    | scanned found =>
      simp only [next, step]
      split_ifs with h
      · exact .scanned a found h
      · exact .passed nofun nofun nofun
    | answered reply =>
      simp only [next, step]
      split_ifs with h
      · exact .answered a reply h
      · exact .passed nofun nofun nofun
    | _ => exact .passed (fun _ _ => rfl) nofun nofun
  | leaving =>
    cases e with
    | answered reply => exact .parted a reply
    | _ => exact .passed (fun _ _ => rfl) (fun _ => rfl) nofun
  | finished => cases e <;> exact .passed (fun _ _ => rfl) (fun _ => rfl) nofun

/-! ### When a run notices that it is cancelled -/

def Leaves (r : Run) : Prop := r.stage.asked ∧ r.stage.cancelled

theorem leaves_iff (r : Run) : r.Leaves ↔ r.stage = .leaving ∨ r.stage = .finished := by
  unfold Leaves
  cases r.stage <;> simp [Stage.asked, Stage.cancelled]

theorem leaves_leave (a : Agent) : (leave a).2.Leaves := by
  rw [leaves_iff]
  simp only [leave]
  split
  · exact .inl rfl
  · exact .inr rfl

theorem resume_cases (a : Agent) (t : Tick) :
    (t.phase = .finished ∧ resume a t = (none, ⟨a.after t, .resting⟩)) ∨
    (t.phase ≠ .finished ∧ resume a t = (t.call?.map a.request, ⟨a.after t, .reconciling t⟩)) := by
  unfold resume
  split_ifs with h
  · exact .inl ⟨h, rfl⟩
  · exact .inr ⟨h, rfl⟩

theorem Leaves.next {r : Run} (h : r.Leaves) (e : Event) :
    (r.next e).1 = none ∧ (r.next e).2.Leaves ∧
      (r.stage = .finished ∨ (∃ reply, e = .answered reply) → (r.next e).2.stage = .finished) := by
  have ht := turn_next r e
  have hl := (leaves_iff r).mp h
  generalize r.next e = x at ht ⊢
  cases ht with
  | parted => exact ⟨rfl, ⟨rfl, rfl⟩, fun _ => rfl⟩
  | passed _ _ parted =>
    exact ⟨rfl, h, fun hf => hf.elim id fun ⟨reply, he⟩ => hl.resolve_left (parted reply he)⟩
  | _ => rcases hl with hl | hl <;> cases hl

theorem Leaves.play {r : Run} (h : r.Leaves) (es : List Event) :
    (r.play es).1 = [] ∧
      (r.stage = .finished ∨ (∃ reply, .answered reply ∈ es) → (r.play es).2.stage = .finished) := by
  induction es generalizing r with
  | nil => exact ⟨rfl, fun hf => hf.elim id nofun⟩
  | cons e es ih =>
    obtain ⟨hn, hl, hs⟩ := h.next e
    obtain ⟨hq, hf⟩ := ih hl
    refine ⟨by rw [Run.play, hn, hq]; rfl, fun hfin => hf ?_⟩
    rcases hfin with hfin | ⟨reply, hr⟩
    · exact .inl (hs (.inl hfin))
    · rcases List.mem_cons.mp hr with rfl | hr
      · exact .inl (hs (.inr ⟨reply, rfl⟩))
      · exact .inr ⟨reply, hr⟩

/-! ### What it has asked for by then -/

/-- The calls that a run has made after its first one, if the agent began as `a`. -/
inductive Issued (a : Agent) : List Call → Run → Prop
  | asking (c : Bool) : Issued a [] ⟨a, .asking c⟩
  | resting {cs : List Call} {b : Agent} (passes : a.Passes cs b) : Issued a cs ⟨b, .resting⟩
  | reconciling {cs ds : List Call} {b : Agent} {t : Tick} (passes : a.Passes cs b)
      (course : b.tick.Course ds t) : Issued a (cs ++ ds) ⟨b.after t, .reconciling t⟩
  | left {cs ds : List Call} {b : Agent} {t : Tick} {r : Run} (passes : a.Passes cs b)
      (course : b.tick.Course ds t) (leaves : r.Leaves) : Issued a (cs ++ ds ++ [.disconnect]) r

section Issued
variable {a b : Agent} {cs ds : List Call} {r : Run}

theorem leave_of_connected (h : b.disconnected = false) : leave b =
    (some (b.request .disconnect), ⟨{ b with known := [], disconnected := true }, .leaving⟩) := by
  simp only [leave, Agent.shutdown, h]
  rfl

theorem issued_leave (ha : a.disconnected = false) (passes : a.Passes cs b) {t : Tick}
    (course : b.tick.Course ds t) :
    (leave (b.after t)).1 = some (a.request .disconnect) ∧
      Issued a (cs ++ ds ++ [.disconnect]) (leave (b.after t)).2 := by
  have hb : (b.after t).disconnected = false := passes.disconnected.trans ha
  rw [leave_of_connected hb]
  refine ⟨congrArg some ((b.request_after t _).trans (passes.request _)), ?_⟩
  exact .left passes course ⟨rfl, rfl⟩

theorem issued_resume (passes : a.Passes cs b) {t u : Tick}
    (course : b.tick.Course (ds ++ u.call?.toList) u) :
    (resume (b.after t) u).1 = u.call?.map a.request ∧
      Issued a (cs ++ ds ++ u.call?.toList) (resume (b.after t) u).2 := by
  rw [List.append_assoc]
  have hafter : (b.after t).after u = b.after u := rfl
  rcases resume_cases (b.after t) u with ⟨hp, hr⟩ | ⟨-, hr⟩
  · have hc : u.call? = none := by simp only [Tick.call?, hp]
    rw [hr, hc, hafter]
    rw [hc] at course
    exact ⟨rfl, .resting (.pass passes course hp)⟩
  · rw [hr, hafter]
    refine ⟨?_, .reconciling passes course⟩
    have hq : (b.after t).request = a.request :=
      funext fun c => (b.request_after t c).trans (passes.request c)
    rw [hq]

theorem Issued.next (ha : a.disconnected = false) (h : Issued a cs r) (e : Event) :
    ∃ q : Option Call, (r.next e).1 = q.map a.request ∧
      Issued a (cs ++ q.toList) (r.next e).2 := by
  have ht := turn_next r e
  generalize r.next e = x at ht ⊢
  cases ht with
  | known =>
    cases h with
    | asking => exact ⟨none, rfl, .resting .none⟩
    | left _ _ leaves => cases leaves.1
  | late =>
    cases h with
    | asking => exact ⟨some .disconnect, issued_leave ha .none (t := a.tick) .start⟩
    | left _ _ leaves => cases leaves.1
  | noted =>
    cases h with
    | asking => exact ⟨none, rfl, .asking true⟩
    | left _ _ leaves => cases leaves.1
  | begun =>
    cases h with
    | resting passes => exact ⟨none, rfl, .reconciling passes .start⟩
    | left _ _ leaves => cases leaves.2
  | cancelled b =>
    cases h with
    | resting passes =>
      have hl := issued_leave ha passes (t := b.tick) .start
      rw [List.append_nil] at hl
      exact ⟨some .disconnect, hl⟩
    | left _ _ leaves => cases leaves.2
  | dropped =>
    cases h with
    | reconciling passes course => exact ⟨some .disconnect, issued_leave ha passes course⟩
    | left _ _ leaves => cases leaves.2
  | scanned _ found scans =>
    cases h with
    | reconciling passes course => exact ⟨_, issued_resume passes (.scanned found course scans)⟩
    | left _ _ leaves => cases leaves.2
  | answered _ reply calls =>
    cases h with
    | reconciling passes course => exact ⟨_, issued_resume passes (.answered reply course calls)⟩
    | left _ _ leaves => cases leaves.2
  | parted =>
    cases h with
    | left passes course _ =>
      refine ⟨none, rfl, ?_⟩
      rw [Option.toList_none, List.append_nil]
      exact .left passes course ⟨rfl, rfl⟩
  | passed => exact ⟨none, rfl, by rwa [Option.toList_none, List.append_nil]⟩

theorem Issued.play (ha : a.disconnected = false) (h : Issued a cs r) (es : List Event) :
    ∃ ds : List Call, (r.play es).1 = ds.map a.request ∧ Issued a (cs ++ ds) (r.play es).2 := by
  induction es generalizing r cs with
  | nil => exact ⟨[], rfl, by rwa [List.append_nil]⟩
  | cons e es ih =>
    obtain ⟨q, hq, hn⟩ := h.next ha e
    obtain ⟨ds, hd, hi⟩ := ih hn
    refine ⟨q.toList ++ ds, ?_, by rwa [← List.append_assoc]⟩
    rw [Run.play, hq, hd, List.map_append]
    cases q <;> rfl

theorem Issued.passes (h : Issued a cs r) : ∃ ds es b t, a.Passes ds b ∧ b.tick.Course es t ∧
    (¬ r.Leaves → cs = ds ++ es) ∧ (r.Leaves → cs = ds ++ es ++ [.disconnect]) := by
  cases h with
  | asking => exact ⟨[], [], a, a.tick, .none, .start, fun _ => rfl, fun hl => by cases hl.1⟩
  | resting passes =>
    exact ⟨cs, [], _, _, passes, .start, fun _ => (List.append_nil _).symm, fun hl => by cases hl.2⟩
  | reconciling passes course =>
    exact ⟨_, _, _, _, passes, course, fun _ => rfl, fun hl => by cases hl.2⟩
  | left passes course leaves =>
    exact ⟨_, _, _, _, passes, course, fun hn => absurd leaves hn, fun _ => rfl⟩

end Issued
end Run

/-! ### From the first call to the last -/

/-- The calls of a peer and what it ends with, if it has ended. -/
def life (c : PeerConfig) (home : FilePath) (fresh : PeerId)
    (bound : Except IoCause (Except IoCause UInt16)) (d : Disk) (es : List Event) :
    List Request × Option (Except Halt (Except PeerError Unit)) :=
  match (prepare c home fresh bound d).1 with
  | .error halt => ([], some (.error halt))
  | .ok (.error e) => ([], some (.ok (.error e)))
  | .ok (.ok p) =>
    let (qs, r) := Run.play { agent := p.agent } es
    (.livenessWindow :: qs, if r.stage = .finished then some (.ok (.ok ())) else none)

section Life
variable {c : PeerConfig} {home : FilePath} {fresh : PeerId}
  {bound : Except IoCause (Except IoCause UInt16)} {d : Disk} {p : Peer}

end Life

/-- A first pass is dropped while its only file is being listed, and the last call fails. -/
def dropped : List Event :=
  [.window none, .due, .scanned (some ["a.txt"]), .cancel, .answered .failed]

end Peer
end PeerShare
