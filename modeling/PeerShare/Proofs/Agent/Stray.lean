import PeerShare.Proofs.Agent.Convergence
import PeerShare.Proofs.Agent.Dealings
import PeerShare.Proofs.Agent.Follow

/-!
Which rows an agent may leave behind. A tick that the registry has confirmed and in which nothing
failed knows exactly what it found in the folder. So a row of another file is one that the agent does
not know of, and it comes of a listing that was done while its reply got lost, and about which the
agent has been told nothing since. Such a row is never withdrawn while the file stays away.
-/

namespace PeerShare

namespace Contact
variable {a : Agent} {n : String} {c : Contact} {past : List Contact}

/-- The file was listed, and the agent was not told. -/
def Lost (a : Agent) (n : String) (c : Contact) : Prop :=
  c.entry.lists (a.offer n) a.peer = true ∧ c.reply = .failed

/-- The agent was told something about the file: that it is listed or withdrawn, or that the agent's
peer has no row at all. -/
def Settles (a : Agent) (n : String) (c : Contact) : Prop :=
  c.reply ≠ .failed ∧ (c.entry.op = (Call.list n).operation a ∨
    c.entry.op = (Call.delist n).operation a ∨
    c.entry.op = Call.heartbeat.operation a ∧ c.reply = .no)

def Stray (a : Agent) (n : String) (past : List Contact) : Prop :=
  ∃ before c after, past = before ++ c :: after ∧ c.Lost a n ∧ ∀ c' ∈ after, ¬ c'.Settles a n

theorem stray_of_lost (h : c.Lost a n) : Stray a n (past ++ [c]) :=
  ⟨past, c, [], rfl, h, fun _ hm => absurd hm List.not_mem_nil⟩

theorem Stray.snoc (h : Stray a n past) (hc : ¬ c.Settles a n) : Stray a n (past ++ [c]) := by
  obtain ⟨before, c₀, after, rfl, hlost, hafter⟩ := h
  refine ⟨before, c₀, after ++ [c], by simp, hlost, fun c' hm => ?_⟩
  rcases List.mem_append.mp hm with hm | hm
  · exact hafter c' hm
  · exact List.mem_singleton.mp hm ▸ hc

end Contact

theorem Call.operation_injective {a : Agent} {c c' : Call} (h : c.operation a = c'.operation a) :
    c = c' := by
  cases c with
  | list name =>
    cases c' with
    | list name' =>
      have hoffer := (Registry.Operation.list.inj h).2
      exact congrArg Call.list (congrArg Offer.fileName hoffer)
    | _ => cases h
  | delist name =>
    cases c' with
    | delist name' => exact congrArg Call.delist (Registry.Operation.delist.inj h).1
    | _ => cases h
  | heartbeat => cases c' <;> first | rfl | cases h
  | disconnect => cases c' <;> first | rfl | cases h

namespace Dealings
variable {d d' : Dealings} {way : Way} {c : Call} {n : String} {k : Offer} {t : Instant}

theorem agent_called (d : Dealings) (way : Way) (c : Call) : (d.called way c).scene.agent =
    d.scene.agent.after (d.tick.answered (send way c d.scene).1.reply) := by
  have hagent := (sameSetting_send way c d.scene).agent
  simp only [called, advance, hagent]

theorem known_answered {u : Tick} {reply : Reply} (hc : u.call? = some c) (hn : n ∈ u.known)
    (hgone : n ∉ (u.answered reply).known) :
    reply ≠ .failed ∧ (c = .delist n ∨ c = .heartbeat ∧ reply = .no) := by
  unfold Tick.call? at hc
  split at hc
  · rename_i name later present hp
    rw [Tick.known_list hp] at hgone
    split_ifs at hgone with hr
    · exact absurd hn hgone
    · exact absurd (Names.mem_insert.mpr (.inr hn)) hgone
  · rename_i name later hp
    cases hc
    rw [Tick.known_delist hp] at hgone
    split_ifs at hgone with hr
    · exact absurd hn hgone
    · rw [Names.mem_erase, not_and, not_not] at hgone
      exact ⟨hr, .inl (congrArg Call.delist (hgone hn).symm)⟩
  · rename_i hp
    cases hc
    rcases Tick.known_heartbeat hp reply with he | ⟨hr, -⟩
    · exact absurd (he ▸ hn) hgone
    · exact ⟨by rw [hr]; exact nofun, .inr ⟨rfl, hr⟩⟩
  · cases hc
  · cases hc

theorem known_or_stray (hc : d.tick.call? = some c)
    (hn : n ∈ d.tick.known ∨ Contact.Stray d.scene.agent n d.past)
    (htold : (send way c d.scene).1.reply ≠ .failed →
      ¬ (c = .delist n ∨ c = .heartbeat ∧ (send way c d.scene).1.reply = .no)) :
    n ∈ (d.tick.answered (send way c d.scene).1.reply).known ∨
      Contact.Stray d.scene.agent n (d.past ++ [(send way c d.scene).1]) := by
  rcases hn with hn | hn
  · by_contra hnot
    obtain ⟨hr, hwhy⟩ := known_answered hc hn (not_or.mp hnot).1
    exact htold hr hwhy
  · by_cases hs : (send way c d.scene).1.Settles d.scene.agent n
    · obtain ⟨hr, hop⟩ := hs
      rw [(entry_send way c d.scene).2] at hop
      rcases hop with hop | hop | ⟨hop, hno⟩
      · cases Call.operation_injective hop
        obtain ⟨later, present, hp⟩ := Tick.phase_of_list hc
        rw [Tick.known_list hp, if_neg hr]
        exact .inl (Names.mem_insert.mpr (.inl rfl))
      · exact absurd (.inl (Call.operation_injective hop)) (htold hr)
      · exact absurd (.inr ⟨Call.operation_injective hop, hno⟩) (htold hr)
    · exact .inr (hn.snoc hs)

/-- Every row of the agent's peer is known to the agent, or stray. -/
structure Traced (d : Dealings) : Prop where
  table : d.table.WellFormed
  known : d.scene.agent.known = d.tick.known
  rows : ∀ k t, d.table.Has k d.peer t → k = d.scene.agent.offer k.fileName ∧
    (k.fileName ∈ d.tick.known ∨ Contact.Stray d.scene.agent k.fileName d.past)

theorem traced_called (h : d.Traced) (hc : d.tick.call? = some c) : (d.called way c).Traced := by
  have hpeer : (d.called way c).peer = d.peer := by
    rw [peer, agent_called]
    rfl
  refine ⟨wellFormed_send h.table way c, ?_, fun k t hrow => ?_⟩
  · rw [agent_called]
    rfl
  rw [hpeer] at hrow
  rw [agent_called]
  rcases (has_send h.table).mp hrow with ⟨hl, -, -⟩ | ⟨t₀, h₀, hkept, -⟩
  · -- The row has just been listed.
    have hop := (Registry.Entry.lists_iff.mp hl).2
    rw [(entry_send way c d.scene).2] at hop
    cases c with
    | list name =>
      obtain ⟨-, rfl⟩ := Registry.Operation.list.inj hop
      refine ⟨rfl, ?_⟩
      by_cases hr : (send way (.list name) d.scene).1.reply = .failed
      · exact .inr (Contact.stray_of_lost ⟨hl, hr⟩)
      · obtain ⟨later, present, hp⟩ := Tick.phase_of_list hc
        have hknown := Tick.known_list hp (send way (.list name) d.scene).1.reply
        rw [if_neg hr] at hknown
        have hname : name ∈ (d.tick.answered (send way (.list name) d.scene).1.reply).known :=
          hknown ▸ Names.mem_insert.mpr (.inl rfl)
        exact .inl hname
    | _ => cases hop
  · obtain ⟨hoffer, hn⟩ := h.rows k t₀ h₀
    refine ⟨hoffer, known_or_stray hc hn fun hr hwhy => ?_⟩
    rcases hwhy with rfl | ⟨rfl, hno⟩
    · have hop := (entry_send way (.delist k.fileName) d.scene).2
      have hdone := done_of_reply hr
      simp [Registry.Entry.removes, hdone, hop, Call.operation, peer] at hkept
    · exact none_of_reply_no hno ⟨k, t₀, h₀⟩

theorem traced_step (h : d.Traced) (e : Event) : (d.step e).Traced := by
  cases e with
  | files files => exact ⟨h.table, h.known, h.rows⟩
  | clock t => exact ⟨h.table, h.known, h.rows⟩
  | sweep =>
    exact ⟨wellFormed_step h.table .sweep, h.known, fun k t hrow =>
      h.rows k t ((has_swept h.table).mp hrow).1⟩
  | begin =>
    simp only [step]
    split_ifs
    · refine ⟨h.table, rfl, fun k t hrow => ?_⟩
      have hrows := h.rows k t hrow
      rw [← h.known] at hrows
      exact hrows
    · exact h
  | go way =>
    rcases step_go_cases d way with ⟨-, he⟩ | ⟨c, hc, he⟩ | ⟨-, he⟩
    · rw [he]
      refine ⟨h.table, rfl, fun k t hrow => ?_⟩
      have hrows := h.rows k t hrow
      rw [← Tick.known_scanned d.tick (Scene.world.scan d.scene).1] at hrows
      exact hrows
    · rw [he]
      exact traced_called h hc
    · rw [he]
      exact h

def Following (d : Dealings) : Prop := d.tick.report.failures = 0 → d.tick.Follows d.found

theorem following_step (h : d.Following) (e : Event) : (d.step e).Following := by
  cases e with
  | begin =>
    simp only [step]
    split_ifs
    · intro _ hyes
      cases hyes
    · exact h
  | go way =>
    rcases step_go_cases d way with ⟨hp, he⟩ | ⟨c, hc, he⟩ | ⟨-, he⟩
    · rw [he]
      intro hf
      have hbefore : d.tick.report.failures = 0 :=
        Nat.le_zero.mp (hf ▸ Tick.failures_scanned d.tick _)
      exact Tick.follows_scanned hp (h hbefore) hf
    · rw [he]
      intro hf
      have hbefore : d.tick.report.failures = 0 :=
        Nat.le_zero.mp (hf ▸ Tick.failures_answered d.tick _)
      exact Tick.follows_answered hc (h hbefore) hf
    · rw [he]
      exact h
  | _ => exact h

/-! ### Rows that stay -/

def Unnoticed (n : String) (d : Dealings) (e : Event) : Prop :=
  e ≠ .sweep ∧ n ∉ (d.step e).found

/-- The row stands for a file that the agent has nothing to do with. -/
structure Abandoned (n : String) (k : Offer) (p : PeerId) (t : Instant) (d : Dealings) : Prop where
  table : d.table.WellFormed
  known : d.scene.agent.known = d.tick.known
  skips : d.tick.Skips n
  offer : d.scene.agent.offer n = k
  peer : d.peer = p
  row : ∃ t', d.table.Has k p t' ∧ t ≤ t'

theorem le_seen (e : Registry.Entry) (k : Offer) (p : PeerId) (t : Instant) : t ≤ e.seen k p t := by
  unfold Registry.Entry.seen
  split_ifs
  · exact Instant.le_max_left t e.now
  · exact Instant.le_refl t

theorem abandoned_called {p : PeerId} (h : d.Abandoned n k p t) (hc : d.tick.call? = some c) :
    (d.called way c).Abandoned n k p t := by
  have hagent := agent_called d way c
  refine ⟨wellFormed_send h.table way c, by rw [hagent]; rfl, Tick.skips_answered hc h.skips _,
    by rw [hagent]; exact h.offer, by rw [peer, hagent]; exact h.peer, ?_⟩
  obtain ⟨t', hrow, hle⟩ := h.row
  refine ⟨_, (has_send h.table).mpr (.inr ⟨t', hrow, ?_, rfl⟩), Instant.le_trans hle (le_seen _ k p t')⟩
  have hop := (entry_send way c d.scene).2
  obtain ⟨-, hother⟩ := h.skips.call_ne hc
  cases c with
  | list name => exact Registry.removes_list hop
  | delist name =>
    have hname : k.fileName ≠ name := by
      rw [← h.offer]
      exact fun he => hother (congrArg Call.delist he.symm)
    simp only [Registry.Entry.removes, hop, Call.operation, hname, decide_false, Bool.false_and,
      Bool.and_false]
  | heartbeat => exact Registry.removes_heartbeat hop
  | disconnect => exact absurd hc (Tick.call?_ne_disconnect _)

theorem abandoned_step {p : PeerId} (h : d.Abandoned n k p t) {e : Event} (he : Unnoticed n d e) :
    (d.step e).Abandoned n k p t := by
  obtain ⟨hsweep, hfound⟩ := he
  cases e with
  | files files => exact ⟨h.table, h.known, h.skips, h.offer, h.peer, h.row⟩
  | clock t => exact ⟨h.table, h.known, h.skips, h.offer, h.peer, h.row⟩
  | sweep => exact absurd rfl hsweep
  | begin =>
    simp only [step]
    split_ifs
    · have hunknown : n ∉ d.scene.agent.known := h.known ▸ h.skips.1
      exact ⟨h.table, rfl, ⟨hunknown, trivial⟩, h.offer, h.peer, h.row⟩
    · exact h
  | go way =>
    rcases step_go_cases d way with ⟨-, he⟩ | ⟨c, hc, he⟩ | ⟨-, he⟩
    · rw [he] at hfound ⊢
      exact ⟨h.table, rfl, Tick.skips_scanned h.skips.1 hfound, h.offer, h.peer, h.row⟩
    · rw [he]
      exact abandoned_called h hc
    · rw [he]
      exact h

structure Begins (d : Dealings) : Prop where
  known : d.scene.agent.known = []
  tick : d.tick = { known := [], phase := .finished }
  past : d.past = []
  table : d.table.WellFormed
  none_owned : ∀ k t, ¬ d.table.Has k d.peer t

theorem Begins.traced (h : d.Begins) : d.Traced :=
  ⟨h.table, by rw [h.known, h.tick], fun k t hrow => absurd hrow (h.none_owned k t)⟩

theorem Begins.following (h : d.Begins) : d.Following := by
  intro _
  rw [h.tick]
  exact fun hyes => by cases hyes

/-- What rows there are after a tick that was confirmed and in which nothing failed, whatever was
lost before and whatever came between: those of files that its last scan found, and stray ones. And a
row of a file that it did not find stays, however many ticks follow, while no scan finds the file and
no sweep comes. The next tick, if nothing comes between and every call is answered, is one of the
agent in its scene. -/
theorem unscanned_rows_are_stray {d₀ d : Dealings} (h₀ : d₀.Begins) (h : d₀.Reaches Any d)
    (hp : d.tick.phase = .finished) (hf : d.tick.report.failures = 0)
    (hn : d.tick.report.renewed = some true) :
    (∀ k t, d.table.Has k d.peer t → k = d.scene.agent.offer k.fileName ∧
      (k.fileName ∈ d.found ∨ Contact.Stray d.scene.agent k.fileName d.past)) ∧
    (∀ n, n ∉ d.found → ∀ t, d.table.Has (d.scene.agent.offer n) d.peer t →
      ∀ d', d.Reaches (Unnoticed n) d' →
        ∃ t', d'.table.Has (d.scene.agent.offer n) d.peer t' ∧ t ≤ t') ∧
    ∃ n, (d.run (.begin :: .replicate n (.go .answered))).tick.phase = .finished ∧
      (d.run (.begin :: .replicate n (.go .answered))).tick.report = d.scene.tick.1 ∧
      (d.run (.begin :: .replicate n (.go .answered))).scene = d.scene.tick.2 := by
  have htraced : d.Traced := h.invariant (fun _ e _ hd => traced_step hd e) h₀.traced
  have hfollowing : d.Following := h.invariant (fun _ e _ hd => following_step hd e) h₀.following
  have hknown : ∀ n, n ∈ d.tick.known ↔ n ∈ d.found := by
    have hfollows := hfollowing hf
    simp only [Tick.Follows, hp] at hfollows
    exact hfollows hn
  refine ⟨fun k t hrow => ?_, fun n hn t hrow d' hreach => ?_, exists_run_tick hp⟩
  · obtain ⟨hoffer, hwhy⟩ := htraced.rows k t hrow
    exact ⟨hoffer, hwhy.imp_left (hknown _).mp⟩
  · have hskips : d.tick.Skips n := by
      refine ⟨mt (hknown n).mp hn, ?_⟩
      rw [hp]
      trivial
    have habandoned : d.Abandoned n (d.scene.agent.offer n) d.peer t :=
      ⟨htraced.table, htraced.known, hskips, rfl, rfl, t, hrow, Instant.le_refl t⟩
    have hend : d'.Abandoned n (d.scene.agent.offer n) d.peer t :=
      hreach.invariant (fun _ _ he hd => abandoned_step hd he) habandoned
    exact hend.row

/-! ### A reply that gets lost -/

def newcomer : Dealings :=
  { scene := Scene.oneFile, tick := { known := [], phase := .finished } }

/-- The reply to the first listing goes unheard. Then another file takes the place of the first. -/
def lostReply : List Event :=
  [.begin, .go .answered, .go .unheard, .go .answered, .files (Scene.folderOf ["b.txt"]),
    .begin, .go .answered, .go .answered, .go .answered]

def haunted : Dealings := newcomer.run lostReply

theorem newcomer_begins : newcomer.Begins := by
  refine ⟨rfl, rfl, rfl, .empty, fun k t hrow => ?_⟩
  obtain ⟨q, hq, -⟩ := hrow
  cases hq

theorem newcomer_reaches : newcomer.Reaches Any haunted := reaches_run fun _ _ _ => trivial

theorem haunted_tick : haunted.tick.phase = .finished ∧
    haunted.tick.report = { listed := 1, renewed := some true } ∧ haunted.found = ["b.txt"] := by
  decide +kernel

theorem haunted_row : haunted.table.Has (haunted.scene.agent.offer "a.txt") haunted.peer default :=
  ⟨⟨⟨0⟩, ⟨"p"⟩, ⟨"a.txt", "localhost", 9100⟩, default⟩, by decide +kernel, by decide +kernel,
    by decide +kernel, rfl⟩

theorem unscanned_rows_are_stray_haunted : newcomer.Begins ∧ newcomer.Reaches Any haunted ∧
    Contact.Stray haunted.scene.agent "a.txt" haunted.past ∧
    ∀ d', haunted.Reaches (Unnoticed "a.txt") d' →
      ∃ t', d'.table.Has (haunted.scene.agent.offer "a.txt") haunted.peer t' := by
  obtain ⟨hp, hreport, hfound⟩ := haunted_tick
  have hlast := unscanned_rows_are_stray newcomer_begins newcomer_reaches hp (by rw [hreport])
    (by rw [hreport])
  have haway : "a.txt" ∉ haunted.found := by
    rw [hfound]
    decide
  refine ⟨newcomer_begins, newcomer_reaches, ?_, fun d' hreach => ?_⟩
  · exact (hlast.1 _ _ haunted_row).2.resolve_left haway
  · obtain ⟨t', hrow, -⟩ := hlast.2.1 "a.txt" haway default haunted_row d' hreach
    exact ⟨t', hrow⟩

/-- Nothing failed in the last tick, and the registry confirmed it, but there is a row of a file that
is gone. -/
theorem confirmed_tick_haunted : newcomer.Begins ∧ newcomer.Reaches Any haunted ∧
    haunted.tick.phase = .finished ∧ haunted.tick.report = { listed := 1, renewed := some true } ∧
    haunted.table.Has (haunted.scene.agent.offer "a.txt") haunted.peer default ∧
    "a.txt" ∉ haunted.found := by
  obtain ⟨hp, hreport, hfound⟩ := haunted_tick
  refine ⟨newcomer_begins, newcomer_reaches, hp, hreport, haunted_row, ?_⟩
  rw [hfound]
  decide

end Dealings
end PeerShare
