import PeerShare.Agent.Basic
import PeerShare.Proofs.Names
import PeerShare.Proofs.Registry.Operation

/-!
What an agent's calls do to a registry that holds nothing but the agent's own rows, all of them
under names that the agent knows. Every call keeps this, if the agent draws its conclusions from
the answer: what it lists it knows from then on, what it withdraws it forgets, and if it is told
that there are no rows it forgets all.
-/

namespace PeerShare

def Call.operation (a : Agent) : Call → Registry.Operation
  | .list name => .list a.peer (a.offer name)
  | .delist name => .delist name a.peer
  | .heartbeat => .heartbeat a.peer
  | .disconnect => .disconnect a.peer

namespace Registry

def Offers (r : Registry) (k : Offer) : Prop := ∃ p t, r.store.table.Has k p t

/-- All rows are the agent's, under known names, and none has been seen in the future. -/
structure Orderly (r : Registry) (a : Agent) (known : Names) (now : Instant) : Prop where
  table : r.store.table.WellFormed
  rows : ∀ k p t, r.store.table.Has k p t →
    p = a.peer ∧ k = a.offer k.fileName ∧ k.fileName ∈ known ∧ t ≤ now

section Perform
variable {r : Registry} {now : Instant} {a : Agent} {c : Call}

theorem perform_operate (r : Registry) (now : Instant) (a : Agent) (c : Call) :
    (r.perform now a c).2 = (r.operate now (c.operation a)).2 ∧
      (r.perform now a c).1.isOk = (r.operate now (c.operation a)).1 := by
  cases c with
  | list name =>
    simp only [perform, operate, Call.operation]
    rcases r.list now a.peer (a.offer name) with halt | ⟨x | x, r'⟩ <;> exact ⟨rfl, rfl⟩
  | delist name => exact ⟨rfl, rfl⟩
  | heartbeat => exact ⟨rfl, rfl⟩
  | disconnect =>
    simp only [perform, operate, Call.operation]
    rcases r.disconnect a.peer with ⟨x | x, r'⟩ <;> exact ⟨rfl, rfl⟩

theorem perform_heartbeat {b : Bool} (h : (r.perform now a .heartbeat).1 = .ok b) :
    b = true ↔ ∃ k t, r.store.table.Has k a.peer t := by
  have hn : b = decide (0 < (r.store.table.touchOwner a.peer now).1) := by
    simp only [perform, heartbeat, state] at h
    split at h
    · cases h
    · simp only [Store.touchOwner, Store.change] at h
      split_ifs at h with h0
      · cases h
        rw [h0]
      · cases hc : (r.store.commit (r.store.table.touchOwner a.peer now).2).1 with
        | error e => simp only [hc] at h; cases h
        | ok u =>
          simp only [hc] at h
          exact (Except.ok.inj h).symm
  rw [hn, decide_eq_true_iff, Table.touchOwner, List.countP_pos_iff]
  constructor
  · intro hrow
    obtain ⟨q, hq, ho⟩ := hrow
    exact ⟨q.offer, q.lastSeen, q, hq, rfl, of_decide_eq_true ho, rfl⟩
  · intro hrow
    obtain ⟨k, t, q, hq, -, ho, -⟩ := hrow
    exact ⟨q, hq, decide_eq_true ho⟩

end Perform

/-! ### Order -/

section Orderly
variable {r : Registry} {now later : Instant} {a : Agent} {known known' : Names} {k : Offer}

theorem Orderly.mono (h : r.Orderly a known now) (hk : ∀ n ∈ known, n ∈ known')
    (ht : now ≤ later) : r.Orderly a known' later := by
  refine ⟨h.table, fun k p t hh => ?_⟩
  obtain ⟨hp, ho, hn, hs⟩ := h.rows k p t hh
  exact ⟨hp, ho, hk _ hn, Instant.le_trans hs ht⟩

theorem Orderly.operate (h : r.Orderly a known now) (op : Operation)
    (hl : ∀ k p, (r.entry now op).lists k p = true →
      p = a.peer ∧ k = a.offer k.fileName ∧ k.fileName ∈ known')
    (hk : ∀ k s, r.store.table.Has k a.peer s →
      (r.entry now op).removes r.policy k a.peer s = false → k.fileName ∈ known') :
    (r.operate now op).2.Orderly a known' now := by
  refine ⟨wellFormed_operate h.table now op, fun k p t hh => ?_⟩
  rcases (has_operate h.table now op).mp hh with ⟨hl', -, rfl⟩ | ⟨s, hs, hr, rfl⟩
  · obtain ⟨hp, ho, hn⟩ := hl k p hl'
    exact ⟨hp, ho, hn, Instant.le_refl _⟩
  · obtain ⟨rfl, ho, -, ht⟩ := h.rows k p s hs
    refine ⟨rfl, ho, hk k s hs hr, ?_⟩
    unfold Entry.seen
    split_ifs
    · exact Instant.max_le ht (Instant.le_refl _)
    · exact ht

theorem Orderly.keep (h : r.Orderly a known now) {op : Operation}
    (hop : ∀ p o, op ≠ .list p o) : (r.operate now op).2.Orderly a known now := by
  refine h.operate op (fun k p hl => ?_) fun k s hs _ => (h.rows k _ s hs).2.2.1
  exact absurd (Entry.lists_iff.mp hl).2 (hop p k)

theorem Orderly.list (h : r.Orderly a known now) (name : String) :
    (r.operate now (.list a.peer (a.offer name))).2.Orderly a
      (if (r.operate now (.list a.peer (a.offer name))).1 then Names.insert name known else known)
      now := by
  have old : ∀ k s, r.store.table.Has k a.peer s → k.fileName ∈ known :=
    fun k s hs => (h.rows k _ s hs).2.2.1
  cases hd : (r.operate now (.list a.peer (a.offer name))).1 with
  | true =>
    refine h.operate _ (fun k p hl => ?_) fun k s hs _ => Names.mem_insert.mpr (.inr (old k s hs))
    obtain ⟨rfl, rfl⟩ := Operation.list.inj (Entry.lists_iff.mp hl).2
    exact ⟨rfl, rfl, Names.mem_insert.mpr (.inl rfl)⟩
  | false =>
    refine h.operate _ (fun k p hl => ?_) fun k s hs _ => old k s hs
    exact absurd (Entry.lists_iff.mp hl).1 (Bool.eq_false_iff.mp hd)

theorem Orderly.delist (h : r.Orderly a known now) {name : String}
    (hd : (r.operate now (.delist name a.peer)).1 = true) :
    (r.operate now (.delist name a.peer)).2.Orderly a (Names.erase name known) now := by
  refine h.operate _ (fun k p hl => ?_) fun k s hs hr => ?_
  · cases (Entry.lists_iff.mp hl).2
  · refine Names.mem_erase.mpr ⟨(h.rows k _ s hs).2.2.1, fun hn => ?_⟩
    simp [Entry.removes, entry, hd, hn] at hr

theorem Orderly.none_left (h : r.Orderly a known now)
    (hn : ¬ ∃ k t, r.store.table.Has k a.peer t) (k : Offer) : ¬ r.Offers k := by
  intro hrow
  obtain ⟨p, t, hh⟩ := hrow
  obtain ⟨rfl, -⟩ := h.rows k p t hh
  exact hn ⟨k, t, hh⟩

theorem Orderly.of_none (h : r.Orderly a known now) (hn : ∀ k, ¬ r.Offers k) :
    r.Orderly a known' now :=
  ⟨h.table, fun k p t hh => absurd ⟨p, t, hh⟩ (hn k)⟩

end Orderly

/-! ### Rows of the agent -/

section Offers
variable {r : Registry} {now t : Instant} {a : Agent} {known : Names} {name n : String}

theorem offers_of_kept (h : r.store.table.WellFormed) {op : Operation} {k : Offer}
    (hk : ∀ p seen, (r.entry now op).removes r.policy k p seen = false) (ho : r.Offers k) :
    (r.operate now op).2.Offers k := by
  obtain ⟨p, s, hs⟩ := ho
  exact ⟨p, _, (has_operate h now op).mpr (.inr ⟨s, hs, hk p s, rfl⟩)⟩

theorem offers_list (h : r.Orderly a known now)
    (hd : (r.operate now (.list a.peer (a.offer name))).1 = true) :
    (r.operate now (.list a.peer (a.offer name))).2.Offers (a.offer n) ↔
      r.Offers (a.offer n) ∨ n = name := by
  have hl : (r.entry now (.list a.peer (a.offer name))).lists (a.offer name) a.peer = true :=
    Entry.lists_iff.mpr ⟨hd, rfl⟩
  constructor
  · intro hrow
    obtain ⟨p, t, hh⟩ := hrow
    rcases (has_operate h.table now _).mp hh with ⟨hl', -⟩ | ⟨s, hs, -⟩
    · exact .inr (congrArg Offer.fileName (Operation.list.inj (Entry.lists_iff.mp hl').2).2).symm
    · exact .inl ⟨p, s, hs⟩
  · intro hn
    rcases hn with ho | rfl
    · exact offers_of_kept h.table (fun _ _ => removes_list rfl) ho
    · exact has_of_lists h.table hl

theorem offers_delist (h : r.Orderly a known now)
    (hd : (r.operate now (.delist name a.peer)).1 = true) :
    (r.operate now (.delist name a.peer)).2.Offers (a.offer n) ↔
      r.Offers (a.offer n) ∧ n ≠ name := by
  have removes (s : Instant) : (r.entry now (.delist name a.peer)).removes r.policy (a.offer n)
      a.peer s = true ↔ n = name := by
    simp only [Entry.removes, entry, hd, Agent.offer, Bool.true_and, decide_true, Bool.and_true]
    exact decide_eq_true_iff
  constructor
  · intro hrow
    obtain ⟨p, t, hh⟩ := hrow
    rcases (has_operate h.table now _).mp hh with ⟨hl, -⟩ | ⟨s, hs, hr, -⟩
    · cases (Entry.lists_iff.mp hl).2
    · obtain ⟨rfl, -⟩ := h.rows _ p s hs
      exact ⟨⟨a.peer, s, hs⟩, fun hn => Bool.eq_false_iff.mp hr ((removes s).mpr hn)⟩
  · intro hrow
    obtain ⟨⟨p, s, hs⟩, hn⟩ := hrow
    obtain ⟨rfl, -⟩ := h.rows _ p s hs
    exact ⟨a.peer, _, (has_operate h.table now _).mpr
      (.inr ⟨s, hs, Bool.eq_false_iff.mpr (mt (removes s).mp hn), rfl⟩)⟩

theorem has_heartbeat (h : r.Orderly a known now)
    (hd : (r.operate now (.heartbeat a.peer)).1 = true) {k : Offer} {p : PeerId} :
    (r.operate now (.heartbeat a.peer)).2.store.table.Has k p t ↔
      p = a.peer ∧ t = now ∧ r.Offers k := by
  have seen {s : Instant} (hs : s ≤ now) :
      (r.entry now (.heartbeat a.peer)).seen k a.peer s = now := by
    simp only [Entry.seen, Entry.renews, entry, hd, decide_true, Bool.and_self, if_true]
    exact Instant.max_eq_right hs
  constructor
  · intro hh
    rcases (has_operate h.table now _).mp hh with ⟨hl, -⟩ | ⟨s, hs, -, rfl⟩
    · cases (Entry.lists_iff.mp hl).2
    · obtain ⟨rfl, -, -, hle⟩ := h.rows _ p s hs
      exact ⟨rfl, seen hle, a.peer, s, hs⟩
  · intro hrow
    obtain ⟨rfl, rfl, p, s, hs⟩ := hrow
    obtain ⟨rfl, -, -, hle⟩ := h.rows _ p s hs
    exact (has_operate h.table t _).mpr (.inr ⟨s, hs, removes_heartbeat rfl, (seen hle).symm⟩)

end Offers
end Registry
end PeerShare
