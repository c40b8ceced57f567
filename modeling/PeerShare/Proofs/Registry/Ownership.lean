import PeerShare.Proofs.Registry.Operation

/-!
Who holds which offer. Listing gives a free offer to the peer who lists it and takes none away from
anyone; withdrawing frees what the peer held under the name; a renewal changes no holder. While
nothing stands in the way of saving and there are numbers for new rows, all of this is done.
-/

namespace PeerShare

namespace Table
variable {t : Table} {k : Offer} {p q : PeerId}

def HeldBy (t : Table) (k : Offer) (p : PeerId) : Prop := ∃ seen, t.Has k p seen

instance (t : Table) (k : Offer) : Decidable (t.Lacks k) :=
  inferInstanceAs (Decidable (∀ q ∈ t.listings, q.offer ≠ k))

theorem lacks_iff_not_heldBy : t.Lacks k ↔ ∀ p, ¬ t.HeldBy k p := by
  rw [Registry.lacks_iff]
  exact forall_congr' fun p => not_exists.symm

theorem exists_heldBy (h : ¬ t.Lacks k) : ∃ p, t.HeldBy k p := by
  rw [lacks_iff_not_heldBy] at h
  push Not at h
  exact h

theorem HeldBy.unique (hw : t.WellFormed) (h : t.HeldBy k p) (h' : t.HeldBy k q) : p = q := by
  obtain ⟨seen, hs⟩ := h
  obtain ⟨seen', hs'⟩ := h'
  exact (Registry.has_unique hw hs hs').1

end Table

namespace Registry

def Owns (r : Registry) (p : PeerId) : Prop := ∃ k, r.store.table.HeldBy k p

section Holders
variable {r : Registry} {now : Instant} {op : Operation} {k o : Offer} {p q : PeerId}
  {name : String}

theorem heldBy_operate (hw : r.store.table.WellFormed) (now : Instant) (op : Operation) :
    (r.operate now op).2.store.table.HeldBy k p ↔
      ((r.entry now op).lists k p = true ∧ r.store.table.Lacks k) ∨
      ∃ s, r.store.table.Has k p s ∧ (r.entry now op).removes r.policy k p s = false := by
  constructor
  · intro hheld
    obtain ⟨seen, hs⟩ := hheld
    rcases (has_operate hw now op).mp hs with ⟨hl, hlack, -⟩ | ⟨s, hs, hr, -⟩
    · exact .inl ⟨hl, hlack⟩
    · exact .inr ⟨s, hs, hr⟩
  · intro hcases
    rcases hcases with ⟨hl, hlack⟩ | ⟨s, hs, hr⟩
    · exact ⟨now, (has_operate hw now op).mpr (.inl ⟨hl, hlack, rfl⟩)⟩
    · exact ⟨_, (has_operate hw now op).mpr (.inr ⟨s, hs, hr, rfl⟩)⟩

theorem heldBy_list (hw : r.store.table.WellFormed) (hd : (r.operate now (.list p o)).1 = true) :
    (r.operate now (.list p o)).2.store.table.HeldBy k q ↔
      r.store.table.HeldBy k q ∨ (k = o ∧ q = p ∧ r.store.table.Lacks o) := by
  rw [heldBy_operate hw]
  constructor
  · intro hcases
    rcases hcases with ⟨hl, hlack⟩ | ⟨s, hs, -⟩
    · obtain ⟨rfl, rfl⟩ := Operation.list.inj (Entry.lists_iff.mp hl).2
      exact .inr ⟨rfl, rfl, hlack⟩
    · exact .inl ⟨s, hs⟩
  · intro hcases
    rcases hcases with ⟨s, hs⟩ | ⟨rfl, rfl, hlack⟩
    · exact .inr ⟨s, hs, removes_list rfl⟩
    · exact .inl ⟨Entry.lists_iff.mpr ⟨hd, rfl⟩, hlack⟩

theorem heldBy_delist (hw : r.store.table.WellFormed)
    (hd : (r.operate now (.delist name p)).1 = true) :
    (r.operate now (.delist name p)).2.store.table.HeldBy k q ↔
      r.store.table.HeldBy k q ∧ ¬ (k.fileName = name ∧ q = p) := by
  have removes (s : Instant) : (r.entry now (.delist name p)).removes r.policy k q s = false ↔
      ¬ (k.fileName = name ∧ q = p) := by
    simp only [Entry.removes, entry, hd, Bool.true_and, Bool.and_eq_false_imp, decide_eq_true_iff,
      decide_eq_false_iff_not, not_and]
  rw [heldBy_operate hw]
  constructor
  · intro hcases
    rcases hcases with ⟨hl, -⟩ | ⟨s, hs, hr⟩
    · cases (Entry.lists_iff.mp hl).2
    · exact ⟨⟨s, hs⟩, (removes s).mp hr⟩
  · intro hrow
    obtain ⟨⟨s, hs⟩, hn⟩ := hrow
    exact .inr ⟨s, hs, (removes s).mpr hn⟩

theorem heldBy_heartbeat (hw : r.store.table.WellFormed) :
    (r.operate now (.heartbeat p)).2.store.table.HeldBy k q ↔ r.store.table.HeldBy k q := by
  rw [heldBy_operate hw]
  constructor
  · intro hcases
    rcases hcases with ⟨hl, -⟩ | ⟨s, hs, -⟩
    · cases (Entry.lists_iff.mp hl).2
    · exact ⟨s, hs⟩
  · intro hheld
    obtain ⟨s, hs⟩ := hheld
    exact .inr ⟨s, hs, removes_heartbeat rfl⟩

theorem heldBy_renewed (hw : r.store.table.WellFormed)
    (hd : (r.operate now (.heartbeat p)).1 = true) (hh : r.store.table.HeldBy k p) :
    ∃ seen, (r.operate now (.heartbeat p)).2.store.table.Has k p seen ∧ now ≤ seen := by
  obtain ⟨s, hs⟩ := hh
  refine ⟨max s now, (has_operate hw now _).mpr (.inr ⟨s, hs, removes_heartbeat rfl, ?_⟩),
    Instant.le_max_right s now⟩
  simp only [Entry.seen, Entry.renews, entry, hd, decide_true, Bool.and_self, if_true]

theorem nextId_execute {s : Store} (hw : s.table.WellFormed) (st : Table.Statement) :
    (s.execute st).2.table.nextId = s.table.nextId ∨ ∃ owner o now,
      st = .upsert owner o now ∧ s.table.Lacks o ∧
        s.table.nextId.next? = some (s.execute st).2.table.nextId := by
  rcases Store.execute_table s st with ⟨-, ha⟩ | ⟨-, ht⟩
  · cases st with
    | upsert owner o now =>
      obtain ⟨q, hu⟩ := Table.Statement.apply_upsert.mp ha
      rcases Table.upsert_cases hw hu with ⟨p, -, -, -, he⟩ | ⟨next, ho, hn, -, he⟩
      · rw [he]
        exact .inl rfl
      · rw [he]
        exact .inr ⟨owner, o, now, rfl, ho, hn⟩
    | _ => exact .inl (by rw [← Except.ok.inj ha]; rfl)
  · exact .inl (by rw [ht])

theorem nextId_operate (hw : r.store.table.WellFormed) (now : Instant) (op : Operation) :
    (r.operate now op).2.store.table.nextId = r.store.table.nextId ∨ ∃ peer o,
      op = .list peer o ∧ r.store.table.Lacks o ∧
        r.store.table.nextId.next? = some (r.operate now op).2.store.table.nextId := by
  rcases operate_cases r now op with ⟨st, hst, he⟩ | ⟨-, he⟩ | ⟨-, he⟩
  · rw [he]
    rcases nextId_execute hw st with hn | ⟨owner, o, now', rfl, hl, hn⟩
    · exact .inl hn
    · cases op with
      | list peer o' =>
        cases hst
        exact .inr ⟨owner, o, rfl, hl, hn⟩
      | reap =>
        obtain ⟨cutoff, -, hc⟩ := Option.map_eq_some_iff.mp hst
        cases hc
      | _ => cases hst
  · rw [he]
    exact .inl rfl
  · rw [he]
    exact .inl rfl

end Holders

/-! ### Operations that are done -/

/-- No outage, and nothing in the way of saving. -/
structure Available (r : Registry) : Prop where
  table : r.store.table.WellFormed
  store : r.store.Ready
  outage : r.outage = none

section Available
variable {r : Registry} {now : Instant} {op : Operation}

theorem Available.default : Available {} := ⟨.empty, (fun _ hp => nomatch hp), rfl⟩

theorem Available.operate (h : r.Available) (now : Instant) (op : Operation) :
    (r.operate now op).2.Available := by
  refine ⟨wellFormed_operate h.table now op, ?_, (outage_operate r now op).trans h.outage⟩
  rcases operate_cases r now op with ⟨st, -, he⟩ | ⟨-, he⟩ | ⟨-, he⟩
  · rw [he]
    exact h.store.execute st
  · rw [he]
    exact h.store
  · rw [he]
    exact h.store

theorem Available.done (h : r.Available) (now : Instant) (op : Operation) :
    (r.operate now op).1 = true ∨ ∃ peer o, op = .list peer o ∧ (isFileName o.fileName = false ∨
      r.store.table.nextId.next? = none ∧ r.store.table.Lacks o) := by
  rcases operate_cases r now op with ⟨st, hst, he⟩ | ⟨-, he⟩ | ⟨hr, -⟩
  · rcases h.store.done h.table st with hd | ⟨owner, o, now', rfl, hn, ho⟩
    · exact .inl (by rw [he]; exact hd)
    · cases op with
      | list peer o' =>
        cases hst
        exact .inr ⟨owner, o, rfl, .inr ⟨hn, ho⟩⟩
      | reap =>
        obtain ⟨cutoff, -, hc⟩ := Option.map_eq_some_iff.mp hst
        cases hc
      | _ => cases hst
  · exact .inl (by rw [he])
  · rcases hr with hr | ⟨peer, o, rfl, hn⟩
    · exact absurd h.outage hr
    · exact .inr ⟨peer, o, rfl, .inl hn⟩

def Admits (r : Registry) (op : Operation) : Prop := ∀ peer o, op = .list peer o →
  isFileName o.fileName = true ∧ (r.store.table.Lacks o → r.store.table.nextId.next? ≠ none)

theorem admits_of_done (hw : r.store.table.WellFormed) (hd : (r.operate now op).1 = true) :
    r.Admits op := by
  intro peer o ho
  subst ho
  constructor
  · by_contra hn
    rw [operate_of_refused (.inr ⟨peer, o, rfl, Bool.eq_false_iff.mpr hn⟩) rfl] at hd
    cases hd
  · intro hlack hnext
    obtain ⟨row, hu⟩ := Table.Statement.apply_upsert.mp (apply_of_done hd rfl)
    rcases Table.upsert_cases hw hu with ⟨q, hq, he, -, -⟩ | ⟨next, -, hn, -, -⟩
    · exact hlack q hq he
    · cases hn.symm.trans hnext

theorem Available.done_iff (h : r.Available) (now : Instant) (op : Operation) :
    (r.operate now op).1 = true ↔ r.Admits op := by
  refine ⟨admits_of_done h.table, fun hadm => ?_⟩
  rcases h.done now op with hd | ⟨peer, o, ho, hn⟩
  · exact hd
  · obtain ⟨hname, hroom⟩ := hadm peer o ho
    rcases hn with hn | ⟨hn, hlack⟩
    · exact absurd hname (Bool.eq_false_iff.mp hn)
    · exact absurd hn (hroom hlack)

end Available
end Registry
end PeerShare
