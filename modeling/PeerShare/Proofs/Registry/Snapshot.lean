import PeerShare.Proofs.Table.Aligned
import PeerShare.Registry.Snapshot

/-!
What a snapshot keeps of a table. The rows are entered again one after the other; since they come
in the order of their numbers, each enters as a new row would, and the next number stays.
-/

namespace PeerShare

namespace Table
variable {t : Table}

theorem WellFormed.rows_eq (h : t.WellFormed) : t.rows = t.listings.map fun r => (r.id, r) := by
  rw [listings, List.map_map]
  refine (List.map_id _).symm.trans (List.map_congr_left fun e he => ?_)
  simp only [Function.comp, h.own e he, id]

theorem WellFormed.pairwise (h : t.WellFormed) :
    t.listings.Pairwise fun q r => q.id < r.id ∧ q.offer ≠ r.offer := by
  rw [listings, List.pairwise_map]
  refine h.sorted.imp_of_mem fun {e f} he hf hlt => ?_
  rw [← h.own e he, ← h.own f hf] at hlt
  refine ⟨hlt, fun ho => EntryId.ne_of_lt hlt (congrArg _ ?_)⟩
  exact h.eq_of_offer (List.mem_map_of_mem he) (List.mem_map_of_mem hf) ho

end Table

namespace Snapshot
variable {t : Table} {n : EntryId}

theorem addEntry_eq {r : Listing} (hn : t.nextId = n) (hr : r.id < n) :
    addEntry t r = .ok (t.enter r n) := by
  obtain ⟨next, hnext⟩ := EntryId.exists_next? hr
  simp only [addEntry, hnext, hn, EntryId.max_eq_left (EntryId.next?_le hnext hr), Table.enter]

theorem foldlM_addEntry {l : List Listing} (h : t.WellFormed) (hn : t.nextId = n)
    (hl : (t.listings ++ l).Pairwise fun q r => q.id < r.id ∧ q.offer ≠ r.offer)
    (hb : ∀ r ∈ l, r.id < n) :
    ∃ u, l.foldlM addEntry t = .ok u ∧ u.WellFormed ∧ u.nextId = n ∧
      u.listings = t.listings ++ l ∧ (t.Aligned → u.Aligned) := by
  induction l generalizing t with
  | nil => exact ⟨t, rfl, h, hn, (List.append_nil _).symm, id⟩
  | cons r l ih =>
    have hr := hb r List.mem_cons_self
    have before := (List.pairwise_append.mp hl).2.2
    have he : t.Entrant r := ⟨fun q hq => (before q hq r List.mem_cons_self).1,
      fun q hq => (before q hq r List.mem_cons_self).2⟩
    have hs : (t.enter r n).listings ++ l = t.listings ++ r :: l := by
      rw [Table.listings_enter h he, List.append_assoc]
      rfl
    obtain ⟨u, hu, hw, hun, hul, ha⟩ := ih (h.enter he hr) rfl (hs ▸ hl)
      fun q hq => hb q (List.mem_cons_of_mem _ hq)
    refine ⟨u, ?_, hw, hun, hul.trans hs, fun hi => ha (hi.enter h he n)⟩
    rw [List.foldlM_cons, addEntry_eq hn hr]
    exact hu

theorem toTable_ofTable (h : t.WellFormed) : ∃ u, (ofTable t).toTable = .ok u ∧ u.WellFormed ∧
    u.nextId = t.nextId ∧ u.rows = t.rows ∧ u.Aligned := by
  have start : Table.WellFormed { nextId := t.nextId } :=
    ⟨.nil, by simp, by simp, .nil, by simp [Table.get?]⟩
  obtain ⟨u, hu, hw, hn, hl, ha⟩ := foldlM_addEntry start rfl h.pairwise fun _ => h.id_lt
  exact ⟨u, hu, hw, hn, by rw [hw.rows_eq, h.rows_eq]; exact congrArg _ hl, ha rfl⟩

theorem toTable_ofTable_of_aligned (h : t.WellFormed) (ha : t.Aligned) :
    (ofTable t).toTable = .ok t := by
  obtain ⟨u, hu, -, hn, hr, hi⟩ := toTable_ofTable h
  rw [hu, ha.eq hi hn hr]

end Snapshot
end PeerShare
