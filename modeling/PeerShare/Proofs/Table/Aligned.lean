import PeerShare.Proofs.Table.Statement

/-!
The order of the index. A table made by statements lists the offers in its index in the order of its
rows, so that the index says nothing the rows do not say, and two such tables with the same rows and
the same next number are equal.
-/

namespace PeerShare

theorem Keyed.put_of_get?_eq_none {κ α : Type} [DecidableEq κ] {k : κ} {l : List (κ × α)}
    (h : get? k l = none) (a : α) : put k a l = l ++ [(k, a)] := by
  induction l with
  | nil => rfl
  | cons e l ih =>
    rw [get?_cons] at h
    split_ifs at h with hk
    simp only [put, if_neg hk, List.cons_append, ih h]

theorem map_putSorted {α β : Type} {f : EntryId × α → β} {l : List (EntryId × α)}
    (hl : l.Pairwise (·.1 < ·.1)) {k : EntryId} {a b : α} (hb : (k, b) ∈ l)
    (hf : f (k, a) = f (k, b)) : (Keyed.putSorted k a l).map f = l.map f := by
  induction l with
  | nil => cases hb
  | cons e l ih =>
    obtain ⟨he, hl'⟩ := List.pairwise_cons.mp hl
    simp only [Keyed.putSorted]
    rcases List.mem_cons.mp hb with rfl | hb
    · simp only [if_true, List.map_cons, hf]
    · have hlt : e.1 < k := he _ hb
      have hn : ¬ k < e.1 := fun h => EntryId.ne_of_lt (EntryId.lt_trans hlt h) rfl
      simp only [if_neg (EntryId.ne_of_lt hlt), if_neg hn, List.map_cons, ih hl' hb]

namespace Table
variable {t u : Table}

def indexEntry (r : Listing) : Offer × EntryId := (r.offer, r.id)

def Aligned (t : Table) : Prop := t.index = t.listings.map indexEntry

theorem Aligned.empty : Table.empty.Aligned := rfl

theorem Aligned.renew (h : t.Aligned) (hw : t.WellFormed) {r : Listing} (hr : r ∈ t.listings)
    (now : Instant) : (t.renew r now).Aligned := by
  have hm : (r.id, r) ∈ t.rows := hw.mem_rows_iff.mpr ⟨hr, rfl⟩
  have same := map_putSorted (f := fun e => indexEntry e.2) (a := r.seenAt now) hw.sorted hm rfl
  rw [Aligned, listings] at h ⊢
  rw [List.map_map] at h ⊢
  exact h.trans same.symm

theorem Aligned.enter (h : t.Aligned) (hw : t.WellFormed) {r : Listing} (hr : t.Entrant r)
    (next : EntryId) : (t.enter r next).Aligned := by
  have hi : (t.enter r next).index = t.index ++ [(r.offer, r.id)] :=
    Keyed.put_of_get?_eq_none (hw.index_eq_none hr.free) r.id
  rw [Aligned] at h ⊢
  rw [hi, listings_enter hw hr, List.map_append, h]
  rfl

theorem Aligned.deleteWhere (h : t.Aligned) (hw : t.WellFormed) (doomed : Listing → Bool) :
    (t.deleteWhere doomed).2.Aligned := by
  have gone {r : Listing} (hr : r ∈ t.listings) :
      (t.listings.filter doomed).any (·.offer = r.offer) = doomed r := by
    rw [Bool.eq_iff_iff, List.any_eq_true]
    constructor
    · intro hex
      obtain ⟨q, hq, ho⟩ := hex
      obtain ⟨hq, hd⟩ := List.mem_filter.mp hq
      exact hw.eq_of_offer hq hr (of_decide_eq_true ho) ▸ hd
    · intro hd
      exact ⟨r, List.mem_filter.mpr ⟨hr, hd⟩, decide_eq_true rfl⟩
  rw [Aligned] at h ⊢
  rw [listings_deleteWhere]
  simp only [Table.deleteWhere, h, List.filter_map]
  exact congrArg _ (List.filter_congr fun r hr => congrArg (!·) (gone hr))

theorem Aligned.touchOwner (h : t.Aligned) (owner : PeerId) (now : Instant) :
    (t.touchOwner owner now).2.Aligned := by
  rw [Aligned] at h ⊢
  rw [listings_touchOwner, List.map_map]
  refine Eq.trans h (List.map_congr_left fun r _ => ?_)
  simp only [Function.comp, indexEntry, touched_id, touched_offer]

theorem Aligned.apply (h : t.Aligned) (hw : t.WellFormed) {st : Statement}
    (hs : st.apply t = .ok u) : u.Aligned := by
  cases st with
  | upsert owner o now =>
    obtain ⟨r, hu⟩ := Statement.apply_upsert.mp hs
    rcases upsert_cases hw hu with ⟨q, hq, -, -, rfl⟩ | ⟨next, ho, -, -, rfl⟩
    · exact h.renew hw hq now
    · exact h.enter hw (hw.entrant ho owner now) next
  | deleteOwned fileName owner => cases hs; exact h.deleteWhere hw _
  | touchOwner owner now => cases hs; exact h.touchOwner owner now
  | deleteOwner owner => cases hs; exact h.deleteWhere hw _
  | deleteSeenBefore cutoff => cases hs; exact h.deleteWhere hw _

theorem Aligned.eq (h : t.Aligned) (h' : u.Aligned) (hn : u.nextId = t.nextId)
    (hr : u.rows = t.rows) : u = t := by
  have hi : u.index = t.index := by
    rw [Aligned, listings] at h h'
    rw [h, h', hr]
  cases t
  cases u
  simp_all

end Table
end PeerShare
