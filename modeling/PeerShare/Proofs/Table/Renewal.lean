import PeerShare.Proofs.Table.Statement

/-!
Renewals as changes of the listings where they stand. Numbers, index and next number stay, and so
does the order of the rows; a row that is put back under its number takes the place it had.
-/

namespace PeerShare

theorem putSorted_eq_map {α : Type} {l : List (EntryId × α)} (hl : l.Pairwise (·.1 < ·.1))
    {k : EntryId} {b : α} (hb : (k, b) ∈ l) (a : α) :
    Keyed.putSorted k a l = l.map fun e => if e.1 = k then (k, a) else e := by
  induction l with
  | nil => cases hb
  | cons e l ih =>
    obtain ⟨he, hl'⟩ := List.pairwise_cons.mp hl
    simp only [Keyed.putSorted, List.map_cons]
    rcases List.mem_cons.mp hb with rfl | hb
    · -- No later entry has the number again.
      have hrest : (l.map fun f => if f.1 = k then (k, a) else f) = l := by
        refine (List.map_congr_left fun f hf => ?_).trans (List.map_id l)
        exact if_neg fun hk => EntryId.ne_of_lt (he f hf) hk.symm
      simp only [if_true, hrest]
    · have hlt : e.1 < k := he _ hb
      have hn : ¬ k < e.1 := fun h => EntryId.ne_of_lt (EntryId.lt_trans hlt h) rfl
      simp only [if_neg (EntryId.ne_of_lt hlt), if_neg hn, ih hl' hb]

namespace Table

def mapListings (t : Table) (f : Listing → Listing) : Table :=
  { t with rows := t.rows.map fun e => (e.1, f e.2) }

section MapListings
variable {t : Table} {f g : Listing → Listing} {r : Listing} {owner : PeerId} {now : Instant}

@[simp] theorem listings_mapListings (t : Table) (f : Listing → Listing) :
    (t.mapListings f).listings = t.listings.map f := by
  simp only [mapListings, listings, List.map_map]
  rfl

theorem mapListings_congr (h : ∀ r ∈ t.listings, f r = g r) :
    t.mapListings f = t.mapListings g := by
  have hrows : (t.rows.map fun e => (e.1, f e.2)) = t.rows.map fun e => (e.1, g e.2) :=
    List.map_congr_left fun e he => by rw [h e.2 (List.mem_map_of_mem he)]
  simp only [mapListings, hrows]

theorem mapListings_eq_self (h : ∀ r ∈ t.listings, f r = r) : t.mapListings f = t := by
  have hid : t.mapListings id = t := by simp [mapListings]
  exact (mapListings_congr h).trans hid

theorem mapListings_mapListings (t : Table) (f g : Listing → Listing) :
    (t.mapListings f).mapListings g = t.mapListings fun r => g (f r) := by
  simp only [mapListings, List.map_map]
  rfl

theorem touchOwner_eq_mapListings (t : Table) (owner : PeerId) (now : Instant) :
    (t.touchOwner owner now).2 = t.mapListings (touched owner now) := rfl

theorem renew_eq_mapListings (h : t.WellFormed) (hr : r ∈ t.listings) (now : Instant) :
    t.renew r now = t.mapListings fun q => if q.offer = r.offer then q.seenAt now else q := by
  have hrows : (t.renew r now).rows =
      t.rows.map fun e => (e.1, if e.2.offer = r.offer then e.2.seenAt now else e.2) := by
    refine (putSorted_eq_map h.sorted (h.mem_rows_iff.mpr ⟨hr, rfl⟩) _).trans ?_
    refine List.map_congr_left fun e he => ?_
    have hlist := (h.mem_rows_iff.mp he).1
    by_cases hi : e.1 = r.id
    · have he2 : e.2 = r := h.eq_of_id hlist hr ((h.own e he).trans hi)
      rw [if_pos hi, he2, if_pos rfl, hi]
    · have ho : e.2.offer ≠ r.offer := fun ho =>
        hi ((h.own e he).symm.trans (congrArg Listing.id (h.eq_of_offer hlist hr ho)))
      rw [if_neg hi, if_neg ho]
  cases t
  simp only [renew, mapListings] at hrows ⊢
  rw [hrows]

end MapListings
end Table
end PeerShare
