import PeerShare.Proofs.Table.Renewal

/-!
What one peer holds of a table, the numbers left out: its offers and when they were last seen. A
statement makes of the holdings of a peer something that depends on them alone, as long as the peer
lists no offer that another peer holds; the other rows and the numbers do not matter.
-/

namespace PeerShare

structure Holding where
  offer : Offer
  lastSeen : Instant
  deriving DecidableEq

def Listing.holding (r : Listing) : Holding := ⟨r.offer, r.lastSeen⟩

def Holding.seenAt (h : Holding) (now : Instant) : Holding :=
  { h with lastSeen := max h.lastSeen now }

namespace Table

/-- The holdings of a peer, in the order in which they were listed. -/
def holdings (t : Table) (p : PeerId) : List Holding :=
  (t.listings.filter (·.owner = p)).map (·.holding)

section Holdings
variable {t : Table} {p : PeerId} {h : Holding} {f : Listing → Listing} {g : Holding → Holding}
  {doomed : Listing → Bool} {d : Holding → Bool} {o : Offer}

theorem mem_holdings : h ∈ t.holdings p ↔ ∃ q ∈ t.listings, q.owner = p ∧ q.holding = h := by
  simp only [holdings, List.mem_map, List.mem_filter, decide_eq_true_eq, and_assoc]

theorem holdings_mapListings (hf : ∀ q ∈ t.listings, (f q).owner = q.owner)
    (hg : ∀ q ∈ t.listings, q.owner = p → (f q).holding = g q.holding) :
    (t.mapListings f).holdings p = (t.holdings p).map g := by
  have howner : (t.listings.map f).filter (·.owner = p) = (t.listings.filter (·.owner = p)).map f := by
    rw [List.filter_map]
    refine congrArg _ (List.filter_congr fun q hq => ?_)
    rw [Function.comp_apply, hf q hq]
  simp only [holdings, listings_mapListings, howner, List.map_map]
  refine List.map_congr_left fun q hq => ?_
  obtain ⟨hq, hp⟩ := List.mem_filter.mp hq
  exact hg q hq (of_decide_eq_true hp)

theorem holdings_deleteWhere (hd : ∀ q ∈ t.listings, q.owner = p → doomed q = d q.holding) :
    (t.deleteWhere doomed).2.holdings p = (t.holdings p).filter (!d ·) := by
  rw [holdings, listings_deleteWhere, holdings, List.filter_map, List.filter_filter,
    List.filter_filter]
  refine congrArg _ (List.filter_congr fun q hq => ?_)
  by_cases hp : q.owner = p
  · simp [hp, hd q hq hp]
  · simp [hp]

theorem holdings_enter (hw : t.WellFormed) {r : Listing} (hr : t.Entrant r) (next : EntryId) :
    (t.enter r next).holdings p = t.holdings p ++ if r.owner = p then [r.holding] else [] := by
  rw [holdings, listings_enter hw hr, List.filter_append, List.map_append, holdings]
  split_ifs with hp <;> simp [hp]

theorem countP_holdings (hd : ∀ q ∈ t.listings, doomed q = (decide (q.owner = p) && d q.holding)) :
    t.listings.countP doomed = (t.holdings p).countP d := by
  rw [holdings, List.countP_map, List.countP_filter]
  refine List.countP_congr fun q hq => ?_
  rw [hd q hq, Bool.and_comm]
  rfl

theorem free_iff_holdings (hown : ∀ q ∈ t.listings, q.offer = o → q.owner = p) :
    (∀ q ∈ t.listings, q.offer ≠ o) ↔ ∀ h ∈ t.holdings p, h.offer ≠ o := by
  constructor
  · intro hfree h hh
    obtain ⟨q, hq, -, rfl⟩ := mem_holdings.mp hh
    exact hfree q hq
  · intro hfree q hq ho
    exact hfree q.holding (mem_holdings.mpr ⟨q, hq, hown q hq ho, rfl⟩) ho

end Holdings

/-! ### Statements -/

/-- What a statement makes of the holdings of a peer. -/
def Statement.onHoldings (p : PeerId) : Statement → List Holding → List Holding
  | .upsert owner o now, l =>
    if owner = p ∧ ∀ h ∈ l, h.offer ≠ o then l ++ [⟨o, now⟩]
    else l.map fun h => if h.offer = o then h.seenAt now else h
  | .deleteOwned fileName owner, l => l.filter fun h => !(h.offer.fileName = fileName && p = owner)
  | .touchOwner owner now, l => l.map fun h => if p = owner then h.seenAt now else h
  | .deleteOwner owner, l => l.filter fun _ => !(p = owner)
  | .deleteSeenBefore cutoff, l => l.filter fun h => !(h.lastSeen < cutoff)

section Statements
variable {t u : Table} {p owner : PeerId} {o : Offer} {now : Instant} {st : Statement}

theorem holdings_upsert (hw : t.WellFormed) {r : Listing} (hu : t.upsert owner o now = .ok (r, u))
    (hown : owner = p → ∀ q ∈ t.listings, q.offer = o → q.owner = p) :
    u.holdings p = (Statement.upsert owner o now).onHoldings p (t.holdings p) := by
  simp only [Statement.onHoldings]
  rcases upsert_cases hw hu with ⟨q, hq, rfl, -, rfl⟩ | ⟨next, hfree, -, rfl, rfl⟩
  · have hheld : ¬ (owner = p ∧ ∀ h ∈ t.holdings p, h.offer ≠ q.offer) := fun hn =>
      (free_iff_holdings (hown hn.1)).mpr hn.2 q hq rfl
    rw [if_neg hheld, renew_eq_mapListings hw hq]
    refine holdings_mapListings (fun q' _ => ?_) fun q' _ _ => ?_
    · split_ifs <;> rfl
    · show Listing.holding (if q'.offer = q.offer then q'.seenAt now else q') =
        if q'.offer = q.offer then q'.holding.seenAt now else q'.holding
      split_ifs <;> rfl
  · have hnone : ∀ h ∈ t.holdings p, h.offer ≠ o := fun h hh => by
      obtain ⟨q, hq, -, rfl⟩ := mem_holdings.mp hh
      exact hfree q hq
    rw [holdings_enter hw (hw.entrant hfree owner now)]
    split_ifs with hp hboth hboth
    · rfl
    · exact absurd ⟨hp, hnone⟩ hboth
    · exact absurd hboth.1 hp
    · rw [List.append_nil]
      refine ((List.map_congr_left fun h hh => ?_).trans (List.map_id _)).symm
      exact if_neg (hnone h hh)

theorem holdings_apply (hw : t.WellFormed) (hs : st.apply t = .ok u)
    (hown : ∀ o now, st = .upsert p o now → ∀ q ∈ t.listings, q.offer = o → q.owner = p) :
    u.holdings p = st.onHoldings p (t.holdings p) := by
  cases st with
  | upsert owner o now =>
    obtain ⟨r, hu⟩ := Statement.apply_upsert.mp hs
    refine holdings_upsert hw hu fun hp => ?_
    subst hp
    exact hown o now rfl
  | deleteOwned fileName owner =>
    cases hs
    refine holdings_deleteWhere fun q _ hq => ?_
    subst hq
    rfl
  | touchOwner owner now =>
    cases hs
    refine holdings_mapListings (fun q _ => touched_owner q) fun q _ hq => ?_
    subst hq
    show Listing.holding (if q.owner = owner then q.seenAt now else q) =
      if q.owner = owner then q.holding.seenAt now else q.holding
    split_ifs <;> rfl
  | deleteOwner owner =>
    cases hs
    refine holdings_deleteWhere fun q _ hq => ?_
    subst hq
    rfl
  | deleteSeenBefore cutoff =>
    cases hs
    exact holdings_deleteWhere fun q _ _ => rfl

/-! ### Counts -/

theorem count_deleteOwned (t : Table) (fileName : String) (p : PeerId) :
    (t.deleteOwned fileName p).1 = (t.holdings p).countP (·.offer.fileName = fileName) := by
  refine List.countP_eq_length_filter.symm.trans (countP_holdings fun q _ => ?_)
  rw [Bool.and_comm]
  rfl

theorem count_deleteOwner (t : Table) (p : PeerId) :
    (t.deleteOwner p).1 = (t.holdings p).length := by
  rw [holdings, List.length_map]
  rfl

theorem count_touchOwner (t : Table) (p : PeerId) (now : Instant) :
    (t.touchOwner p now).1 = (t.holdings p).length := by
  rw [holdings, List.length_map]
  exact List.countP_eq_length_filter

end Statements
end Table
end PeerShare
