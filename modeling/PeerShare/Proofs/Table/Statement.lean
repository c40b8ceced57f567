import PeerShare.Proofs.Table.WellFormed

/-!
The statements on a table as data. A statement decides of every row what becomes of it, without
looking at the others, and at most adds a row under the next number. So a later table follows an
earlier one: what a number stands for never changes, and numbers do not come back.
-/

namespace PeerShare.Table

inductive Statement
  | upsert (owner : PeerId) (o : Offer) (now : Instant)
  | deleteOwned (fileName : String) (owner : PeerId)
  | touchOwner (owner : PeerId) (now : Instant)
  | deleteOwner (owner : PeerId)
  | deleteSeenBefore (cutoff : Instant)

/-- What a row of a later table has in common with the row of the same number before. -/
structure SameListing (r q : Listing) : Prop where
  id : q.id = r.id
  owner : q.owner = r.owner
  offer : q.offer = r.offer
  lastSeen : r.lastSeen ≤ q.lastSeen

theorem SameListing.refl (r : Listing) : SameListing r r := ⟨rfl, rfl, rfl, Instant.le_refl _⟩

theorem SameListing.trans {p r q : Listing} (h : SameListing p r) (h' : SameListing r q) :
    SameListing p q :=
  ⟨h'.id.trans h.id, h'.owner.trans h.owner, h'.offer.trans h.offer,
    Instant.le_trans h.lastSeen h'.lastSeen⟩

theorem SameListing.seenAt (r : Listing) (now : Instant) : SameListing r (r.seenAt now) :=
  ⟨rfl, rfl, rfl, Instant.le_max_left _ _⟩

namespace Statement

def apply (t : Table) : Statement → Except Halt Table
  | .upsert owner o now => (t.upsert owner o now).map (·.2)
  | .deleteOwned fileName owner => .ok (t.deleteOwned fileName owner).2
  | .touchOwner owner now => .ok (t.touchOwner owner now).2
  | .deleteOwner owner => .ok (t.deleteOwner owner).2
  | .deleteSeenBefore cutoff => .ok (t.deleteSeenBefore cutoff).2

/-- What becomes of a row. -/
def fate : Statement → Listing → Option Listing
  | .upsert _ o now, r => some (if r.offer = o then r.seenAt now else r)
  | .deleteOwned fileName owner, r =>
    if r.offer.fileName = fileName ∧ r.owner = owner then none else some r
  | .touchOwner owner now, r => some (touched owner now r)
  | .deleteOwner owner, r => if r.owner = owner then none else some r
  | .deleteSeenBefore cutoff, r => if r.lastSeen < cutoff then none else some r

def Adds (t : Table) (q : Listing) : Statement → Prop
  | .upsert owner o now => (∀ r ∈ t.listings, r.offer ≠ o) ∧ q = ⟨t.nextId, owner, o, now⟩
  | _ => False

theorem fate_keeps {s : Statement} {r q : Listing} (h : s.fate r = some q) :
    SameListing r q := by
  cases s with
  | upsert owner o now =>
    simp only [fate] at h
    split_ifs at h <;> cases h
    · exact .seenAt r now
    · exact .refl r
  | touchOwner owner now =>
    simp only [fate, touched] at h
    split_ifs at h <;> cases h
    · exact .seenAt r now
    · exact .refl r
  | deleteOwned fileName owner => simp only [fate] at h; split_ifs at h; cases h; exact .refl r
  | deleteOwner owner => simp only [fate] at h; split_ifs at h; cases h; exact .refl r
  | deleteSeenBefore cutoff => simp only [fate] at h; split_ifs at h; cases h; exact .refl r

variable {t u : Table}

theorem apply_upsert {owner : PeerId} {o : Offer} {now : Instant} :
    (upsert owner o now).apply t = .ok u ↔ ∃ r, t.upsert owner o now = .ok (r, u) := by
  simp only [apply]
  cases t.upsert owner o now with
  | error e => simp [Except.map]
  | ok p => simp [Except.map, Prod.ext_iff]

theorem wellFormed_apply (h : t.WellFormed) {s : Statement} (hs : s.apply t = .ok u) :
    u.WellFormed := by
  cases s with
  | upsert owner o now =>
    obtain ⟨r, hu⟩ := apply_upsert.mp hs
    rcases upsert_cases h hu with ⟨q, hq, -, -, rfl⟩ | ⟨next, ho, hn, -, rfl⟩
    · exact h.renew hq now
    · exact h.enter (h.entrant ho owner now) (EntryId.lt_next? hn)
  | deleteOwned fileName owner => cases hs; exact h.deleteWhere _
  | touchOwner owner now => cases hs; exact h.touchOwner owner now
  | deleteOwner owner => cases hs; exact h.deleteWhere _
  | deleteSeenBefore cutoff => cases hs; exact h.deleteWhere _

theorem mem_deleteWhere_iff_fate {doomed : Listing → Bool} {s : Statement}
    (hs : ∀ r, s.fate r = if doomed r then none else some r) {q : Listing} :
    q ∈ (t.deleteWhere doomed).2.listings ↔ ∃ r ∈ t.listings, s.fate r = some q := by
  rw [mem_deleteWhere]
  constructor
  · intro hrow
    obtain ⟨hq, hd⟩ := hrow
    exact ⟨q, hq, by rw [hs, hd]; rfl⟩
  · intro hrow
    obtain ⟨r, hr, hf⟩ := hrow
    rw [hs] at hf
    split_ifs at hf with hd
    cases hf
    exact ⟨hr, Bool.not_eq_true _ ▸ hd⟩

theorem mem_apply (h : t.WellFormed) {s : Statement} (hs : s.apply t = .ok u) {q : Listing} :
    q ∈ u.listings ↔ (∃ r ∈ t.listings, s.fate r = some q) ∨ s.Adds t q := by
  cases s with
  | upsert owner o now =>
    obtain ⟨r, hu⟩ := apply_upsert.mp hs
    rcases upsert_cases h hu with ⟨p, hp, rfl, -, rfl⟩ | ⟨next, ho, hn, -, rfl⟩
    · have only : ∀ r ∈ t.listings, r.offer = p.offer → r = p :=
        fun r hr ho => h.eq_of_offer hr hp ho
      simp only [mem_renew h hp, fate, Adds, Option.some.injEq]
      constructor
      · intro hcases
        rcases hcases with rfl | ⟨hq, hne⟩
        · exact .inl ⟨p, hp, if_pos rfl⟩
        · exact .inl ⟨q, hq, if_neg fun ho => hne (only q hq ho)⟩
      · intro hcases
        rcases hcases with ⟨r, hr, rfl⟩ | ⟨hno, -⟩
        · split_ifs with ho
          · exact .inl (only r hr ho ▸ rfl)
          · exact .inr ⟨hr, fun he => ho (he ▸ rfl)⟩
        · exact absurd rfl (hno p hp)
    · have kept : ∀ r ∈ t.listings, (upsert owner o now).fate r = some r :=
        fun r hr => congrArg some (if_neg (ho r hr))
      rw [mem_enter h (h.entrant ho owner now)]
      constructor
      · intro hcases
        rcases hcases with rfl | hq
        · exact .inr ⟨ho, rfl⟩
        · exact .inl ⟨q, hq, kept q hq⟩
      · intro hcases
        rcases hcases with ⟨r, hr, hf⟩ | ⟨-, rfl⟩
        · rw [kept r hr] at hf
          cases hf
          exact .inr hr
        · exact .inl rfl
  | deleteOwned fileName owner =>
    cases hs
    refine (mem_deleteWhere_iff_fate fun r => ?_).trans (or_false _).symm.to_iff
    simp [fate]
  | touchOwner owner now =>
    cases hs
    simp only [mem_touchOwner, fate, Option.some.injEq, Adds, or_false]
  | deleteOwner owner =>
    cases hs
    refine (mem_deleteWhere_iff_fate fun r => ?_).trans (or_false _).symm.to_iff
    simp [fate]
  | deleteSeenBefore cutoff =>
    cases hs
    refine (mem_deleteWhere_iff_fate fun r => ?_).trans (or_false _).symm.to_iff
    simp [fate]

end Statement

/-! ### Earlier and later tables -/

/-- Every row after is one from before or has a number that was still to come. -/
structure Precedes (t u : Table) : Prop where
  nextId : t.nextId ≤ u.nextId
  origin : ∀ q ∈ u.listings, (∃ r ∈ t.listings, SameListing r q) ∨ t.nextId ≤ q.id

section Precedes
variable {t u v : Table} {r q : Listing}

theorem Precedes.refl (t : Table) : t.Precedes t :=
  ⟨EntryId.le_refl _, fun q hq => .inl ⟨q, hq, .refl q⟩⟩

theorem Precedes.of_eq (hn : u.nextId = t.nextId) (hr : u.rows = t.rows) : t.Precedes u :=
  ⟨hn ▸ EntryId.le_refl _, fun q hq => .inl ⟨q, by rwa [listings, ← hr], .refl q⟩⟩

theorem Precedes.trans (h : t.Precedes u) (h' : u.Precedes v) : t.Precedes v := by
  refine ⟨EntryId.le_trans h.nextId h'.nextId, fun q hq => ?_⟩
  rcases h'.origin q hq with ⟨r, hr, hs⟩ | hn
  · rcases h.origin r hr with ⟨p, hp, hs'⟩ | hn
    · exact .inl ⟨p, hp, hs'.trans hs⟩
    · exact .inr (hs.id ▸ hn)
  · exact .inr (EntryId.le_trans h.nextId hn)

theorem precedes_apply (h : t.WellFormed) {s : Statement} (hs : s.apply t = .ok u) :
    t.Precedes u where
  nextId := by
    cases s with
    | upsert owner o now =>
      obtain ⟨r, hu⟩ := Statement.apply_upsert.mp hs
      rcases upsert_cases h hu with ⟨q, -, -, -, rfl⟩ | ⟨next, -, hn, -, rfl⟩
      · exact EntryId.le_refl _
      · exact EntryId.le_of_lt (EntryId.lt_next? hn)
    | deleteOwned fileName owner => cases hs; exact EntryId.le_refl _
    | touchOwner owner now => cases hs; exact EntryId.le_refl _
    | deleteOwner owner => cases hs; exact EntryId.le_refl _
    | deleteSeenBefore cutoff => cases hs; exact EntryId.le_refl _
  origin := fun q hq => by
    rcases (Statement.mem_apply h hs).mp hq with ⟨r, hr, hf⟩ | ha
    · exact .inl ⟨r, hr, Statement.fate_keeps hf⟩
    · cases s with
      | upsert owner o now => exact .inr (ha.2 ▸ EntryId.le_refl _)
      | _ => exact ha.elim

theorem Precedes.sameListing (h : t.Precedes u) (ht : t.WellFormed) (hr : r ∈ t.listings)
    (hq : q ∈ u.listings) (hi : q.id = r.id) : SameListing r q := by
  rcases h.origin q hq with ⟨p, hp, hs⟩ | hn
  · rwa [ht.eq_of_id hr hp (hi.symm.trans hs.id)]
  · exact absurd rfl (EntryId.ne_of_lt (EntryId.lt_of_lt_of_le (ht.id_lt hr) (hi ▸ hn)))

theorem Precedes.gone (h : t.Precedes u) {i : EntryId} (hi : i < t.nextId)
    (hn : ∀ r ∈ t.listings, r.id ≠ i) : ∀ q ∈ u.listings, q.id ≠ i := by
  intro q hq he
  subst he
  rcases h.origin q hq with ⟨r, hr, hs⟩ | hle
  · exact hn r hr hs.id.symm
  · exact EntryId.ne_of_lt (EntryId.lt_of_lt_of_le hi hle) rfl

end Precedes
end PeerShare.Table
