import PeerShare.Proofs.Age
import PeerShare.Proofs.Table.WellFormed
import PeerShare.Registry.Basic

/-!
What searches and look-ups of a number show: nothing but rows of the table, and of these the ones
that have been seen within the time to live.
-/

namespace PeerShare

theorem Text.isInfix_iff {needle s : List Char} : Text.isInfix needle s = true ↔ needle <:+: s := by
  induction s with
  | nil => rw [isInfix, List.isEmpty_iff, List.infix_nil]
  | cons c rest ih =>
    rw [isInfix, Bool.or_eq_true, List.isPrefixOf_iff_prefix, ih, List.infix_cons_iff]

theorem Table.matchesQuery_iff {query name : String} : Table.matchesQuery query name = true ↔
    Text.lower query.toList <:+: Text.lower name.toList := Text.isInfix_iff

namespace Registry

variable {g : Registry} {now : Instant}

theorem eq_of_look {α : Type} {f : Table → α} {a : α} (h : g.look f = .ok a) :
    a = f g.store.table := by
  unfold look at h
  cases ho : g.outage with
  | some message => rw [ho] at h; cases h
  | none => rw [ho] at h; exact (Except.ok.inj h).symm

theorem look_of_none {α : Type} (h : g.outage = none) (f : Table → α) :
    g.look f = .ok (f g.store.table) := by
  simp only [look, h]

theorem mem_search {query : String} {hits : List Hit} {hit : Hit}
    (h : g.search now query = .ok hits) (hh : hit ∈ hits) :
    ∃ r ∈ g.store.table.listings, r.hit = hit := by
  rw [eq_of_look h] at hh
  obtain ⟨r, hr, rfl⟩ := List.mem_map.mp hh
  exact ⟨r, (List.mem_filter.mp hr).1, rfl⟩

theorem resolveOwner_cases {i : EntryId} {found : Option Offer}
    (h : g.resolveOwner now i = .ok found) :
    found = none ∨ ∃ r, g.store.table.get? i = some r ∧ found = some r.offer := by
  rw [eq_of_look h]
  cases g.store.table.get? i with
  | none => exact .inl rfl
  | some r =>
    rw [Option.filter_some]
    split_ifs
    · exact .inr ⟨r, rfl, rfl⟩
    · exact .inl rfl

theorem search_shows (h : g.outage = none) {r : Listing} (hr : r ∈ g.store.table.listings)
    (hs : r.lastSeen = now) {query : String}
    (hq : Table.matchesQuery query r.offer.fileName = true) :
    ∃ hits, g.search now query = .ok hits ∧ r.hit ∈ hits := by
  refine ⟨_, look_of_none h _, List.mem_map_of_mem (List.mem_filter.mpr ⟨hr, ?_⟩)⟩
  rw [hq, Bool.and_true]
  cases hc : now.sub? g.policy.ttl with
  | none => rfl
  | some since => exact decide_eq_true (hs ▸ Instant.sub?_le hc)

theorem resolveOwner_shows (h : g.outage = none) (hw : g.store.table.WellFormed) {r : Listing}
    (hr : r ∈ g.store.table.listings) (hs : r.lastSeen = now) :
    g.resolveOwner now r.id = .ok (some r.offer) := by
  have alive : r.isAlive now g.policy.ttl = true := by
    unfold Listing.isAlive
    cases hc : now.sub? g.policy.ttl with
    | none => rfl
    | some since => exact decide_eq_true (hs ▸ Instant.sub?_le hc)
  rw [resolveOwner, look_of_none h, hw.get?_id hr, Option.filter_some, if_pos alive]
  rfl

theorem resolveOwner_of_none (h : g.outage = none) (now : Instant) (i : EntryId) :
    g.resolveOwner now i = .ok (((g.store.table.get? i).filter
      (·.isAlive now g.policy.ttl)).map (·.offer)) := look_of_none h _

theorem resolveOwner_eq_some_iff (h : g.outage = none) {i : EntryId} {o : Offer} :
    g.resolveOwner now i = .ok (some o) ↔ ∃ r, g.store.table.get? i = some r ∧ r.offer = o ∧
      Instant.Within g.policy.ttl now r.lastSeen := by
  rw [resolveOwner_of_none h]
  simp only [Except.ok.injEq, Option.map_eq_some_iff, Option.filter_eq_some_iff,
    Listing.isAlive_iff]
  constructor
  · intro hrow
    obtain ⟨r, ⟨hr, hw⟩, ho⟩ := hrow
    exact ⟨r, hr, ho, hw⟩
  · intro hrow
    obtain ⟨r, hr, ho, hw⟩ := hrow
    exact ⟨r, ⟨hr, hw⟩, ho⟩

theorem search_of_none (h : g.outage = none) (now : Instant) (query : String) :
    g.search now query = .ok (g.store.table.search query (now.sub? g.policy.ttl)) :=
  look_of_none h _

theorem mem_tableSearch {t : Table} {query : String} {ttl : Span} {hit : Hit} :
    hit ∈ t.search query (now.sub? ttl) ↔ ∃ r ∈ t.listings, r.hit = hit ∧
      Instant.Within ttl now r.lastSeen ∧ Table.matchesQuery query r.offer.fileName = true := by
  unfold Table.search
  simp only [List.mem_map, List.mem_filter, Bool.and_eq_true, Instant.within_iff_all]
  constructor
  · intro hrow
    obtain ⟨r, ⟨hr, hw, hq⟩, he⟩ := hrow
    exact ⟨r, hr, he, hw, hq⟩
  · intro hrow
    obtain ⟨r, hr, he, hw, hq⟩ := hrow
    exact ⟨r, ⟨hr, hw, hq⟩, he⟩

end Registry
end PeerShare
